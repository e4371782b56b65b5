import IoImap.Rfc2177.IdleEvents
import IoImap.Rfc2177.IdleOctets
import IoImap.Watch.Wakeups

/-!
# Empty batches of IDLE

While IDLE reads, every read that is taken ends in an event, whether or not it has
completed a response. Only the event behind the continuation is looked at for what it
holds. The watcher leaves IDLE on any event, so on an empty one too.
-/

namespace IoImap
open Fragmentizer ServerMessage Transition ImapIdleEvent

theorem ImapIdleEvent.ofMessages_append (ms ms' : List ServerMessage) :
    ofMessages (ms ++ ms') = ofMessages ms ++ ofMessages ms' := by
  simp [ofMessages, append_def]

namespace ImapIdle

variable {F : Type}

/-- The octets that are taken while reading complete a data or status response. -/
def BringsUpdate (s : ImapIdle) (env : ImapIdleEnv) (answer : List Bytes)
    (received : List ServerMessage) : Prop :=
  s.reading = true → s.stopping env = false → answer ≠ [] → Decoded received →
    ofMessages received ≠ empty

instance (ms : List ServerMessage) : Decidable (Decoded ms) :=
  inferInstanceAs (Decidable (∀ m ∈ ms, refusal? m = none))

instance (s : ImapIdle) (env : ImapIdleEnv) (answer : List Bytes) (received : List ServerMessage) :
    Decidable (s.BringsUpdate env answer received) :=
  inferInstanceAs (Decidable (_ → _ → _ → _ → _))

def Brings [Fragmentizer F] (t : Step F) : Prop := t.before.BringsUpdate t.env t.answer t.received

instance [Fragmentizer F] (t : Step F) : Decidable (Brings t) :=
  inferInstanceAs (Decidable (t.before.BringsUpdate t.env t.answer t.received))

section OneResume

variable {s s' : ImapIdle} {f f' : F} {env : ImapIdleEnv} {due : Request} {arg : Option Bytes}
  {events : List FragmentizerEvent}

theorem bringsUpdate_of_not_reading {answer : List Bytes} {received : List ServerMessage}
    (h : ∀ tag, s.state ≠ .read tag) : s.BringsUpdate env answer received := by
  intro hreading
  unfold reading at hreading
  split at hreading
  · rename_i tag hs
    exact absurd hs (h tag)
  · simp at hreading

theorem octets_reading {tag : Tag} {data : Bytes} (hready : s.Ready due)
    (hans : due.answeredBy (some data) = true) (hs : s.state = .read tag) (hne : data ≠ []) :
    due.octets (some data) = [data] := by
  have hex := hready.exchange
  simp only [hs] at hex
  rcases hex with rfl | rfl
  · simp [Request.answeredBy] at hans
  · exact Request.octets_read hne

theorem ofYield_ne_event {y : ImapYield} {event : ImapIdleEvent}
    (h : ImapIdleYield.ofYield y = .event event) : False := by
  cases y <;> simp [ImapIdleYield.ofYield] at h

variable [Fragmentizer F] [Encoder IdleDone]

/-- An event that is yielded while reading holds what the read completes, and one that is
yielded behind the continuation is not empty. -/
theorem event_ne_empty_iff {out : ImapIdleResult} (h : s.Resumed f env arg out s' f' events)
    (hready : s.Ready due) (hans : due.answeredBy arg = true) :
    (∀ event, out = .yielded (.event event) → event ≠ empty) ↔
      s.BringsUpdate env (due.octets arg)
        ((due.octets arg).flatMap fun bytes => messages (enqueueBytes f bytes)) := by
  cases h with
  | idles hs hr =>
    refine iff_of_true (fun event he => ?_) (bringsUpdate_of_not_reading (by simp [hs]))
    exact (ofYield_ne_event (CoroutineState.yielded.inj he)).elim
  | finishes hs hr =>
    refine iff_of_true (fun event he => ?_) (bringsUpdate_of_not_reading (by simp [hs]))
    exact (ofYield_ne_event (CoroutineState.yielded.inj he)).elim
  | reports hs hr hout hnews =>
    refine iff_of_true (fun event he => ?_) (bringsUpdate_of_not_reading (by simp [hs]))
    obtain rfl := ImapIdleYield.event.inj (CoroutineState.yielded.inj he)
    intro hempty
    obtain ⟨huntagged, hdata⟩ := ImapIdleEvent.mk.inj hempty
    exact hnews.elim (fun hne => hne hdata) fun hne => hne huntagged
  | idleEnds hs => exact iff_of_true (by simp) (bringsUpdate_of_not_reading (by simp [hs]))
  | enters hs => exact iff_of_true (by simp) (bringsUpdate_of_not_reading (by simp [hs]))
  | turnsBack hs => exact iff_of_true (by simp) (bringsUpdate_of_not_reading (by simp [hs]))
  | ends hs => exact iff_of_true (by simp) (bringsUpdate_of_not_reading (by simp [hs]))
  | renews hs => exact iff_of_true (by simp) (bringsUpdate_of_not_reading (by simp [hs]))
  | stops hs hstop =>
    refine iff_of_true (by simp) fun _ hgo => ?_
    rw [hstop] at hgo
    exact absurd hgo (by decide)
  | waits hs hgo =>
    refine iff_of_true (by simp) fun _ _ hne => ?_
    exact absurd (Request.octets_none due) hne
  | eof hs hgo =>
    refine iff_of_true (by simp) fun _ _ hne => ?_
    exact absurd (Request.octets_eof due) hne
  | @refused _ data _ _ m err _ _ hs hgo hne hms hpre hm =>
    refine iff_of_true (by simp) fun _ _ _ hdecoded => ?_
    rw [octets_reading hready hans hs hne, List.flatMap_singleton, hms] at hdecoded
    have hnone := hdecoded m (by simp)
    rw [hm] at hnone
    exact absurd hnone (by simp)
  | @hears _ data hs hgo hne hms =>
    rw [BringsUpdate, octets_reading hready hans hs hne, List.flatMap_singleton]
    have hreading : s.reading = true := by simp [reading, hs]
    constructor
    · intro hevents _ _ _ _
      exact hevents _ rfl
    · intro hbrings event he
      obtain rfl := ImapIdleYield.event.inj (CoroutineState.yielded.inj he)
      exact hbrings hreading hgo (by simp) hms

end OneResume

/-- In a run of IDLE no event is empty exactly when every read that is taken while
reading completes a data or status response. -/
theorem events_nonempty_iff [Fragmentizer F] [TryFrom Bytes Tag] [Encoder Command]
    [Encoder IdleDone] [LawfulEncoder Command] [LawfulEncoder IdleDone] {opts : ImapIdleOptions}
    {f : F} {es : List (Step F)} {b : Config ImapIdle F} (h : imapIdle.Runs (.new opts) f es b) :
    (∀ t ∈ es, ∀ event, t.out = .yielded (.event event) → event ≠ empty) ↔
      ∀ t ∈ es, Brings t := by
  have hiff : ∀ t ∈ es,
      ((∀ event, t.out = .yielded (.event event) → event ≠ empty) ↔ Brings t) := by
    refine Run.labels (I := fun a => ∀ due, a.due = some due → a.state.Ready due) ?_ ?_ h
    · intro due hdue
      obtain rfl : Request.nothing = due := Option.some.inj hdue
      exact new_ready opts
    · intro a t b ha hstep
      obtain ⟨⟨hr, hs, hans⟩, -, -, hb⟩ := step_resumed ha hstep
      exact ⟨hb, event_ne_empty_iff hr hs hans⟩
  exact forall₂_congr hiff

end ImapIdle

namespace ImapMailboxWatch

variable {F : Type}

def Brings [Fragmentizer F] (t : Step F) : Prop :=
  ∀ idle ∈ t.before.state.idle?, idle.BringsUpdate (t.before.idleEnv t.env) t.answer t.received

instance [Fragmentizer F] (t : Step F) : Decidable (Brings t) :=
  inferInstanceAs (Decidable (∀ idle ∈ t.before.state.idle?,
    idle.BringsUpdate (t.before.idleEnv t.env) t.answer t.received))

/-- The resumes since a command was given its tag. -/
def sinceTag (es : List (Step F)) : List (Step F) := es.rtakeWhile fun t => decide (t.due ≠ .tag)

/-- The data and status responses decoded since a command was given its tag. -/
def updates (es : List (Step F)) : ImapIdleEvent := ofMessages ((sinceTag es).flatMap Turn.completed)

/-- DONE is written so that the mailbox is read again. -/
def leaves (t : Step F) : Bool := !t.before.idleSawData && t.after.idleSawData

/-- IDLE is left for a resync behind a data or status response that it was sent. -/
def LeavesBehindUpdate (es : List (Step F)) (t : Step F) : Prop :=
  leaves t = true → updates (es ++ [t]) ≠ empty

section Updates

variable {es : List (Step F)} {t : Step F}

theorem updates_tag (h : t.due = .tag) : updates (es ++ [t]) = empty := by
  rw [updates, sinceTag, List.rtakeWhile_concat_neg _ _ _ (by simp [h])]
  rfl

theorem updates_concat (h : t.due ≠ .tag) :
    updates (es ++ [t]) = updates es ++ ofMessages t.completed := by
  rw [updates, sinceTag, List.rtakeWhile_concat_pos _ _ _ (by simp [h]), List.flatMap_append,
    ofMessages_append, List.flatMap_singleton]
  rfl

theorem updates_silent (h : t.due ≠ .tag) (hlog : t.log = []) : updates (es ++ [t]) = updates es := by
  rw [updates_concat h, Turn.completed_silent hlog]
  exact append_empty _

end Updates

/-! ### What IDLE holds between two resumes -/

/-- The exchange of IDLE holds what came since its tag, and IDLE reads only when nothing came. -/
def Holds (es : List (Step F)) (due : Request) (idle : ImapIdle) : Prop :=
  match idle.state with
  | .idle send =>
    (due = .tag ∧ send.data = [] ∧ send.untagged = []) ∨
      ((∃ sent, send.state = .read sent) ∧ updates es = ⟨send.untagged, send.data⟩)
  | .read _ => updates es = empty
  | .done _ => True

structure Listens (es : List (Step F)) (due : Request) (w : ImapMailboxWatch) : Prop where
  flagged : ∀ idle ∈ w.state.idle?, w.idleSawData = true → w.idleDone = true
  holds : ∀ idle ∈ w.state.idle?, Holds es due idle

section OneResume

variable {es : List (Step F)} {t : Step F} {send send' : ImapSend Command} {f' : F}
  [Fragmentizer F]

theorem reading_due {sent : Sent Command} {due : Request} (hs : send.state = .read sent)
    (hawaits : send.Awaits due) : due ≠ .tag := by
  simp only [ImapSend.Awaits, hs] at hawaits
  rcases hawaits with rfl | rfl <;> simp

theorem exchange_collects {out : ImapSendResult Command}
    (hr : send.Resumed t.frag t.arg out send' f' t.log) (hout : ∀ err, out ≠ .complete (.error err))
    (hdue : t.due ≠ .tag) (h : updates es = ⟨send.untagged, send.data⟩) :
    updates (es ++ [t]) = ⟨send'.untagged, send'.data⟩ := by
  obtain ⟨hdata, huntagged⟩ := hr.collected hout
  rw [updates_concat hdue, h, hdata, huntagged]
  rfl

theorem exchange_holds {y : ImapYield} (hr : send.Resumed t.frag t.arg (.yielded y) send' f' t.log)
    (hawaits : send.Awaits t.due) (hans : t.due.answeredBy t.arg = true)
    (h : (t.due = .tag ∧ send.data = [] ∧ send.untagged = []) ∨
      ((∃ sent, send.state = .read sent) ∧ updates es = ⟨send.untagged, send.data⟩)) :
    (∃ sent, send'.state = .read sent) ∧ updates (es ++ [t]) = ⟨send'.untagged, send'.data⟩ := by
  rcases h with ⟨hdue, hdata, huntagged⟩ | ⟨⟨sent, hs⟩, hupdates⟩
  · have hnone : t.arg ≠ none := by
      intro harg
      simp [hdue, harg, Request.answeredBy] at hans
    generalize t.arg = arg at hr hnone
    generalize t.log = log at hr
    cases hr with
    | asks => exact absurd rfl hnone
    | waits => exact absurd rfl hnone
    | writes => exact ⟨⟨_, rfl⟩, by rw [updates_tag hdue, hdata, huntagged]; rfl⟩
    | continues hs => exact absurd hdue (reading_due hs hawaits)
    | readsOn hs => exact absurd hdue (reading_due hs hawaits)
  · refine ⟨?_, exchange_collects hr (by simp) (reading_due hs hawaits) hupdates⟩
    generalize t.arg = arg at hr
    generalize t.log = log at hr
    cases hr with
    | asks hs' => simp [hs] at hs'
    | waits => exact ⟨sent, hs⟩
    | writes => exact ⟨_, rfl⟩
    | continues => exact ⟨_, rfl⟩
    | readsOn hs' => exact ⟨_, by rw [ImapSend.absorbAll_state, hs']⟩

/-- The exchange of IDLE is over: what it hands on is what came since its tag. -/
theorem exchange_output {out : ImapSendOutput Command}
    (hr : send.Resumed t.frag t.arg (.complete (.ok out)) send' f' t.log)
    (hawaits : send.Awaits t.due)
    (h : (t.due = .tag ∧ send.data = [] ∧ send.untagged = []) ∨
      ((∃ sent, send.state = .read sent) ∧ updates es = ⟨send.untagged, send.data⟩)) :
    updates (es ++ [t]) = ⟨out.untagged, out.data⟩ := by
  obtain ⟨sent, hs, rfl, -⟩ := hr.succeeds
  have hdue := reading_due hs hawaits
  rcases h with ⟨htag, -⟩ | ⟨-, hupdates⟩
  · exact absurd htag hdue
  · exact exchange_collects hr (by simp) hdue hupdates

section Idle

variable {idle idle' : ImapIdle} {env : ImapIdleEnv} [Encoder IdleDone]

theorem idle_holds {y : ImapYield}
    (hr : idle.Resumed t.frag env t.arg (.yielded (.ofYield y)) idle' f' t.log)
    (hready : idle.Ready t.due) (hans : t.due.answeredBy t.arg = true) (h : Holds es t.due idle) :
    Holds (es ++ [t]) y.request idle' := by
  have hex := hready.exchange
  generalize hy : ImapIdleYield.ofYield y = z at hr
  generalize harg : t.arg = arg, hlog : t.log = log at hr
  cases hr with
  | idles hs hr =>
    simp only [hs] at hex
    simp only [Holds, hs] at h
    subst harg hlog
    exact .inr (exchange_holds hr hex.2 hans h)
  | enters hs hr hout hquiet =>
    simp only [hs] at hex
    simp only [Holds, hs] at h
    subst harg hlog
    show updates (es ++ [t]) = empty
    rw [exchange_output hr hex.2 h, hquiet.1, hquiet.2]
    rfl
  | waits hs =>
    simp only [hs] at hex
    simp only [Holds, hs] at h
    have hdue : t.due ≠ .tag := by rcases hex with hdue | hdue <;> simp [hdue]
    show updates (es ++ [t]) = empty
    rw [updates_silent hdue hlog, h]
  | renews hs hr =>
    have hrequest : y.request = .tag := by
      cases y <;> simp_all [ImapIdleYield.ofYield, ImapYield.request]
    exact .inl ⟨hrequest, rfl, rfl⟩
  | turnsBack => trivial
  | stops => trivial
  | finishes => trivial
  | reports => exact (ImapIdle.ofYield_ne_event hy).elim
  | hears => exact (ImapIdle.ofYield_ne_event hy).elim

theorem event_updates {event : ImapIdleEvent}
    (hr : idle.Resumed t.frag env t.arg (.yielded (.event event)) idle' f' t.log)
    (hready : idle.Ready t.due) (h : Holds es t.due idle) : updates (es ++ [t]) = event := by
  have hex := hready.exchange
  generalize hy : ImapIdleYield.event event = z at hr
  generalize harg : t.arg = arg, hlog : t.log = log at hr
  cases hr with
  | reports hs hr hout hnews =>
    simp only [hs] at hex
    simp only [Holds, hs] at h
    subst harg hlog
    rw [exchange_output hr hex.2 h, ImapIdleYield.event.inj hy]
  | hears hs hgo hne hms =>
    simp only [hs] at hex
    simp only [Holds, hs] at h
    have hdue : t.due ≠ .tag := by rcases hex with hdue | hdue <;> simp [hdue]
    rw [updates_concat hdue, h, empty_append, Turn.completed_read hlog, ImapIdleYield.event.inj hy]
    rfl
  | idles => exact (ImapIdle.ofYield_ne_event hy.symm).elim
  | finishes => exact (ImapIdle.ofYield_ne_event hy.symm).elim
  | _ => simp at hy

end Idle
end OneResume

/-! ### What follows a sub-coroutine -/

/-- Nothing is said to have been reported, and nothing was when IDLE begins. -/
structure Outcome.Forgets (o : Outcome) (sawData : Bool) : Prop where
  kept : o.2.idleSawData = true → sawData = true
  idle : ∀ idle ∈ o.2.state.idle?, o.2.idleSawData = false

section Outcomes

variable [Base64Codec] [TryFrom String Mailbox] {w : ImapMailboxWatch} {env : ImapMailboxWatchEnv}
  {o : Outcome}

theorem Continues.forgets (h : Continues w env o) : o.Forgets w.idleSawData := by
  cases h with
  | reexamines opts hinto =>
    rcases hinto with rfl | rfl <;> exact ⟨id, by simp [startCommand, State.idle?]⟩
  | idles => exact ⟨by simp [startIdle], fun _ _ => rfl⟩
  | _ => exact ⟨id, by simp [complete, State.idle?]⟩

theorem Ensues.forgets (h : Ensues w env o) : o.Forgets w.idleSawData := by
  cases h with
  | examines => exact ⟨id, by simp [startCommand, State.idle?]⟩
  | fetches hw hinto =>
    rw [← hw.2]
    rcases hinto with rfl | rfl <;> exact ⟨id, by simp [startCommand, State.idle?]⟩
  | continues h hw => exact hw.2 ▸ h.forgets

end Outcomes

section Step

variable {es : List (Step F)} {t : Step F}

theorem leaves_eq_false (h : t.after.idleSawData = true → t.before.idleSawData = true) :
    leaves t = false := by
  unfold leaves
  cases hafter : t.after.idleSawData with
  | false => rw [Bool.and_false]
  | true => rw [h hafter]; rfl

theorem Outcome.Forgets.listens {o : Outcome} {sawData : Bool} (hf : o.Forgets sawData) (hs : o.Starts)
    {y : ImapMailboxWatchYield} (hy : o.1 = .yielded y) : Listens es y.request o.2 := by
  refine ⟨fun idle hidle hsaw => ?_, fun idle hidle => ?_⟩
  · rw [hf.idle idle hidle] at hsaw
    exact absurd hsaw (by decide)
  · cases hs with
    | completes => simp at hy
    | @asks body w hs => cases hstate : w.state <;> simp_all [State.idle?, State.command?]
    | @idles first w hs hidle' hdata =>
      obtain rfl := CoroutineState.yielded.inj hy
      obtain rfl : first = idle := by simpa [State.idle?, hs] using hidle
      rw [Holds, hidle']
      exact .inl ⟨rfl, rfl, rfl⟩
    | @rests z w hz hs => cases hstate : w.state <;> simp_all [State.idle?, State.isBare]

variable [Fragmentizer F]

theorem brings_of_not_idle (h : t.before.state.idle? = none) : Brings t := by
  intro idle hidle
  simp [h] at hidle

theorem brings_iff {idle : ImapIdle} (hs : t.before.state = .idle idle) :
    Brings t ↔ idle.BringsUpdate (t.before.idleEnv t.env) t.answer t.received := by
  simp [Brings, hs, State.idle?]

theorem idle?_command {state : State} {send : ImapSend Command} (h : state.command? = some send) :
    state.idle? = none ∧ (state.withCommand send).idle? = none := by
  cases state <;> simp_all [State.command?, State.withCommand, State.idle?]

/-- IDLE reported an event: it is left, unless it was being left already. -/
theorem leaves_seen [Encoder IdleDone] {idle idle' : ImapIdle} {event : ImapIdleEvent} {f' : F}
    (hs : t.before.state = .idle idle)
    (hr : idle.Resumed t.frag (t.before.idleEnv t.env) t.arg (.yielded (.event event)) idle' f' t.log)
    (hready : idle.Ready t.due) (hans : t.due.answeredBy t.arg = true) (h : Listens es t.due t.before)
    (haft : t.after.idleSawData = true) : LeavesBehindUpdate es t ↔ Brings t := by
  have hidle : idle ∈ t.before.state.idle? := by rw [hs]; rfl
  have hevent := event_updates hr hready (h.holds _ hidle)
  have hiff := ImapIdle.event_ne_empty_iff hr hready hans
  rw [brings_iff hs]
  cases hsaw : t.before.idleSawData with
  | true =>
    -- the flag of IDLE is set since it reported something: it does not read on
    have hdone : t.before.idleDone = true := h.flagged _ hidle hsaw
    have hstop : idle.stopping (t.before.idleEnv t.env) = true := by
      simp [ImapIdle.stopping, idleEnv, wake, hdone]
    have hkept : leaves t = false := by simp [leaves, hsaw]
    refine iff_of_true (by simp [LeavesBehindUpdate, hkept]) fun _ hgo => ?_
    rw [hstop] at hgo
    exact absurd hgo (by decide)
  | false =>
    have hleaves : leaves t = true := by simp [leaves, hsaw, haft]
    rw [LeavesBehindUpdate, hevent]
    constructor
    · intro hne
      refine hiff.mp fun event' he => ?_
      obtain rfl := ImapIdleYield.event.inj (CoroutineState.yielded.inj he)
      exact hne hleaves
    · intro hbrings _
      exact hiff.mpr hbrings event rfl

theorem leaves_step [Encoder IdleDone] [Base64Codec] [TryFrom String Mailbox]
    (hr : Resumed t.before t.frag t.env t.arg t.out t.after t.fragAfter t.log)
    (hready : t.before.state.Ready t.due) (hans : t.due.answeredBy t.arg = true)
    (h : Listens es t.due t.before) :
    (LeavesBehindUpdate es t ↔ Brings t) ∧
      ∀ y, t.out = .yielded y → Listens (es ++ [t]) y.request t.after := by
  have hstays : (t.after.idleSawData = true → t.before.idleSawData = true) → Brings t →
      (LeavesBehindUpdate es t ↔ Brings t) := by
    intro hkept hbrings
    refine iff_of_true (fun hleaves => ?_) hbrings
    rw [leaves_eq_false hkept] at hleaves
    exact absurd hleaves (by decide)
  generalize ha : t.arg = arg, ho : t.out = out, haft : t.after = after,
    hfr : t.fragAfter = fragAfter, hlog : t.log = log at hr
  cases hr with
  | @goesOn send send' _ _ _ hs hr =>
    refine ⟨hstays (by rw [haft]; exact fun hsaw => hsaw) (brings_of_not_idle (idle?_command hs).1), ?_⟩
    intro y _
    have hnone : (t.before.state.withCommand send').idle? = none := by
      cases hstate : t.before.state <;> simp_all [State.command?, State.withCommand, State.idle?]
    exact ⟨by simp [hnone], by simp [hnone]⟩
  | fails hs hr hout =>
    exact ⟨hstays (by rw [haft]; exact fun hsaw => hsaw) (brings_of_not_idle (idle?_command hs).1),
      by simp⟩
  | succeeds hs hr hout =>
    have hforgets := (answered_ensues ‹_› : Ensues (t.before.wake t.env) t.env _).forgets
    exact ⟨hstays (by rw [haft]; exact hforgets.kept) (brings_of_not_idle (idle?_command hs).1),
      fun y hy => hforgets.listens (answered_ensues _).starts hy⟩
  | proceeds hs =>
    have hforgets := (proceed_continues : Continues (t.before.wake t.env) t.env _).forgets
    have hnone : t.before.state.idle? = none := by
      cases hstate : t.before.state <;> simp_all [State.isBare, State.idle?]
    exact ⟨hstays (by rw [haft]; exact hforgets.kept) (brings_of_not_idle hnone),
      fun y hy => hforgets.listens proceed_continues.starts hy⟩
  | @idles idle _ _ _ _ hs hr =>
    subst ha hlog
    rw [hs] at hready
    have hidle : idle ∈ t.before.state.idle? := by rw [hs]; rfl
    have hbrings := (ImapIdle.event_ne_empty_iff hr hready hans).mp fun event he =>
      (ImapIdle.ofYield_ne_event (CoroutineState.yielded.inj he)).elim
    refine ⟨hstays (by rw [haft]; exact fun hsaw => hsaw) ((brings_iff hs).mpr hbrings), fun z hz => ?_⟩
    obtain rfl := CoroutineState.yielded.inj hz
    have hholds := idle_holds hr hready hans (h.holds _ hidle)
    rw [← ofYield_request] at hholds
    refine ⟨fun idle hin hsaw => ?_, fun idle hin => ?_⟩
    · exact Bool.or_eq_true_iff.mpr (.inl (h.flagged _ hidle hsaw))
    · obtain rfl := Option.some.inj hin
      exact hholds
  | @sees idle idle' event tag _ _ hs hr htag =>
    subst ha hlog
    rw [hs] at hready
    refine ⟨leaves_seen hs hr hready hans h (by rw [haft]), fun z _ => ⟨fun _ _ _ => rfl, ?_⟩⟩
    intro idle hin
    obtain rfl := Option.some.inj hin
    trivial
  | idleFails hs hr =>
    subst ha hlog
    rw [hs] at hready
    have hbrings := (ImapIdle.event_ne_empty_iff hr hready hans).mp (by simp)
    exact ⟨hstays (by rw [haft]; exact fun hsaw => hsaw) ((brings_iff hs).mpr hbrings), by simp⟩
  | idleEnds hs hr =>
    subst ha hlog
    rw [hs] at hready
    have hbrings := (ImapIdle.event_ne_empty_iff hr hready hans).mp (by simp)
    have hforgets := (idled_continues : Continues (t.before.wake t.env) t.env _).forgets
    exact ⟨hstays (by rw [haft]; exact hforgets.kept) ((brings_iff hs).mpr hbrings),
      fun y hy => hforgets.listens idled_continues.starts hy⟩

end Step

/-- In a run of the watcher, IDLE is always left behind a data or status response exactly
when every read that is taken while IDLE reads completes one. -/
theorem leaves_iff [Fragmentizer F] [TryFrom Bytes Tag] [Encoder Command] [Encoder IdleDone]
    [LawfulEncoder Command] [LawfulEncoder IdleDone] [Base64Codec] [TryFrom String Mailbox]
    {capability : List Capability} {mailbox : Mailbox} {opts : ImapMailboxWatchOptions} {f : F}
    {es : List (Step F)} {b : Config ImapMailboxWatch F}
    (h : imapMailboxWatch.Runs (.new capability mailbox opts) f es b) :
    Always LeavesBehindUpdate es ↔ ∀ t ∈ es, Brings t := by
  refine Run.always_iff (P := fun es a => ReadyConfig a ∧
    ∀ due, a.due = some due → Listens es due a.state) ?_ ?_ h
  · have hnone : (new capability mailbox opts).state.idle? = none := by
      simp only [new]
      split <;> rfl
    exact ⟨start_ready capability mailbox opts f, fun due _ => ⟨by simp [Coroutine.start, hnone],
      by simp [Coroutine.start, hnone]⟩⟩
  · intro es a t b hx hstep
    obtain ⟨ha, hlistens⟩ := hx
    obtain ⟨⟨hr, hready, hans⟩, -, -, hb⟩ := step_resumed ha hstep
    obtain ⟨due, arg, env, hdue, -, rfl, rfl⟩ := hstep
    obtain ⟨hiff, hgoesOn⟩ := leaves_step hr hready hans (hlistens due hdue)
    refine ⟨hiff, fun _ => ⟨hb, fun due' hd => ?_⟩⟩
    generalize imapMailboxWatch.turn a due arg env = t at *
    obtain ⟨y, ho, rfl⟩ := Coroutine.finish_due hd
    exact hgoesOn y ho

end ImapMailboxWatch

/-- Event batches follow the responses, in IDLE and for the watcher that it wakes, exactly
when no read that is taken while IDLE reads ends without completing one. -/
theorem event_batches_iff {F : Type} [Fragmentizer F] [TryFrom Bytes Tag] [Encoder Command]
    [Encoder IdleDone] [LawfulEncoder Command] [LawfulEncoder IdleDone] [Base64Codec]
    [TryFrom String Mailbox] :
    (∀ (opts : ImapIdleOptions) (f : F) (es : List (ImapIdle.Step F)) (b : Config ImapIdle F),
      imapIdle.Runs (.new opts) f es b →
        ((∀ t ∈ es, ∀ event, t.out = .yielded (.event event) → event ≠ empty) ↔
          ∀ t ∈ es, ImapIdle.Brings t)) ∧
    ∀ (capability : List Capability) (mailbox : Mailbox) (opts : ImapMailboxWatchOptions) (f : F)
      (es : List (ImapMailboxWatch.Step F)) (b : Config ImapMailboxWatch F),
      imapMailboxWatch.Runs (.new capability mailbox opts) f es b →
        (Always ImapMailboxWatch.LeavesBehindUpdate es ↔ ∀ t ∈ es, ImapMailboxWatch.Brings t) :=
  ⟨fun _ _ _ _ hrun => ImapIdle.events_nonempty_iff hrun,
    fun _ _ _ _ _ _ hrun => ImapMailboxWatch.leaves_iff hrun⟩

section Concrete

open Concrete ImapIdle

def playReading (read : String) :=
  playIdling [idling none, idling (some (ascii "A1")), idling none,
    idling (some (ascii "+ idling\r\n")), idling (some (ascii read))]

theorem event_batches_exists : ∃ es b, playReading "* 5 EXISTS\r\n* 5 EX" = some (es, b) ∧
    es.any reports = true ∧
      ∀ t ∈ es, ∀ event, t.out = .yielded (.event event) → event ≠ empty := by
  have hrun : (playReading "* 5 EXISTS\r\n* 5 EX").any
      (fun r => decide (r.1.any reports = true ∧ ∀ t ∈ r.1, Brings t)) = true := by decide +kernel
  obtain ⟨⟨es, b⟩, hplay, hdec⟩ := (Option.any_eq_true _ _).mp hrun
  obtain ⟨hreports, hbrings⟩ := of_decide_eq_true hdec
  have hiff := event_batches_iff.1 _ _ es b (Coroutine.play_run _ hplay)
  exact ⟨es, b, hplay, hreports, hiff.mpr hbrings⟩

theorem event_batches_partial_line :
    ¬ ((∀ (es : List (ImapIdle.Step (LineFragmentizer (decodeTable idleMessages))))
          (b : Config ImapIdle (LineFragmentizer (decodeTable idleMessages))),
          imapIdle.Runs (.new ⟨none⟩) LineFragmentizer.empty es b →
            ∀ t ∈ es, ∀ event, t.out = .yielded (.event event) → event ≠ empty) ∧
      ∀ (es : List (ImapMailboxWatch.Step (LineFragmentizer (decodeTable idleMessages))))
        (b : Config ImapMailboxWatch (LineFragmentizer (decodeTable idleMessages))),
        imapMailboxWatch.Runs (.new [] .inbox ⟨none, false⟩) LineFragmentizer.empty es b →
          Always ImapMailboxWatch.LeavesBehindUpdate es) := by
  intro h
  have hrun : (playReading "* 5 EX").any
      (fun r => decide (∃ t ∈ r.1, reports t = true ∧ report t = empty)) = true := by decide +kernel
  obtain ⟨⟨es, b⟩, hplay, hdec⟩ := (Option.any_eq_true _ _).mp hrun
  obtain ⟨t, ht, hreports, hempty⟩ := of_decide_eq_true hdec
  unfold reports at hreports
  split at hreports
  · rename_i event hout
    rw [report, hout] at hempty
    exact h.1 es b (Coroutine.play_run _ hplay) t ht event hout hempty
  · simp at hreports

end Concrete
end IoImap
