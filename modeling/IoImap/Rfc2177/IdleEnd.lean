import IoImap.Rfc2177.IdleExchanges
import IoImap.Rfc2177.IdleOctets

/-!
# The end of the session while idling

A BYE and the completion of IDLE end its exchange, and a BYE that of DONE. The reading
loop has no use for either: it keeps a BYE in a field that nothing looks at, and passes
over every completion.
-/

namespace IoImap
open Fragmentizer ServerMessage Transition

namespace ImapIdle

variable {F : Type}

/-- The tag of IDLE, until DONE is written. -/
def awaitedTag? (s : ImapIdle) : Option Tag :=
  match s.state with
  | .idle send => send.tag?
  | .read tag => some tag
  | .done _ => none

def EndsWith (body : StatusBody) (out : ImapIdleResult) : Prop :=
  match body.kind with
  | .ok => ∃ r, out = .complete r
  | .no => out = .complete (.error (.no body.text))
  | .bad => out = .complete (.error (.bad body.text))

/-- A BYE that is decoded ends the run and is reported, and so does a completion of IDLE
in front of DONE. -/
structure ReportsEnd (t : Step F) : Prop where
  bye : ∀ bye, lastSome bye? t.completed = some bye →
    t.out = .complete (.error (.bye bye.text))
  completion : lastSome bye? t.completed = none → ∀ tag ∈ t.before.awaitedTag?, ∀ tagged,
    lastSome (·.ownTagged? tag) t.completed = some tagged → EndsWith tagged.body t.out

/-- A message that fails a read in this state. -/
def refuses (s : ImapIdle) (m : ServerMessage) : Bool :=
  match s.state with
  | .read _ => (refusal? m).isSome
  | _ => m.refusal?.isSome

section Condition

variable [Fragmentizer F]

/-- The messages of a read up to the first one that fails it. -/
def heeded (t : Step F) : List ServerMessage := t.received.takeWhile (!t.before.refuses ·)

def Disturbed (t : Step F) : Prop := ∃ m ∈ t.received, t.before.refuses m = true

/-- Neither a BYE nor the rejection of IDLE is heeded. -/
def BringsNoEnd (t : Step F) : Prop :=
  lastSome bye? (heeded t) = none ∧
    ∀ tag ∈ t.before.awaitedTag?, ∀ tagged ∈ lastSome (·.ownTagged? tag) (heeded t),
      tagged.body.kind = .ok

/-- An exchange is told of the end by a read in which nothing fails, and the reading loop
is told neither of a BYE nor of a completion. -/
def EndHeard (t : Step F) : Prop :=
  match t.before.state with
  | .read tag => t.before.stopping t.env = false → BringsNoEnd t ∧
      ((lastSome (·.ownTagged? tag) (heeded t)).isSome → Disturbed t)
  | _ => Disturbed t → BringsNoEnd t

instance (t : Step F) : Decidable (Disturbed t) :=
  inferInstanceAs (Decidable (∃ m ∈ t.received, _))

instance (t : Step F) : Decidable (BringsNoEnd t) :=
  inferInstanceAs (Decidable (lastSome bye? (heeded t) = none ∧ ∀ tag ∈ t.before.awaitedTag?,
    ∀ tagged ∈ lastSome (·.ownTagged? tag) (heeded t), tagged.body.kind = .ok))

instance (t : Step F) : Decidable (EndHeard t) :=
  match h : t.before.state with
  | .read tag =>
    decidable_of_iff (t.before.stopping t.env = false → BringsNoEnd t ∧
      ((lastSome (·.ownTagged? tag) (heeded t)).isSome → Disturbed t)) (by rw [EndHeard, h])
  | .idle _ => decidable_of_iff (Disturbed t → BringsNoEnd t) (by rw [EndHeard, h])
  | .done _ => decidable_of_iff (Disturbed t → BringsNoEnd t) (by rw [EndHeard, h])

end Condition

/-! ### What is decoded -/

section Decoding

variable {t : Step F}

theorem bye?_of_error {m : ServerMessage} {err : DecodeMessageError} (h : m.decoded = .error err) :
    m.bye? = none := by
  simp [bye?, h]

theorem ownTagged?_of_error {m : ServerMessage} {err : DecodeMessageError}
    (h : m.decoded = .error err) (tag : Tag) : m.ownTagged? tag = none := by
  simp [ownTagged?, h]

theorem decoded_of_refuses {s : ImapIdle} {m : ServerMessage} (h : s.refuses m = true) :
    ∃ err, m.decoded = .error err := by
  obtain ⟨bytes, e | r⟩ := m
  · exact ⟨e, rfl⟩
  · unfold refuses at h
    split at h
    · simp [refusal?] at h
    · simp [ServerMessage.refusal?] at h

theorem reportsEnd_silent (hbye : lastSome bye? t.completed = none)
    (hown : ∀ tag ∈ t.before.awaitedTag?, lastSome (·.ownTagged? tag) t.completed = none) :
    ReportsEnd t := by
  refine ⟨fun bye hb => ?_, fun _ tag htag tagged ht => ?_⟩
  · simp [hbye] at hb
  · simp [hown tag htag] at ht

/-- A resume that does not end the run has no end to report. -/
theorem reportsEnd_ongoing (h : ∀ r, t.out ≠ .complete r) : ReportsEnd t ↔
    lastSome bye? t.completed = none ∧
      ∀ tag ∈ t.before.awaitedTag?, lastSome (·.ownTagged? tag) t.completed = none := by
  constructor
  · intro hreports
    have hbye : lastSome bye? t.completed = none := by
      rw [Option.eq_none_iff_forall_ne_some]
      intro bye hb
      exact absurd (hreports.bye bye hb) (h _)
    refine ⟨hbye, fun tag htag => ?_⟩
    rw [Option.eq_none_iff_forall_ne_some]
    intro tagged ht
    have hends := hreports.completion hbye tag htag tagged ht
    unfold EndsWith at hends
    split at hends
    · obtain ⟨r, hr⟩ := hends
      exact absurd hr (h r)
    · exact absurd hends (h _)
    · exact absurd hends (h _)
  · intro hnone
    exact reportsEnd_silent hnone.1 hnone.2

theorem reportsEnd_unread (h : t.log = []) : ReportsEnd t := by
  apply reportsEnd_silent <;> simp [Turn.completed_silent h]

variable [Fragmentizer F]

theorem heeded_undisturbed (h : ¬ Disturbed t) : heeded t = t.received := by
  rw [heeded, List.takeWhile_eq_self_iff]
  intro m hm
  simp only [Bool.not_eq_true', Bool.eq_false_iff]
  exact fun hr => h ⟨m, hm, hr⟩

theorem heeded_refused {pre post : List ServerMessage} {m : ServerMessage}
    (hms : t.received = pre ++ m :: post) (hpre : ∀ x ∈ pre, t.before.refuses x = false)
    (hm : t.before.refuses m = true) : heeded t = pre := by
  rw [heeded, hms, List.takeWhile_append_of_pos (by simpa using hpre), List.takeWhile_cons_of_neg
    (by simp [hm]), List.append_nil]

theorem lastSome_refused {pre post : List ServerMessage} {m : ServerMessage}
    (hms : t.received = pre ++ m :: post) (hpre : ∀ x ∈ pre, t.before.refuses x = false)
    (hm : t.before.refuses m = true) (hdone : t.completed = pre ++ [m]) :
    lastSome bye? t.completed = lastSome bye? (heeded t) ∧
      ∀ tag, lastSome (·.ownTagged? tag) t.completed = lastSome (·.ownTagged? tag) (heeded t) := by
  obtain ⟨err, herr⟩ := decoded_of_refuses hm
  rw [hdone, heeded_refused hms hpre hm]
  constructor
  · rw [lastSome_concat, bye?_of_error herr, Option.none_or]
  · intro tag
    rw [lastSome_concat, ownTagged?_of_error herr, Option.none_or]

/-- A read that fails reports the end exactly when it is told of none but a tagged OK. -/
theorem reportsEnd_refused {pre post : List ServerMessage} {m : ServerMessage} {err : ImapIdleError}
    (hms : t.received = pre ++ m :: post) (hpre : ∀ x ∈ pre, t.before.refuses x = false)
    (hm : t.before.refuses m = true) (hdone : t.completed = pre ++ [m])
    (hout : t.out = .complete (.error err)) (hbye : ∀ text, err ≠ .bye text)
    (hno : ∀ text, err ≠ .no text) (hbad : ∀ text, err ≠ .bad text) :
    ReportsEnd t ↔ BringsNoEnd t := by
  obtain ⟨hlast, hown⟩ := lastSome_refused hms hpre hm hdone
  constructor
  · intro h
    have hnone : lastSome bye? (heeded t) = none := by
      cases hb : lastSome bye? (heeded t) with
      | none => rfl
      | some bye =>
        have hreport := h.bye bye (hlast.trans hb)
        rw [hout] at hreport
        exact absurd (Except.error.inj (CoroutineState.complete.inj hreport)) (hbye bye.text)
    refine ⟨hnone, fun tag htag tagged ht => ?_⟩
    have hends := h.completion (hlast.trans hnone) tag htag tagged ((hown tag).trans ht)
    unfold EndsWith at hends
    split at hends
    · assumption
    · rw [hout] at hends
      exact absurd (Except.error.inj (CoroutineState.complete.inj hends)) (hno _)
    · rw [hout] at hends
      exact absurd (Except.error.inj (CoroutineState.complete.inj hends)) (hbad _)
  · intro h
    obtain ⟨hnone, hkind⟩ := h
    refine ⟨fun bye hb => ?_, fun _ tag htag tagged ht => ?_⟩
    · rw [hlast, hnone] at hb
      simp at hb
    · rw [EndsWith, hkind tag htag tagged ((hown tag).symm.trans ht)]
      exact ⟨_, hout⟩

theorem not_disturbed_unread (h : t.received = []) : ¬ Disturbed t := by
  intro hdisturbed
  obtain ⟨m, hm, -⟩ := hdisturbed
  simp [h] at hm

theorem bringsNoEnd_unread (h : t.received = []) : BringsNoEnd t := by
  simp [BringsNoEnd, heeded, h]

end Decoding

/-! ### The exchanges -/

section Exchanges

variable {t : Step F}

theorem refuses_exchange {s : ImapIdle} (h : ∀ tag, s.state ≠ .read tag) (m : ServerMessage) :
    s.refuses m = m.refusal?.isSome := by
  unfold refuses
  split
  · rename_i tag hs
    exact absurd hs (h tag)
  · rfl

variable [Fragmentizer F] {M : Type} {send send' : ImapSend M} {sent : Sent M}
  {past : List ServerMessage} {f' : F}

theorem endHeard_exchange (h : ∀ tag, t.before.state ≠ .read tag) :
    EndHeard t ↔ (Disturbed t → BringsNoEnd t) := by
  unfold EndHeard
  split
  · rename_i tag hs
    exact absurd hs (h tag)
  · rfl

theorem not_disturbed_accepted (h : ∀ tag, t.before.state ≠ .read tag)
    (hms : ImapSend.Accepted t.received) : ¬ Disturbed t := by
  intro hdisturbed
  obtain ⟨m, hm, hr⟩ := hdisturbed
  rw [refuses_exchange h, hms m hm] at hr
  exact absurd hr (by decide)

theorem exchange_goesOn {y : ImapYield} (h : ∀ tag, t.before.state ≠ .read tag)
    (htag : ∀ tag ∈ t.before.awaitedTag?, tag = sent.tag)
    (hrec : ImapSend.Receives t)
    (hr : send.Listens sent past t.frag t.arg (.yielded y) send' f' t.log) :
    ReportsEnd t ∧ EndHeard t := by
  rw [endHeard_exchange h]
  generalize ha : t.arg = arg, hlog : t.log = log at hr
  cases hr with
  | waits =>
    have hnone : t.received = [] := ImapSend.received_unread (.inr ha)
    exact ⟨reportsEnd_unread hlog, fun hd => absurd hd (not_disturbed_unread hnone)⟩
  | readsOn hne hms hsig =>
    have hparts := fun m hm => signal?_eq_none.mp (lastSome_eq_none.mp hsig m hm)
    constructor
    · apply reportsEnd_silent
      · rw [Turn.completed_read hlog]
        exact lastSome_eq_none.mpr fun m hm => (hparts m hm).2.1
      · intro tag ht
        rw [Turn.completed_read hlog, htag tag ht]
        exact lastSome_eq_none.mpr fun m hm => (hparts m hm).1
    · intro hd
      exact absurd hd (not_disturbed_accepted h (by rw [hrec _ ha hne]; exact hms))

/-- An exchange that fails reports the end exactly when it is heard. -/
theorem exchange_fails {err : ImapSendError} (h : ∀ tag, t.before.state ≠ .read tag)
    (hrec : ImapSend.Receives t)
    (hr : send.Listens sent past t.frag t.arg (.complete (.error err)) send' f' t.log)
    (hout : t.out = .complete (.error (.send err))) : ReportsEnd t ↔ EndHeard t := by
  rw [endHeard_exchange h]
  generalize ha : t.arg = arg, hlog : t.log = log at hr
  cases hr with
  | eof =>
    have hnone : t.received = [] := by
      rw [Turn.received, Turn.answer, ha, Request.octets_eof]
      rfl
    exact iff_of_true (reportsEnd_unread hlog) fun hd => absurd hd (not_disturbed_unread hnone)
  | @refused data _ pre post m _ hne hms hpre hm =>
    have hreceived := hrec _ ha hne
    rw [hms] at hreceived
    have hrefuses : t.before.refuses m = true := by rw [refuses_exchange h, hm]; rfl
    have hpasses : ∀ x ∈ pre, t.before.refuses x = false := by
      intro x hx
      rw [refuses_exchange h, hpre x hx]
      rfl
    have hdisturbed : Disturbed t := ⟨m, by rw [hreceived]; simp, hrefuses⟩
    rw [reportsEnd_refused hreceived hpasses hrefuses (Turn.completed_read hlog) hout
      (by simp) (by simp) (by simp)]
    exact ⟨fun hnone _ => hnone, fun hnone => hnone hdisturbed⟩

theorem exchange_over {out : ImapSendOutput M} (h : ∀ tag, t.before.state ≠ .read tag)
    (hrec : ImapSend.Receives t)
    (hr : send.Listens sent past t.frag t.arg (.complete (.ok out)) send' f' t.log) :
    EndHeard t ∧ out.bye = lastSome bye? t.completed ∧
      out.tagged = lastSome (·.ownTagged? sent.tag) t.completed := by
  obtain ⟨data, ha, hne, hms, -, hout, -, hlog⟩ := listens_output hr
  rw [endHeard_exchange h, hout, Turn.completed_read hlog]
  have hundisturbed : ¬ Disturbed t := not_disturbed_accepted h (by rw [hrec _ ha hne]; exact hms)
  exact ⟨fun hd => absurd hd hundisturbed, rfl, rfl⟩

omit [Fragmentizer F] in
theorem idle_reports {out : ImapSendOutput Command} {tag : Tag}
    (htag : ∀ tag' ∈ t.before.awaitedTag?, tag' = tag)
    (hbye : out.bye = lastSome bye? t.completed)
    (htagged : out.tagged = lastSome (·.ownTagged? tag) t.completed)
    (hout : ∀ err, idleVerdict out = some err → t.out = .complete (.error err)) : ReportsEnd t := by
  constructor
  · intro bye hb
    have hsome : out.bye = some bye := hbye.trans hb
    exact hout _ (by simp [idleVerdict, hsome])
  · intro hnone tag' htag' tagged ht
    obtain rfl := htag tag' htag'
    have hbye' : out.bye = none := hbye.trans hnone
    have hsome : out.tagged = some tagged := htagged.trans ht
    have hverdict := hout (turnedDown tagged.body) (by simp [idleVerdict, hbye', hsome])
    rw [hverdict, EndsWith]
    cases hkind : tagged.body.kind with
    | ok => exact ⟨_, rfl⟩
    | no => simp [turnedDown, hkind]
    | bad => simp [turnedDown, hkind]

omit [Fragmentizer F] in
theorem done_reports {out : ImapSendOutput IdleDone} {expired : Bool}
    (hdone : t.before.awaitedTag? = none) (hbye : out.bye = lastSome bye? t.completed)
    (hout : ∀ r, doneVerdict out expired = some r → t.out = .complete r) : ReportsEnd t := by
  constructor
  · intro bye hb
    have hsome : out.bye = some bye := hbye.trans hb
    exact hout _ (by simp [doneVerdict, hsome])
  · intro _ tag htag
    simp [hdone] at htag

end Exchanges

/-! ### The reading loop -/

section Reading

theorem refusal?_not_end {m : ServerMessage} {err : ImapIdleError} (h : refusal? m = some err) :
    (∀ text, err ≠ .bye text) ∧ (∀ text, err ≠ .no text) ∧ ∀ text, err ≠ .bad text := by
  obtain ⟨bytes, e | r⟩ := m
  · cases e <;> simp only [refusal?, Option.some.injEq] at h <;> subst h <;> simp
  · simp [refusal?] at h

variable [Fragmentizer F] [Encoder IdleDone] {t : Step F}

theorem reading_reports {tag : Tag} (hs : t.before.state = .read tag)
    (hr : Resumed t.before t.frag t.env t.arg t.out t.after t.fragAfter t.log)
    (hrec : ImapSend.Receives t) :
    ReportsEnd t ↔ EndHeard t := by
  have hheard : EndHeard t ↔ (t.before.stopping t.env = false → BringsNoEnd t ∧
      ((lastSome (·.ownTagged? tag) (heeded t)).isSome → Disturbed t)) := by
    unfold EndHeard
    rw [hs]
  have hawaited : t.before.awaitedTag? = some tag := by rw [awaitedTag?, hs]
  have hrefuses : ∀ m, t.before.refuses m = (refusal? m).isSome := by
    intro m
    rw [refuses, hs]
  have hunread : t.received = [] → t.before.stopping t.env = false → BringsNoEnd t ∧
      ((lastSome (·.ownTagged? tag) (heeded t)).isSome → Disturbed t) := by
    intro hnone _
    exact ⟨bringsNoEnd_unread hnone, by simp [heeded, hnone]⟩
  rw [hheard]
  generalize ha : t.arg = arg, ho : t.out = out, haft : t.after = after,
    hfr : t.fragAfter = fragAfter, hlog : t.log = log at hr
  cases hr with
  | stops _ hstop =>
    refine iff_of_true (reportsEnd_unread hlog) fun hgo => ?_
    rw [hstop] at hgo
    exact absurd hgo (by decide)
  | waits => exact iff_of_true (reportsEnd_unread hlog) (hunread (ImapSend.received_unread (.inr ha)))
  | eof =>
    have hnone : t.received = [] := by
      rw [Turn.received, Turn.answer, ha, Request.octets_eof]
      rfl
    exact iff_of_true (reportsEnd_unread hlog) (hunread hnone)
  | @refused _ data pre post m err _ _ _ hgo hne hms hpre hm =>
    have hreceived := hrec data ha hne
    rw [hms] at hreceived
    have hrefused : t.before.refuses m = true := by rw [hrefuses, hm]; rfl
    have hpasses : ∀ x ∈ pre, t.before.refuses x = false := by
      intro x hx
      rw [hrefuses, hpre x hx]
      rfl
    have hdisturbed : Disturbed t := ⟨m, by rw [hreceived]; simp, hrefused⟩
    obtain ⟨hbye, hno, hbad⟩ := refusal?_not_end hm
    rw [reportsEnd_refused hreceived hpasses hrefused (Turn.completed_read hlog) ho hbye hno hbad]
    exact ⟨fun hnone _ => ⟨hnone, fun _ => hdisturbed⟩, fun h => (h hgo).1⟩
  | @hears _ data _ hgo hne hms =>
    have hreceived := hrec data ha hne
    have hcompleted : t.completed = t.received := by rw [Turn.completed_read hlog, hreceived]
    have hundisturbed : ¬ Disturbed t := by
      intro hdisturbed
      obtain ⟨m, hm, hr⟩ := hdisturbed
      rw [hreceived] at hm
      rw [hrefuses, hms m hm] at hr
      exact absurd hr (by decide)
    rw [BringsNoEnd, heeded_undisturbed hundisturbed, ← hcompleted, hawaited]
    rw [reportsEnd_ongoing (by simp [ho]), hawaited]
    constructor
    · intro h _
      obtain ⟨hbye, hown⟩ := h
      refine ⟨⟨hbye, fun tag' htag' tagged ht => ?_⟩, by simp [hown tag rfl]⟩
      simp [hown tag' htag'] at ht
    · intro h
      obtain ⟨⟨hbye, -⟩, hown⟩ := h hgo
      refine ⟨hbye, fun tag' htag' => ?_⟩
      obtain rfl := Option.some.inj htag'
      exact Option.not_isSome_iff_eq_none.mp fun hsome => hundisturbed (hown hsome)
  | idles hst => simp [hs] at hst
  | idleEnds hst => simp [hs] at hst
  | reports hst => simp [hs] at hst
  | enters hst => simp [hs] at hst
  | turnsBack hst => simp [hs] at hst
  | finishes hst => simp [hs] at hst
  | ends hst => simp [hs] at hst
  | renews hst => simp [hs] at hst

end Reading

section Steps

variable [Fragmentizer F] {t : Step F}

theorem unread_exchange (h : ∀ tag, t.before.state ≠ .read tag) (hlog : t.log = [])
    (hreceived : t.received = []) : ReportsEnd t ↔ EndHeard t := by
  refine iff_of_true (reportsEnd_unread hlog) ?_
  rw [endHeard_exchange h]
  exact fun hd => absurd hd (not_disturbed_unread hreceived)

/-- What a resume of an exchange of IDLE that listens rests on. -/
structure InIdle (t : Step F) (tag : Tag) : Prop where
  unread : ∀ tag, t.before.state ≠ .read tag
  awaited : ∀ tag' ∈ t.before.awaitedTag?, tag' = tag
  given : ∀ data, t.arg = some data → data ≠ [] → t.received = messages (enqueueBytes t.frag data)

theorem inIdle {send : ImapSend Command} {tag : Tag} {past : List ServerMessage}
    (hs : t.before.state = .idle send) (hl : send.Listening (idleSent tag) past)
    (hready : t.before.Ready t.due) (hans : t.due.answeredBy t.arg = true) : InIdle t tag := by
  have hex := hready.exchange
  simp only [hs] at hex
  refine ⟨by simp [hs], fun tag' htag' => ?_, listening_received hl hex.2 hans⟩
  have htag : t.before.awaitedTag? = some tag := by
    simp only [awaitedTag?, hs, ImapSend.tag?, hl.state]
    rfl
  exact Option.some.inj (htag'.symm.trans htag)

structure InDone (t : Step F) : Prop where
  unread : ∀ tag, t.before.state ≠ .read tag
  awaited : t.before.awaitedTag? = none
  given : ∀ data, t.arg = some data → data ≠ [] → t.received = messages (enqueueBytes t.frag data)

theorem inDone_of_listening {send : ImapSend IdleDone} {tag : Tag} {past : List ServerMessage}
    (hs : t.before.state = .done send) (hl : send.Listening (doneSent tag) past)
    (hready : t.before.Ready t.due) (hans : t.due.answeredBy t.arg = true) : InDone t := by
  exact ⟨by simp [hs], by rw [awaitedTag?, hs], done_received hs hl hready hans⟩

/-- The exchange of IDLE is over: the end is heard, and reported when it is one. -/
theorem idle_over {send send' : ImapSend Command} {tag : Tag} {past : List ServerMessage}
    {out : ImapSendOutput Command} {f' : F} (h : InIdle t tag)
    (hr : send.Listens (idleSent tag) past t.frag t.arg (.complete (.ok out)) send' f' t.log)
    (hout : ∀ err, idleVerdict out = some err → t.out = .complete (.error err)) :
    ReportsEnd t ↔ EndHeard t := by
  obtain ⟨hheard, hbye, htagged⟩ := exchange_over h.unread h.given hr
  exact iff_of_true (idle_reports h.awaited hbye htagged hout) hheard

theorem done_over {send send' : ImapSend IdleDone} {tag : Tag} {past : List ServerMessage}
    {out : ImapSendOutput IdleDone} {f' : F} (expired : Bool) (h : InDone t)
    (hr : send.Listens (doneSent tag) past t.frag t.arg (.complete (.ok out)) send' f' t.log)
    (hout : ∀ r, doneVerdict out expired = some r → t.out = .complete r) :
    ReportsEnd t ↔ EndHeard t := by
  obtain ⟨hheard, hbye, -⟩ := exchange_over h.unread h.given hr
  exact iff_of_true (done_reports h.awaited hbye hout) hheard

theorem reportsEnd_iff [TryFrom Bytes Tag] [Encoder Command] [Encoder IdleDone]
    {a b : Config ImapIdle F} (h : Takes a t b) : ReportsEnd t ↔ EndHeard t := by
  have hready := h.plain.toReady
  have hans := h.answered
  have hc := h.conducted
  have hasked : t.before.state = .idle asked → t.due = .tag := by
    intro hs
    have hex := hready.exchange
    simp only [hs] at hex
    exact hex.2
  generalize ha : t.arg = arg, ho : t.out = out, haft : t.after = after,
    hfr : t.fragAfter = fragAfter, hlog : t.log = log at hc
  cases hc with
  | asks hs =>
    exact unread_exchange (by simp [hs]) hlog (ImapSend.received_unread (.inr ha))
  | misnamed hs =>
    exact unread_exchange (by simp [hs]) hlog
      (ImapSend.received_unread (.inl (by rw [hasked hs]; simp)))
  | writes hs =>
    exact unread_exchange (by simp [hs]) hlog
      (ImapSend.received_unread (.inl (by rw [hasked hs]; simp)))
  | idles hs hl hr =>
    subst ha hlog
    have hin := inIdle hs hl hready hans
    obtain ⟨hreports, hheard⟩ := exchange_goesOn hin.unread hin.awaited hin.given hr
    exact iff_of_true hreports hheard
  | idleFails hs hl hr =>
    subst ha hlog
    have hin := inIdle hs hl hready hans
    exact exchange_fails hin.unread hin.given hr ho
  | idleEnds hs hl hr hv =>
    subst ha hlog
    refine idle_over (inIdle hs hl hready hans) hr fun err herr => ?_
    rw [ho, Option.some.inj (hv.symm.trans herr)]
  | reports hs hl hr hv =>
    subst ha hlog
    exact idle_over (inIdle hs hl hready hans) hr (by simp [hv])
  | enters hs hl hr hv =>
    subst ha hlog
    exact idle_over (inIdle hs hl hready hans) hr (by simp [hv])
  | turnsBack hs hl hr hv =>
    subst ha hlog
    exact idle_over (inIdle hs hl hready hans) hr (by simp [hv])
  | reads hs hr =>
    have hex := hready.exchange
    simp only [hs] at hex
    exact reading_reports hs h.resumed (given_received hex hans)
  | finishes hs hl hr =>
    subst ha hlog
    have hin := inDone_of_listening hs hl hready hans
    obtain ⟨hreports, hheard⟩ :=
      exchange_goesOn hin.unread (by simp [hin.awaited]) hin.given hr
    exact iff_of_true hreports hheard
  | doneFails hs hl hr =>
    subst ha hlog
    have hin := inDone_of_listening hs hl hready hans
    exact exchange_fails hin.unread hin.given hr ho
  | doneEnds hs hl hr hv =>
    subst ha hlog
    refine done_over (t.before.expired t.env) (inDone_of_listening hs hl hready hans) hr fun r hr' => ?_
    rw [ho, Option.some.inj (hv.symm.trans hr')]
  | renews hs hl hr hv =>
    subst ha hlog
    exact done_over (t.before.expired t.env) (inDone_of_listening hs hl hready hans) hr (by simp [hv])

end Steps
end ImapIdle

open ImapIdle

/-- In a run of IDLE every BYE that is decoded ends the run and is reported, and every
completion of IDLE in front of DONE ends it, exactly when the exchanges hear of the end in
reads that do not fail and the reading loop hears of none. -/
theorem idle_end_iff {F : Type} [Fragmentizer F] [TryFrom Bytes Tag] [Encoder Command]
    [Encoder IdleDone] [LawfulEncoder Command] [LawfulEncoder IdleDone] [LawfulIdle]
    {opts : ImapIdleOptions} {f : F} {es : List (ImapIdle.Step F)} {b : Config ImapIdle F}
    (h : imapIdle.Runs (.new opts) f es b) :
    (∀ t ∈ es, ReportsEnd t) ↔ ∀ t ∈ es, EndHeard t := by
  have hiff : ∀ t ∈ es, (ReportsEnd t ↔ EndHeard t) := by
    refine Run.labels (I := fun a => ∀ due, a.due = some due → a.state.Plain due) ?_ ?_ h
    · intro due hdue
      obtain rfl : Request.nothing = due := Option.some.inj hdue
      exact new_plain opts
    · intro a t b ha hstep
      obtain ⟨htakes, hb⟩ := step_conducted ha hstep
      exact ⟨hb, reportsEnd_iff htakes⟩
  exact forall₂_congr hiff

section Concrete

open Concrete

def idleEndings : List (Bytes × Response) :=
  [(ascii "+ idling\r\n", .commandContinuationRequest (.basic "idling")),
    (ascii "* 5 EXISTS\r\n", .data (.exists 5)),
    (ascii "* BYE gone\r\n", .status (.bye ⟨none, "gone"⟩)),
    (ascii "A1 BAD over\r\n", .status (.tagged ⟨⟨ascii "A1"⟩, ⟨.bad, none, "over"⟩⟩))]

def playEnding (args : List (Option Bytes × ImapIdleEnv)) :=
  imapIdle.play (Coroutine.start (.new ⟨none⟩)
    (LineFragmentizer.empty : LineFragmentizer (decodeTable idleEndings)))
    ([idling none, idling (some (ascii "A1")), idling none, idling (some (ascii "+ idling\r\n"))] ++ args)

theorem idle_end_bye : ∃ es b,
    playEnding [idling (some (ascii "* 5 EXISTS\r\n")), windingDown none, windingDown none,
        windingDown (some (ascii "* BYE gone\r\n"))] = some (es, b) ∧
      (∃ t ∈ es, lastSome bye? t.completed = some ⟨none, "gone"⟩) ∧ ∀ t ∈ es, ReportsEnd t := by
  have hrun : (playEnding [idling (some (ascii "* 5 EXISTS\r\n")), windingDown none,
      windingDown none, windingDown (some (ascii "* BYE gone\r\n"))]).any (fun r => decide
        ((∃ t ∈ r.1, lastSome bye? t.completed = some ⟨none, "gone"⟩) ∧
          ∀ t ∈ r.1, EndHeard t)) = true := by decide +kernel
  obtain ⟨⟨es, b⟩, hplay, hdec⟩ := (Option.any_eq_true _ _).mp hrun
  obtain ⟨hbye, hheard⟩ := of_decide_eq_true hdec
  have hiff := idle_end_iff (Coroutine.play_run _ hplay)
  exact ⟨es, b, hplay, hbye, hiff.mpr hheard⟩

/-- The BYE and the completion are read by the reading loop, and the run goes on. -/
theorem idle_end_missed :
    (¬ ∀ (es : List (ImapIdle.Step (LineFragmentizer (decodeTable idleEndings))))
        (b : Config ImapIdle (LineFragmentizer (decodeTable idleEndings))),
        imapIdle.Runs (.new ⟨none⟩) LineFragmentizer.empty es b → ∀ t ∈ es, ∀ bye,
          lastSome bye? t.completed = some bye → t.out = .complete (.error (.bye bye.text))) ∧
      ¬ ∀ (es : List (ImapIdle.Step (LineFragmentizer (decodeTable idleEndings))))
        (b : Config ImapIdle (LineFragmentizer (decodeTable idleEndings))),
        imapIdle.Runs (.new ⟨none⟩) LineFragmentizer.empty es b → ∀ t ∈ es,
          ∀ tag ∈ t.before.awaitedTag?, ∀ tagged,
            lastSome (·.ownTagged? tag) t.completed = some tagged → EndsWith tagged.body t.out := by
  constructor
  · intro h
    have hrun : (playEnding [idling (some (ascii "* BYE gone\r\n"))]).any (fun r => decide
        (∃ t ∈ r.1, (imapIdle.finish t).due.isSome = true ∧
          lastSome bye? t.completed = some ⟨none, "gone"⟩)) = true := by decide +kernel
    obtain ⟨⟨es, b⟩, hplay, hdec⟩ := (Option.any_eq_true _ _).mp hrun
    obtain ⟨t, ht, hgoes, hbye⟩ := of_decide_eq_true hdec
    rw [Coroutine.finish, h es b (Coroutine.play_run _ hplay) t ht _ hbye] at hgoes
    exact Bool.false_ne_true hgoes
  · intro h
    have hrun : (playEnding [idling (some (ascii "A1 BAD over\r\n"))]).any (fun r => decide
        (∃ t ∈ r.1, (imapIdle.finish t).due.isSome = true ∧
          t.before.awaitedTag? = some ⟨ascii "A1"⟩ ∧
          lastSome (·.ownTagged? ⟨ascii "A1"⟩) t.completed =
            some ⟨⟨ascii "A1"⟩, ⟨.bad, none, "over"⟩⟩)) = true := by decide +kernel
    obtain ⟨⟨es, b⟩, hplay, hdec⟩ := (Option.any_eq_true _ _).mp hrun
    obtain ⟨t, ht, hgoes, htag, htagged⟩ := of_decide_eq_true hdec
    have hends := h es b (Coroutine.play_run _ hplay) t ht _ htag _ htagged
    simp only [EndsWith] at hends
    rw [Coroutine.finish, hends] at hgoes
    exact Bool.false_ne_true hgoes

end Concrete
end IoImap
