import IoImap.Rfc2177.Idle

/-!
# What one resume of IDLE comes to

The cases of a resume, with everything each of them fixes: the answer, the state
and what the fragmentizer was made to do.
-/

namespace IoImap
open Fragmentizer ServerMessage

namespace ImapIdle

variable {F : Type}

/-! ### Reading -/

def refusal? (m : ServerMessage) : Option ImapIdleError :=
  match m.decoded with
  | .ok _ => none
  | .error .decodingFailure | .error .decodingRemainder => some (.decodingFailure m.bytes)
  | .error .messageTooLong => some (.messageTooLong m.bytes)
  | .error .messagePoisoned => some (.messageIsPoisoned m.bytes)

def absorb (s : ImapIdle) (m : ServerMessage) : ImapIdle :=
  { s with
    data := s.data ++ m.data?.toList
    untagged := s.untagged ++ m.untagged?.toList
    bye := m.bye?.or s.bye }

theorem accept_refuses : Refuses accept refusal? absorb := by
  constructor
  · intro s hx err h
    obtain ⟨bytes, decoded⟩ := hx
    rcases decoded with e | r
    · cases e <;> exact congrArg _ (Option.some.inj h)
    · simp [refusal?] at h
  · intro s hx h
    obtain ⟨bytes, decoded⟩ := hx
    rcases decoded with e | (cr | d | (u | t | b))
    case error => cases e <;> simp [refusal?] at h
    all_goals simp [accept, absorb, data?, untagged?, bye?]

theorem foldl_absorb (s : ImapIdle) (ms : List ServerMessage) :
    ms.foldl absorb s =
      { s with
        data := s.data ++ ms.filterMap data?
        untagged := s.untagged ++ ms.filterMap untagged?
        bye := (lastSome bye? ms).or s.bye } := by
  induction ms using List.reverseRecOn with
  | nil => simp
  | append_singleton ms m ih =>
    rw [List.foldl_append, ih]
    cases hd : m.data? <;> cases hu : m.untagged? <;> cases hb : m.bye? <;>
      simp [absorb, lastSome_concat, hd, hu, hb]

def Decoded (ms : List ServerMessage) : Prop := ∀ m ∈ ms, refusal? m = none

/-! ### Between two resumes -/

structure Ready (s : ImapIdle) (due : Request) : Prop where
  data : s.data = []
  untagged : s.untagged = []
  exchange : match s.state with
    | .idle send => send.Ready ∧ send.Awaits due
    | .read _ => due = .nothing ∨ due = .read
    | .done send => send.Ready ∧ send.Awaits due

theorem new_ready [Encoder Command] [LawfulEncoder Command] (opts : ImapIdleOptions) :
    (new opts).Ready .nothing :=
  have h : (ImapSend.command .idle).Initial := .command _
  ⟨rfl, rfl, h.ready, h.awaits⟩

def expired (s : ImapIdle) (env : ImapIdleEnv) : Bool := (s.startTimer env.start).timedOut env.check

/-- The resume finds that reading is over. -/
def stopping (s : ImapIdle) (env : ImapIdleEnv) : Bool := env.done || s.expired env

def enter (s : ImapIdle) (env : ImapIdleEnv) (state : State) : ImapIdle :=
  { s.startTimer env.start with state := state }

def doneWritten [Encoder IdleDone] (tag : Tag) : ImapSend IdleDone :=
  (ImapSend.new .idleDone tag).written ⟨.idleDone, tag⟩

def doneBytes [Encoder IdleDone] (tag : Tag) : Bytes :=
  (ImapSend.new IdleDone.idleDone tag).takeBuffer.1

/-! ### One resume -/

/-- What one resume comes to. Where the coroutine completes, the state it leaves
is not looked at any more. -/
inductive Resumed [Fragmentizer F] [Encoder IdleDone] (s : ImapIdle) (f : F) (env : ImapIdleEnv) :
    Option Bytes → ImapIdleResult → ImapIdle → F → List FragmentizerEvent → Prop where
  | idles {arg : Option Bytes} {send send' : ImapSend Command} {y : ImapYield} {f' : F}
      {events : List FragmentizerEvent} (hs : s.state = .idle send)
      (hr : send.Resumed f arg (.yielded y) send' f' events) :
      Resumed s f env arg (.yielded (.ofYield y)) (s.enter env (.idle send')) f' events
  | idleEnds {arg : Option Bytes} {send send' : ImapSend Command}
      {out : Except ImapSendError (ImapSendOutput Command)} {err : ImapIdleError} {s' : ImapIdle}
      {f' : F} {events : List FragmentizerEvent} (hs : s.state = .idle send)
      (hr : send.Resumed f arg (.complete out) send' f' events) :
      Resumed s f env arg (.complete (.error err)) s' f' events
  | reports {arg : Option Bytes} {send send' : ImapSend Command} {out : ImapSendOutput Command}
      {f' : F} {events : List FragmentizerEvent} (hs : s.state = .idle send)
      (hr : send.Resumed f arg (.complete (.ok out)) send' f' events)
      (hout : out.bye = none ∧ out.tagged = none ∧ out.continuationRequest.isSome)
      (hnews : out.data ≠ [] ∨ out.untagged ≠ []) :
      Resumed s f env arg (.yielded (.event ⟨out.untagged, out.data⟩))
        (s.enter env (.read out.tag)) f' events
  | enters {arg : Option Bytes} {send send' : ImapSend Command} {out : ImapSendOutput Command}
      {f' : F} {events : List FragmentizerEvent} (hs : s.state = .idle send)
      (hr : send.Resumed f arg (.complete (.ok out)) send' f' events)
      (hout : out.bye = none ∧ out.tagged = none ∧ out.continuationRequest.isSome)
      (hquiet : out.data = [] ∧ out.untagged = []) (hgo : s.stopping env = false) :
      Resumed s f env arg (.yielded .wantsRead) (s.enter env (.read out.tag)) f' events
  /-- The continuation came alone, and reading is over already. -/
  | turnsBack {arg : Option Bytes} {send send' : ImapSend Command} {out : ImapSendOutput Command}
      {f' : F} {events : List FragmentizerEvent} (hs : s.state = .idle send)
      (hr : send.Resumed f arg (.complete (.ok out)) send' f' events)
      (hout : out.bye = none ∧ out.tagged = none ∧ out.continuationRequest.isSome)
      (hquiet : out.data = [] ∧ out.untagged = []) (hstop : s.stopping env = true) :
      Resumed s f env arg (.yielded (.wantsWrite (doneBytes out.tag)))
        (s.enter env (.done (doneWritten out.tag))) f' events
  | stops {arg : Option Bytes} {tag : Tag} (hs : s.state = .read tag)
      (hstop : s.stopping env = true) :
      Resumed s f env arg (.yielded (.wantsWrite (doneBytes tag)))
        (s.enter env (.done (doneWritten tag))) f []
  | waits {tag : Tag} (hs : s.state = .read tag) (hgo : s.stopping env = false) :
      Resumed s f env none (.yielded .wantsRead) (s.enter env (.read tag)) f []
  | eof {tag : Tag} {s' : ImapIdle} (hs : s.state = .read tag) (hgo : s.stopping env = false) :
      Resumed s f env (some []) (.complete (.error .eof)) s' f []
  | refused {tag : Tag} {data : Bytes} {pre post : List ServerMessage} {m : ServerMessage}
      {err : ImapIdleError} {s' : ImapIdle} {f' : F} (hs : s.state = .read tag)
      (hgo : s.stopping env = false) (hne : data ≠ [])
      (hms : messages (enqueueBytes f data) = pre ++ m :: post) (hpre : Decoded pre)
      (hm : refusal? m = some err) :
      Resumed s f env (some data) (.complete (.error err)) s' f'
        (.fed data :: (pre ++ [m]).map .completed)
  | hears {tag : Tag} {data : Bytes} (hs : s.state = .read tag) (hgo : s.stopping env = false)
      (hne : data ≠ []) (hms : Decoded (messages (enqueueBytes f data))) :
      Resumed s f env (some data)
        (.yielded (.event ⟨(messages (enqueueBytes f data)).filterMap untagged?,
          (messages (enqueueBytes f data)).filterMap data?⟩))
        { s.enter env (.read tag) with
          bye := (lastSome bye? (messages (enqueueBytes f data))).or s.bye }
        (drained (enqueueBytes f data))
        (.fed data :: (messages (enqueueBytes f data)).map .completed)
  | finishes {arg : Option Bytes} {send send' : ImapSend IdleDone} {y : ImapYield} {f' : F}
      {events : List FragmentizerEvent} (hs : s.state = .done send)
      (hr : send.Resumed f arg (.yielded y) send' f' events) :
      Resumed s f env arg (.yielded (.ofYield y)) (s.enter env (.done send')) f' events
  | ends {arg : Option Bytes} {send send' : ImapSend IdleDone}
      {out : Except ImapSendError (ImapSendOutput IdleDone)} {r : Except ImapIdleError Unit}
      {s' : ImapIdle} {f' : F} {events : List FragmentizerEvent} (hs : s.state = .done send)
      (hr : send.Resumed f arg (.complete out) send' f' events)
      (hok : r = .ok () → s.expired env = false ∧ ∃ o t, out = .ok o ∧ o.bye = none ∧
        o.tagged = some t ∧ t.body.kind = .ok) :
      Resumed s f env arg (.complete r) s' f' events
  /-- It ends behind the refresh timer: a new IDLE begins. -/
  | renews {arg : Option Bytes} {send send' : ImapSend IdleDone} {out : ImapSendOutput IdleDone}
      {f' : F} {events : List FragmentizerEvent} {t : Tagged} (hs : s.state = .done send)
      (hr : send.Resumed f arg (.complete (.ok out)) send' f' events)
      (hout : out.bye = none ∧ out.tagged = some t ∧ t.body.kind = .ok)
      (hexpired : s.expired env = true) :
      Resumed s f env arg (.yielded .wantsTag)
        { s.enter env (.idle (.fresh (.tag ⟨.idle, id⟩ true) [])) with timer := none } f' events

section Spec

theorem startTimer_eq (s : ImapIdle) (now : Nat) :
    s.startTimer now = { s with timer := some (s.timer.getD now) } := by
  obtain ⟨state, data, untagged, bye, opts, - | t⟩ := s <;> rfl

theorem startTimer_state (s : ImapIdle) (now : Nat) : (s.startTimer now).state = s.state := by
  rw [startTimer_eq]

theorem enter_self {s : ImapIdle} {env : ImapIdleEnv} {state : State} (hs : s.state = state) :
    s.enter env state = s.startTimer env.start := by
  rw [enter, startTimer_eq, ← hs]

variable [Fragmentizer F] [TryFrom Bytes Tag] [Encoder IdleDone] [LawfulEncoder IdleDone]

theorem resumeDone_new (s : ImapIdle) (tag : Tag) (f : F) (arg : Option Bytes) (env : ImapIdleEnv) :
    s.resumeDone (.new .idleDone tag) f arg env =
      (.yielded (.wantsWrite (doneBytes tag)), { s with state := .done (doneWritten tag) }, f) := by
  rw [resumeDone, ImapSend.new_resume]
  rfl

theorem resumeRead_none (s : ImapIdle) (tag : Tag) (f : F) (env : ImapIdleEnv) :
    s.resumeRead tag f none env =
      if env.done || s.timedOut env.check then
        (.yielded (.wantsWrite (doneBytes tag)), { s with state := .done (doneWritten tag) }, f)
      else (.yielded .wantsRead, { s with state := .read tag }, f) := by
  rw [resumeRead, resumeDone_new]

theorem done_spec {s : ImapIdle} {send : ImapSend IdleDone} (hready : send.Ready)
    (hs : s.state = .done send) (f : F) (log : List FragmentizerEvent) (arg : Option Bytes)
    (env : ImapIdleEnv) :
    ∃ out s' f' events,
      (s.startTimer env.start).resumeDone send (⟨f, log⟩ : Logged F) arg env =
        (out, s', ⟨f', log ++ events⟩) ∧ Resumed s f env arg out s' f' events := by
  obtain ⟨out, send', f', events, he, hr⟩ := ImapSend.resume_spec hready f log arg
  rw [resumeDone, he]
  rcases out with y | (err | out)
  · exact ⟨_, _, f', events, rfl, .finishes hs hr⟩
  · exact ⟨_, s.startTimer env.start, f', events, rfl, .ends hs hr (by simp)⟩
  · simp only [doneOver]
    cases hbye : out.bye with
    | some bye => exact ⟨_, s.startTimer env.start, f', events, rfl, .ends hs hr (by simp)⟩
    | none =>
      cases htagged : out.tagged with
      | none => exact ⟨_, s.startTimer env.start, f', events, rfl, .ends hs hr (by simp)⟩
      | some t =>
        cases hkind : t.body.kind with
        | no =>
          simp only [hkind]
          exact ⟨.complete (.error (.no t.body.text)), _, f', events, rfl, .ends hs hr (by simp)⟩
        | bad =>
          simp only [hkind]
          exact ⟨.complete (.error (.bad t.body.text)), _, f', events, rfl, .ends hs hr (by simp)⟩
        | ok =>
          cases hexp : s.expired env with
          | true =>
            simp only [hkind, show (s.startTimer env.start).timedOut env.check = true from hexp,
              if_true]
            exact ⟨_, _, f', events, rfl, .renews hs hr ⟨hbye, htagged, hkind⟩ hexp⟩
          | false =>
            simp only [hkind, show (s.startTimer env.start).timedOut env.check = false from hexp]
            exact ⟨.complete (.ok ()), _, f', events, rfl,
              .ends hs hr fun _ => ⟨hexp, out, t, rfl, hbye, htagged, hkind⟩⟩

theorem read_spec {s : ImapIdle} {due : Request} {tag : Tag} (h : s.Ready due)
    (hs : s.state = .read tag) (f : F) (log : List FragmentizerEvent) (arg : Option Bytes)
    (env : ImapIdleEnv) :
    ∃ out s' f' events,
      (s.startTimer env.start).resumeRead tag (⟨f, log⟩ : Logged F) arg env =
        (out, s', ⟨f', log ++ events⟩) ∧ Resumed s f env arg out s' f' events := by
  unfold resumeRead
  cases hstop : s.stopping env with
  | true =>
    rw [if_pos (show (env.done || (s.startTimer env.start).timedOut env.check) = true from hstop),
      resumeDone_new]
    exact ⟨_, _, f, [], by rw [List.append_nil]; rfl, .stops hs hstop⟩
  | false =>
    rw [if_neg (show ¬ (env.done || (s.startTimer env.start).timedOut env.check) = true by
      simpa [stopping, expired] using hstop)]
    rcases arg with - | (- | ⟨b, bs⟩)
    · exact ⟨_, _, f, [], by rw [List.append_nil]; rfl, .waits hs hstop⟩
    · exact ⟨_, s.startTimer env.start, f, [], by rw [List.append_nil], .eof hs hstop⟩
    · have hne : b :: bs ≠ [] := List.cons_ne_nil b bs
      simp only [Logged.enqueueBytes_eq]
      by_cases hms : Decoded (messages (enqueueBytes f (b :: bs)))
      · rw [Logged.readMessages_accepted accept_refuses hms, foldl_absorb]
        refine ⟨_, _, _, _, ?_, .hears hs hstop hne hms⟩
        rw [enter_self hs, startTimer_eq]
        simp [takeEvent, h.data, h.untagged]
      · obtain ⟨pre, m, post, err, hsplit, hpre, hm⟩ := exists_refused hms
        obtain ⟨f', he⟩ := Logged.readMessages_refused accept_refuses hsplit hpre hm
          (s.startTimer env.start) (log ++ [.fed (b :: bs)])
        rw [he]
        exact ⟨_, s.startTimer env.start, f', _, by rw [List.append_assoc]; rfl,
          .refused hs hstop hne hsplit hpre hm⟩

variable [Encoder Command] [LawfulEncoder Command]

theorem idle_spec {s : ImapIdle} {send : ImapSend Command} (hready : send.Ready)
    (hs : s.state = .idle send) (f : F) (log : List FragmentizerEvent) (arg : Option Bytes)
    (env : ImapIdleEnv) :
    ∃ out s' f' events,
      (s.startTimer env.start).resumeIdle send (⟨f, log⟩ : Logged F) arg env =
        (out, s', ⟨f', log ++ events⟩) ∧ Resumed s f env arg out s' f' events := by
  obtain ⟨out, send', f', events, he, hr⟩ := ImapSend.resume_spec hready f log arg
  rw [resumeIdle, he]
  rcases out with y | (err | out)
  · exact ⟨_, _, f', events, rfl, .idles hs hr⟩
  · exact ⟨_, s.startTimer env.start, f', events, rfl, .idleEnds hs hr⟩
  · simp only [idleOver]
    cases hbye : out.bye with
    | some bye => exact ⟨_, s.startTimer env.start, f', events, rfl, .idleEnds hs hr⟩
    | none =>
      cases htagged : out.tagged with
      | some t =>
        cases hkind : t.body.kind <;> simp only [hkind] <;>
          exact ⟨_, s.startTimer env.start, f', events, rfl, .idleEnds hs hr⟩
      | none =>
        cases hcr : out.continuationRequest with
        | none => exact ⟨_, s.startTimer env.start, f', events, rfl, .idleEnds hs hr⟩
        | some cr =>
          have hout : out.bye = none ∧ out.tagged = none ∧ out.continuationRequest.isSome :=
            ⟨hbye, htagged, by simp [hcr]⟩
          by_cases hnews : out.data ≠ [] ∨ out.untagged ≠ []
          · simp only [if_pos hnews]
            exact ⟨_, _, f', events, rfl, .reports hs hr hout hnews⟩
          · simp only [if_neg hnews]
            have hquiet : out.data = [] ∧ out.untagged = [] := by
              simpa [not_or] using hnews
            have hread := resumeRead_none (s.enter env (.read out.tag)) out.tag
              (⟨f', log ++ events⟩ : Logged F) env
            have hstopping : (env.done || (s.enter env (.read out.tag)).timedOut env.check) =
                s.stopping env := rfl
            rw [hstopping] at hread
            cases hstop : s.stopping env with
            | true =>
              rw [hstop, if_pos rfl] at hread
              exact ⟨_, _, f', events, hread, .turnsBack hs hr hout hquiet hstop⟩
            | false =>
              rw [hstop, if_neg Bool.false_ne_true] at hread
              exact ⟨_, _, f', events, hread, .enters hs hr hout hquiet hstop⟩

theorem resume_spec {s : ImapIdle} {due : Request} (h : s.Ready due) (f : F)
    (log : List FragmentizerEvent) (arg : Option Bytes) (env : ImapIdleEnv) :
    ∃ out s' f' events, s.resume (⟨f, log⟩ : Logged F) arg env = (out, s', ⟨f', log ++ events⟩) ∧
      Resumed s f env arg out s' f' events := by
  have hex := h.exchange
  have hstate := startTimer_state s env.start
  unfold resume
  cases hs : s.state with
  | idle send =>
    simp only [hs] at hex
    simp only [hstate, hs]
    exact idle_spec hex.1 hs f log arg env
  | read tag =>
    simp only [hstate, hs]
    exact read_spec h hs f log arg env
  | done send =>
    simp only [hs] at hex
    simp only [hstate, hs]
    exact done_spec hex.1 hs f log arg env

end Spec

section Yields

variable [Fragmentizer F] [Encoder IdleDone] [LawfulEncoder IdleDone]

theorem doneWritten_ready (tag : Tag) :
    (doneWritten tag).Ready ∧ (doneWritten tag).Awaits .nothing :=
  have h : (ImapSend.new IdleDone.idleDone tag).Initial := .new IdleDone.idleDone tag
  ⟨ImapSend.written_ready _ h.ready.goesOn (LawfulEncoder.framed IdleDone.idleDone), .inl rfl⟩

omit [Fragmentizer F] [Encoder IdleDone] [LawfulEncoder IdleDone] in
theorem ofYield_request (y : ImapYield) : (ImapIdleYield.ofYield y).request = y.request := by
  cases y <;> rfl

theorem Resumed.ready {s s' : ImapIdle} {f f' : F} {env : ImapIdleEnv} {due : Request}
    {arg : Option Bytes} {y : ImapIdleYield} {events : List FragmentizerEvent}
    (h : Resumed s f env arg (.yielded y) s' f' events) (hs : s.Ready due) :
    s'.Ready y.request := by
  have hdata : (s.startTimer env.start).data = [] := by rw [startTimer_eq, hs.data]
  have huntagged : (s.startTimer env.start).untagged = [] := by rw [startTimer_eq, hs.untagged]
  have hex := hs.exchange
  cases h with
  | idles hst hr =>
    rw [hst] at hex
    refine ⟨hdata, huntagged, ?_⟩
    rw [ofYield_request]
    exact hr.ready hex.1
  | reports hst hr hout hnews => exact ⟨hdata, huntagged, .inl rfl⟩
  | enters hst hr hout hquiet hgo => exact ⟨hdata, huntagged, .inr rfl⟩
  | turnsBack hst hr hout hquiet hstop => exact ⟨hdata, huntagged, doneWritten_ready _⟩
  | stops hst hstop => exact ⟨hdata, huntagged, doneWritten_ready _⟩
  | waits hst hgo => exact ⟨hdata, huntagged, .inr rfl⟩
  | hears hst hgo hne hms => exact ⟨hdata, huntagged, .inl rfl⟩
  | finishes hst hr =>
    rw [hst] at hex
    refine ⟨hdata, huntagged, ?_⟩
    rw [ofYield_request]
    exact hr.ready hex.1
  | renews hst hr hout hexpired => exact ⟨hdata, huntagged, ⟨rfl, rfl, rfl⟩, rfl⟩

end Yields

/-! ### Runs -/

abbrev Step (F : Type) := Turn ImapIdle F ImapIdleEnv ImapIdleYield (Except ImapIdleError Unit)

section Runs

variable [Fragmentizer F] [TryFrom Bytes Tag] [Encoder Command] [Encoder IdleDone]
  [LawfulEncoder Command] [LawfulEncoder IdleDone]

theorem step_resumed {a b : Config ImapIdle F} {t : Step F}
    (ha : ∀ due, a.due = some due → a.state.Ready due) (h : imapIdle.Step a t b) :
    (Resumed t.before t.frag t.env t.arg t.out t.after t.fragAfter t.log ∧
      t.before.Ready t.due ∧ t.due.answeredBy t.arg = true) ∧
    t.before = a.state ∧ b = imapIdle.finish t ∧
    ∀ due, b.due = some due → b.state.Ready due := by
  obtain ⟨due, arg, env, hdue, hans, rfl, rfl⟩ := h
  have hready := ha due hdue
  obtain ⟨out, s', f', events, he, hr⟩ := resume_spec hready a.frag [] arg env
  have ht : imapIdle.turn a due arg env =
      ⟨a.state, a.frag, due, arg, env, out, s', f', events⟩ := by
    simp only [Coroutine.turn, imapIdle, he, List.nil_append]
  rw [ht]
  refine ⟨⟨hr, hready, hans⟩, rfl, rfl, fun due' hd => ?_⟩
  obtain ⟨y, ho, rfl⟩ := Coroutine.finish_due hd
  obtain rfl : out = .yielded y := ho
  exact hr.ready hready

end Runs
end ImapIdle
end IoImap
