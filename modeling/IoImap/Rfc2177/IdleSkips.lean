import IoImap.Rfc2177.IdleEvents
import IoImap.Rfc2177.IdleExchanges
import IoImap.Send.Skips

/-!
# An undecodable response while idling

The exchanges of IDLE and of DONE pass over an untagged response that cannot be
decoded. The reading loop between them fails on it.
-/

namespace IoImap
open Fragmentizer ServerMessage Transition ImapIdleEvent

namespace ImapIdle

variable {F G : Type}

/-- The error that a read which completes these messages fails with. -/
def failure (s : ImapIdle) (env : ImapIdleEnv) (ms : List ServerMessage) : Option ImapIdleError :=
  match s.state with
  | .read _ => if s.stopping env then none else ms.findSome? refusal?
  | _ => (ms.findSome? ServerMessage.refusal?).map .send

def limboLiteral (s : ImapIdle) : Option Bytes :=
  match s.state with
  | .idle send => send.limboLiteral
  | .read _ => none
  | .done send => send.limboLiteral

theorem absorb_undecodable {m : ServerMessage} (hm : m.Undecodable) (s : ImapIdle) :
    absorb s m = s := by
  obtain ⟨hdata, huntagged, hbye, -, -⟩ := hm.silent
  simp [absorb, hdata, huntagged, hbye]

theorem refusal?_undecodable {m : ServerMessage} (hm : m.Undecodable) : (refusal? m).isSome := by
  obtain ⟨-, err, herr⟩ := hm
  cases err <;> simp [refusal?, herr]

theorem startTimer_started {s : ImapIdle} (h : s.timer.isSome) (now : Nat) : s.startTimer now = s := by
  obtain ⟨t, ht⟩ := Option.isSome_iff_exists.mp h
  simp only [startTimer, ht]

/-! ### The fragmentizer apart -/

section Upshots

variable {f : F} {g : G} {arg arg' : Option Bytes} {env : ImapIdleEnv} {data : Bytes} {tag : Tag}

/-- What IDLE makes of a resume of one of its exchanges. -/
def follow {M : Type} (s : ImapIdle) (into : ImapSend M → ImapIdle.State)
    (ended : ImapSendOutput M → F → ImapIdleResult × ImapIdle × F) :
    ImapSendResult M × ImapSend M × F → ImapIdleResult × ImapIdle × F
  | (.yielded y, send, f) => (.yielded (.ofYield y), { s with state := into send }, f)
  | (.complete (.error err), _, f) => (.complete (.error (.send err)), s, f)
  | (.complete (.ok out), _, f) => ended out f

section Follow

variable {M : Type} {s : ImapIdle} {into : ImapSend M → ImapIdle.State}
  {ended : ImapSendOutput M → F → ImapIdleResult × ImapIdle × F}
  {ended' : ImapSendOutput M → G → ImapIdleResult × ImapIdle × G}
  {r : ImapSendResult M × ImapSend M × F} {r' : ImapSendResult M × ImapSend M × G}

theorem follow_upshot (h : upshot r' = upshot r)
    (hended : ∀ out f g, upshot (ended' out g) = upshot (ended out f)) :
    upshot (s.follow into ended' r') = upshot (s.follow into ended r) := by
  obtain ⟨out, send, f⟩ := r
  obtain ⟨out', send', g⟩ := r'
  obtain ⟨rfl, rfl⟩ := Prod.mk.inj h
  rcases out' with y | (err | out)
  · rfl
  · rfl
  · exact hended out f g

theorem follow_failing {err : ImapSendError} (h : r.1 = .complete (.error err)) :
    (s.follow into ended r).1 = .complete (.error (.send err)) := by
  obtain ⟨out, send, f⟩ := r
  obtain rfl := h
  rfl

theorem follow_unfailing (h : ∀ err, r.1 ≠ .complete (.error err))
    (hended : ∀ out f err, (ended out f).1 ≠ .complete (.error (.send err))) (err : ImapSendError) :
    (s.follow into ended r).1 ≠ .complete (.error (.send err)) := by
  obtain ⟨y | (err' | out), send, f⟩ := r
  · simp [follow]
  · exact absurd rfl (h err')
  · exact hended out f err

theorem follow_waiting {send : ImapSend M} (hs : s.state = into send)
    (h : upshot r = (.yielded .wantsRead, send)) :
    upshot (s.follow into ended r) = (.yielded .wantsRead, s) := by
  obtain ⟨out, send', f⟩ := r
  obtain ⟨rfl, rfl⟩ := Prod.mk.inj h
  simp only [follow, upshot, ImapIdleYield.ofYield, ← hs]

end Follow

theorem doneOver_upshot (s : ImapIdle) (out : ImapSendOutput IdleDone) (f : F) (g : G) :
    upshot (s.doneOver out g env) = upshot (s.doneOver out f env) := by
  unfold doneOver
  split
  · rfl
  · rfl
  · simp only
    split
    · split
      · rfl
      · rfl
    · rfl
    · rfl

variable [Fragmentizer F] [Fragmentizer G] [TryFrom Bytes Tag] [Encoder IdleDone]

theorem resumeDone_eq (s : ImapIdle) (send : ImapSend IdleDone) :
    s.resumeDone send f arg env = s.follow .done (s.doneOver · · env) (send.resume f arg) := by
  unfold resumeDone
  rcases send.resume f arg with ⟨y | (err | out), send', f'⟩ <;> rfl

omit [Fragmentizer F] [TryFrom Bytes Tag] [Encoder IdleDone] in
theorem doneOver_not_send (s : ImapIdle) (out : ImapSendOutput IdleDone) (f : F)
    (err : ImapSendError) :
    (s.doneOver out f env).1 ≠ .complete (.error (.send err)) := by
  unfold doneOver
  split
  · simp
  · simp
  · simp only
    split
    · split <;> simp [reissue]
    · simp
    · simp

variable [LawfulEncoder IdleDone]

theorem resumeRead_none_upshot (s : ImapIdle) :
    upshot (s.resumeRead tag g none env) = upshot (s.resumeRead tag f none env) := by
  rw [resumeRead_none, resumeRead_none]
  split
  · rfl
  · rfl

theorem resumeRead_stopping {s : ImapIdle} (hstop : (env.done || s.timedOut env.check) = true) :
    upshot (s.resumeRead tag f arg env) =
      (.yielded (.wantsWrite (doneBytes tag)), { s with state := .done (doneWritten tag) }) := by
  unfold resumeRead
  rw [if_pos hstop, resumeDone_new]
  rfl

omit [LawfulEncoder IdleDone] in
theorem resumeRead_upshot {s : ImapIdle} (hgo : ¬ (env.done || s.timedOut env.check) = true)
    (hne : data ≠ []) :
    upshot (s.resumeRead tag f (some data) env) =
      match (messages (enqueueBytes f data)).foldlM accept s with
      | .ok s' => (.yielded (.event s'.takeEvent.1), s'.takeEvent.2)
      | .error err => (.complete (.error err), s) := by
  obtain ⟨b, bs, rfl⟩ := List.exists_cons_of_ne_nil hne
  unfold resumeRead
  rw [if_neg hgo, ← readMessages_fst]
  dsimp only
  rcases readMessages accept s (enqueueBytes f (b :: bs)) with ⟨err | s', f'⟩
  · rfl
  · rfl

theorem idleOver_upshot (s : ImapIdle) (out : ImapSendOutput Command) (f : F) (g : G) :
    upshot (s.idleOver out g env) = upshot (s.idleOver out f env) := by
  unfold idleOver
  split
  · rfl
  · split
    · rfl
    · rfl
    · rfl
  · rfl
  · simp only
    split
    · rfl
    · exact resumeRead_none_upshot _

omit [LawfulEncoder IdleDone] in
theorem resumeIdle_eq [Encoder Command] (s : ImapIdle) (send : ImapSend Command) :
    s.resumeIdle send f arg env = s.follow .idle (s.idleOver · · env) (send.resume f arg) := by
  unfold resumeIdle
  rcases send.resume f arg with ⟨y | (err | out), send', f'⟩ <;> rfl

theorem idleOver_not_send (s : ImapIdle) (out : ImapSendOutput Command) (f : F)
    (err : ImapSendError) :
    (s.idleOver out f env).1 ≠ .complete (.error (.send err)) := by
  unfold idleOver
  split
  · simp
  · split <;> simp
  · simp
  · simp only
    split
    · simp
    · rw [resumeRead_none]
      split <;> simp

end Upshots

/-! ### One resume -/

section Resume

variable [Fragmentizer F] [Fragmentizer G] [TryFrom Bytes Tag] [Encoder Command] [Encoder IdleDone]
  [LawfulEncoder IdleDone] {f : F} {g : G} {s : ImapIdle} {due : Request} {arg arg' : Option Bytes}
  {env : ImapIdleEnv} {data : Bytes} {m : ServerMessage} {ms ms' : List ServerMessage}

theorem resume_none_upshot (s : ImapIdle) (f : F) (g : G) (env : ImapIdleEnv) :
    upshot (s.resume g none env) = upshot (s.resume f none env) := by
  unfold resume
  cases hs : s.state with
  | idle send =>
    simp only [startTimer_state, hs, resumeIdle_eq]
    exact follow_upshot (ImapSend.resume_none_upshot send f g) (idleOver_upshot _)
  | done send =>
    simp only [startTimer_state, hs, resumeDone_eq]
    exact follow_upshot (ImapSend.resume_none_upshot send f g) (doneOver_upshot _)
  | read tag =>
    simp only [startTimer_state, hs]
    exact resumeRead_none_upshot _

/-- Resumes that are given the same but for a message that fails neither come to the same. -/
theorem resume_given (hm : m.Undecodable) (h : s.Ready due) (hg : Given f g ms ms' due arg arg')
    (hadds : Adds m ms ms') (hfail : s.failure env ms' = s.failure env ms) :
    upshot (s.resume g arg' env) = upshot (s.resume f arg env) := by
  have hex := h.exchange
  have hsends : (∀ tag, s.state ≠ .read tag) →
      ms'.findSome? ServerMessage.refusal? = ms.findSome? ServerMessage.refusal? := by
    intro hn
    unfold failure at hfail
    split at hfail
    · rename_i tag hs
      exact absurd hs (hn tag)
    · exact Option.map_injective (fun _ _ => ImapIdleError.send.inj) hfail
  unfold resume
  cases hs : s.state with
  | idle send =>
    simp only [hs] at hex
    simp only [startTimer_state, hs, resumeIdle_eq]
    have hsend := ImapSend.resume_given hm hex.2 hg hadds (hsends (by simp [hs]))
    exact follow_upshot hsend (idleOver_upshot _)
  | done send =>
    simp only [hs] at hex
    simp only [startTimer_state, hs, resumeDone_eq]
    have hsend := ImapSend.resume_given hm hex.2 hg hadds (hsends (by simp [hs]))
    exact follow_upshot hsend (doneOver_upshot _)
  | read tag =>
    simp only [hs] at hex
    simp only [startTimer_state, hs]
    by_cases hstop : (env.done || (s.startTimer env.start).timedOut env.check) = true
    · rw [resumeRead_stopping hstop, resumeRead_stopping hstop]
    · cases hg with
      | nothing => exact resumeRead_none_upshot _
      | tag => simp at hex
      | stream => simp at hex
      | eof =>
        unfold resumeRead
        rw [if_neg hstop, if_neg hstop]
        rfl
      | read hne hne' hms hms' =>
        have hgo : s.stopping env = false := by
          rw [← Bool.not_eq_true]
          exact hstop
        have hfail' : ms'.findSome? refusal? = ms.findSome? refusal? := by
          simpa [failure, hs, hgo] using hfail
        rw [resumeRead_upshot hstop hne, resumeRead_upshot hstop hne', hms, hms',
          hadds.foldlM accept_refuses (absorb_undecodable hm) hfail']

omit [LawfulEncoder IdleDone] in
theorem resume_failing {err : ImapIdleError} (h : s.Ready .read) (hne : data ≠ [])
    (hfail : s.failure env (messages (enqueueBytes f data)) = some err) :
    (s.resume f (some data) env).1 = .complete (.error err) := by
  have hex := h.exchange
  unfold resume
  cases hs : s.state with
  | idle send =>
    simp only [hs] at hex
    simp only [failure, hs, Option.map_eq_some_iff] at hfail
    obtain ⟨e, hfirst, rfl⟩ := hfail
    obtain ⟨sent, hsent⟩ := ImapSend.awaits_read hex.2
    simp only [startTimer_state, hs, resumeIdle_eq]
    apply follow_failing
    rw [ImapSend.resume_read hsent]
    exact congrArg Prod.fst (ImapSend.read_refused_upshot hne hfirst)
  | done send =>
    simp only [hs] at hex
    simp only [failure, hs, Option.map_eq_some_iff] at hfail
    obtain ⟨e, hfirst, rfl⟩ := hfail
    obtain ⟨sent, hsent⟩ := ImapSend.awaits_read hex.2
    simp only [startTimer_state, hs, resumeDone_eq]
    apply follow_failing
    rw [ImapSend.resume_read hsent]
    exact congrArg Prod.fst (ImapSend.read_refused_upshot hne hfirst)
  | read tag =>
    simp only [startTimer_state, hs]
    cases hstop : s.stopping env with
    | true => simp [failure, hs, hstop] at hfail
    | false =>
      have hfirst : (messages (enqueueBytes f data)).findSome? refusal? = some err := by
        simpa [failure, hs, hstop] using hfail
      show (upshot ((s.startTimer env.start).resumeRead tag f (some data) env)).1 = _
      rw [resumeRead_upshot (Bool.eq_false_iff.mp hstop) hne, foldlM_refused accept_refuses hfirst]

/-- A read in which nothing fails does not end as one would in which something does. -/
theorem resume_unfailing {err : ImapIdleError} (h : s.Ready .read) (hne : data ≠ [])
    (hnone : s.failure env (messages (enqueueBytes f data)) = none)
    (hfail : s.failure env ms = some err) :
    (s.resume f (some data) env).1 ≠ .complete (.error err) := by
  have hex := h.exchange
  unfold resume
  cases hs : s.state with
  | idle send =>
    simp only [hs] at hex
    simp only [failure, hs, Option.map_eq_some_iff, Option.map_eq_none_iff] at hfail hnone
    obtain ⟨e, -, rfl⟩ := hfail
    obtain ⟨sent, hsent⟩ := ImapSend.awaits_read hex.2
    simp only [startTimer_state, hs, resumeIdle_eq]
    refine follow_unfailing ?_ (idleOver_not_send _) e
    rw [ImapSend.resume_read hsent]
    exact ImapSend.read_accepted_upshot hne hnone
  | done send =>
    simp only [hs] at hex
    simp only [failure, hs, Option.map_eq_some_iff, Option.map_eq_none_iff] at hfail hnone
    obtain ⟨e, -, rfl⟩ := hfail
    obtain ⟨sent, hsent⟩ := ImapSend.awaits_read hex.2
    simp only [startTimer_state, hs, resumeDone_eq]
    refine follow_unfailing ?_ (doneOver_not_send _) e
    rw [ImapSend.resume_read hsent]
    exact ImapSend.read_accepted_upshot hne hnone
  | read tag =>
    simp only [startTimer_state, hs]
    cases hstop : s.stopping env with
    | true => simp [failure, hs, hstop] at hfail
    | false =>
      have hfirst : (messages (enqueueBytes f data)).findSome? refusal? = none := by
        simpa [failure, hs, hstop] using hnone
      show (upshot ((s.startTimer env.start).resumeRead tag f (some data) env)).1 ≠ _
      rw [resumeRead_upshot (Bool.eq_false_iff.mp hstop) hne, foldlM_findSome accept_refuses, hfirst]
      simp

/-! ### Resumes for the message alone -/

omit [TryFrom Bytes Tag] [Encoder Command] [Encoder IdleDone] [LawfulEncoder IdleDone] in
theorem takeEvent_empty (h : s.Ready due) : s.takeEvent = (.empty, s) := by
  rw [takeEvent, h.data, h.untagged]
  exact Prod.ext rfl (by rw [← h.data, ← h.untagged])

omit [LawfulEncoder IdleDone] in
/-- A read that completes nothing but the message leaves an exchange waiting. -/
theorem resume_aside (hm : m.Undecodable) (h : s.Ready .read) (htimer : s.timer.isSome)
    (hs : s.reading = false) (hlimbo : s.limboLiteral = none) (hne : data ≠ [])
    (hadds : Adds m [] (messages (enqueueBytes f data)))
    (hfail : s.failure env (messages (enqueueBytes f data)) = none) :
    upshot (s.resume f (some data) env) = (.yielded .wantsRead, s) := by
  have hex := h.exchange
  unfold resume
  rw [startTimer_started htimer]
  cases hst : s.state with
  | idle send =>
    simp only [hst] at hex
    simp only [failure, limboLiteral, hst, Option.map_eq_none_iff] at hfail hlimbo
    obtain ⟨sent, hsent⟩ := ImapSend.awaits_read hex.2
    have hread := ImapSend.read_aside_upshot hm hsent hex.1.goesOn hlimbo hne hadds hfail
    rw [← ImapSend.resume_read hsent] at hread
    simp only [hst, resumeIdle_eq]
    exact follow_waiting hst hread
  | done send =>
    simp only [hst] at hex
    simp only [failure, limboLiteral, hst, Option.map_eq_none_iff] at hfail hlimbo
    obtain ⟨sent, hsent⟩ := ImapSend.awaits_read hex.2
    have hread := ImapSend.read_aside_upshot hm hsent hex.1.goesOn hlimbo hne hadds hfail
    rw [← ImapSend.resume_read hsent] at hread
    simp only [hst, resumeDone_eq]
    exact follow_waiting hst hread
  | read tag => simp [reading, hst] at hs

omit [TryFrom Bytes Tag] [Encoder Command] [Encoder IdleDone] [LawfulEncoder IdleDone] in
theorem reading_iff : s.reading = true ↔ ∃ tag, s.state = .read tag := by
  unfold reading
  split
  · rename_i tag hs
    exact ⟨fun _ => ⟨tag, hs⟩, fun _ => rfl⟩
  · rename_i hn
    exact ⟨fun h => absurd h Bool.false_ne_true, fun ⟨tag, hs⟩ => absurd hs (hn tag)⟩

omit [LawfulEncoder IdleDone] in
/-- A read that completes nothing is reported as an event all the same. -/
theorem resume_piece (h : s.Ready due) (htimer : s.timer.isSome) (hs : s.reading = true)
    (hgo : s.stopping env = false) (hne : data ≠ [])
    (hms : messages (enqueueBytes f data) = []) :
    upshot (s.resume f (some data) env) = (.yielded (.event .empty), s) := by
  obtain ⟨tag, hst⟩ := reading_iff.mp hs
  rw [stopping, expired, startTimer_started htimer] at hgo
  unfold resume
  rw [startTimer_started htimer]
  simp only [hst]
  rw [resumeRead_upshot (Bool.eq_false_iff.mp hgo) hne, hms]
  show (_, s.takeEvent.2) = _
  rw [takeEvent_empty h]

theorem resume_rest (htimer : s.timer.isSome) (hs : s.reading = true)
    (hgo : s.stopping env = false) : upshot (s.resume f none env) = (.yielded .wantsRead, s) := by
  obtain ⟨tag, hst⟩ := reading_iff.mp hs
  rw [stopping, expired, startTimer_started htimer] at hgo
  unfold resume
  rw [startTimer_started htimer]
  simp only [hst]
  rw [resumeRead_none, if_neg (Bool.eq_false_iff.mp hgo), ← hst]
  rfl

end Resume

/-! ### Two runs -/

theorem failure_nil (s : ImapIdle) (env : ImapIdleEnv) : s.failure env [] = none := by
  unfold failure
  split
  · exact ite_self none
  · rfl

theorem failure_added {s : ImapIdle} {env : ImapIdleEnv} {m : ServerMessage}
    {ms ms' : List ServerMessage} (h : Adds m ms ms') (hfail : s.failure env ms' ≠ s.failure env ms) :
    ∃ err, s.failure env ms' = some err := by
  have hexchange (hn : ms'.findSome? ServerMessage.refusal? ≠ ms.findSome? ServerMessage.refusal?) :
      ∃ err, (ms'.findSome? ServerMessage.refusal?).map ImapIdleError.send = some err := by
    obtain ⟨err, herr⟩ := h.refused hn
    exact ⟨.send err, by rw [herr]; rfl⟩
  cases hs : s.state with
  | read tag =>
    simp only [failure, hs] at hfail ⊢
    cases hstop : s.stopping env with
    | true => simp [hstop] at hfail
    | false =>
      simp only [hstop, Bool.false_eq_true, if_false] at hfail ⊢
      exact h.refused hfail
  | idle send =>
    simp only [failure, hs] at hfail ⊢
    exact hexchange fun he => hfail (congrArg _ he)
  | done send =>
    simp only [failure, hs] at hfail ⊢
    exact hexchange fun he => hfail (congrArg _ he)

theorem failure_loop {s : ImapIdle} {env : ImapIdleEnv} {m : ServerMessage} (hm : m.Undecodable)
    (hs : s.reading = true) (hgo : s.stopping env = false) : s.failure env [m] ≠ none := by
  obtain ⟨tag, hst⟩ := reading_iff.mp hs
  obtain ⟨err, herr⟩ := Option.isSome_iff_exists.mp (refusal?_undecodable hm)
  simp [failure, hst, hgo, herr]

theorem Plain.limboLiteral {s : ImapIdle} (h : s.Plain .read) : s.limboLiteral = none := by
  have hex := h.exchanges
  unfold ImapIdle.limboLiteral
  split
  · rename_i send hs
    rw [hs] at hex
    rcases hex with ⟨-, hdue⟩ | ⟨-, hdue⟩ | ⟨tag, past, hl⟩
    · simp at hdue
    · simp at hdue
    · exact hl.limboLiteral
  · rfl
  · rename_i send hs
    rw [hs] at hex
    obtain ⟨tag, past, hl⟩ := hex
    exact hl.limboLiteral

/-- What a result adds to what has been reported. -/
def addReport (e : ImapIdleEvent) (out : ImapIdleResult) : ImapIdleEvent :=
  e ++ match out with
    | .yielded (.event event) => event
    | _ => .empty

theorem observed_reported (es : List (Step F)) : observed addReport .empty es = reported es := rfl

/-- What holds between two resumes: a read is never asked for before the timer runs. -/
structure Timed (s : ImapIdle) (due : Request) : Prop where
  plain : s.Plain due
  timer : due = .read → s.timer.isSome

abbrev IdleSpot (G : Type) :=
  Spot ImapIdle G ImapIdleEnv ImapIdleYield (Except ImapIdleError Unit)

theorem Resumed.timer [Fragmentizer F] [Encoder IdleDone] {s s' : ImapIdle} {f f' : F}
    {env : ImapIdleEnv} {arg : Option Bytes} {y : ImapIdleYield} {events : List FragmentizerEvent}
    (h : Resumed s f env arg (.yielded y) s' f' events) (hy : y.request = .read) :
    s'.timer.isSome := by
  have henter (state : State) : (s.enter env state).timer.isSome := by
    rw [enter, startTimer_eq]
    rfl
  cases h with
  | renews => simp [ImapIdleYield.request] at hy
  | @hears tag => exact henter (.read tag)
  | _ => exact henter _

section Runs

variable [Fragmentizer G]

/-- Reads for the message alone, in which neither the flag nor the timer ends IDLE: one
that completes it or a piece of it, and while IDLE reads the resume behind the event
that a piece is reported with. -/
inductive Aside (m : ServerMessage) : List (Step G) → List (IdleSpot G) → Prop where
  | exchange {u : Step G} (hdue : u.due = .read) (harg : u.arg ≠ some [])
      (hs : u.before.reading = false) (hadds : Adds m [] u.received) : Aside m [u] [⟨u, []⟩]
  | loop {u : Step G} (hdue : u.due = .read) (hs : u.before.reading = true)
      (hgo : u.before.stopping u.env = false) (hms : u.received = [m]) : Aside m [u] [⟨u, []⟩]
  | piece {u v : Step G} (hdue : u.due = .read) (harg : u.arg ≠ some [])
      (hs : u.before.reading = true) (hgo : u.before.stopping u.env = false) (hms : u.received = [])
      (hrest : v.before.stopping v.env = false) : Aside m [u, v] []

variable [TryFrom Bytes Tag] [Encoder Command] [Encoder IdleDone] [LawfulEncoder IdleDone]
  {m : ServerMessage} {es : List (Step F)} {us : List (Step G)} {a : Config ImapIdle F}
  {c d : Config ImapIdle G} {u v : Step G}

theorem turns_piece {c' : Config ImapIdle G} (hr : Aligned Timed a c)
    (hagree : Agree addReport .empty es us) (hstep : imapIdle.Step c u c')
    (hstep' : imapIdle.Step c' v d) (hdue : u.due = .read) (harg : u.arg ≠ some [])
    (hs : u.before.reading = true) (hgo : u.before.stopping u.env = false) (hms : u.received = [])
    (hrest : v.before.stopping v.env = false) :
    Aligned Timed a d ∧ Agree addReport .empty es (us ++ [u, v]) := by
  obtain ⟨hcdue, -, hbefore, hup, rfl⟩ := imapIdle.step_upshot hstep
  obtain ⟨hdue', hans', hbefore', hup', -⟩ := imapIdle.step_upshot hstep'
  have hadue : a.due = some .read := by rw [← hr.due, hcdue, hdue]
  have hstate : u.before = a.state := hbefore.trans hr.state
  have htimed : u.before.Timed .read := by
    rw [hstate]
    exact hr.inv .read hadue
  obtain ⟨data, hdata, hne, hreceived⟩ := step_octets hstep hdue harg
  have hpiece := resume_piece htimed.plain.toReady (htimed.timer rfl) hs hgo hne
    (hreceived.symm.trans hms)
  rw [hdata] at hup
  obtain ⟨hout, hafter⟩ := Prod.mk.inj (hup.trans hpiece)
  have hsame : v.before = u.before := hbefore'.trans hafter
  have hnothing : v.due = .nothing := by
    rw [Coroutine.finish, hout] at hdue'
    exact (Option.some.inj hdue').symm
  have hnone : v.arg = none := by
    rw [hnothing] at hans'
    exact Option.isNone_iff_eq_none.mp hans'
  rw [hsame] at hrest hup'
  rw [hnone] at hup'
  obtain ⟨hout', hafter'⟩ := Prod.mk.inj (hup'.trans (resume_rest (htimed.timer rfl) hs hrest))
  refine ⟨hr.aside hstep' hout' (hafter'.trans hstate) hadue, ?_⟩
  have hagree' := (hagree.aside hout append_empty).aside (u := v) hout' append_empty
  rwa [List.append_assoc] at hagree'

variable [LawfulEncoder Command] [LawfulIdle]

omit [Fragmentizer G] in
theorem timed_step [Fragmentizer F] {b : Config ImapIdle F} {t : Step F}
    (ha : ∀ due, a.due = some due → a.state.Timed due) (hstep : imapIdle.Step a t b) :
    ∀ due, b.due = some due → b.state.Timed due := by
  obtain ⟨htakes, hplain⟩ := step_conducted (fun due hdue => (ha due hdue).plain) hstep
  have hresumed := htakes.resumed
  rw [htakes.after] at hplain ⊢
  intro due hdue
  refine ⟨hplain due hdue, fun hread => ?_⟩
  obtain ⟨y, ho, hy⟩ := Coroutine.finish_due hdue
  rw [ho] at hresumed
  exact hresumed.timer (hy.trans hread)

omit [Fragmentizer G] in
theorem passes (hm : m.Undecodable) : Passes imapIdle m failure Timed where
  given h hg hadds hfail := resume_given hm h.plain.toReady hg hadds hfail
  failing h hne hfail := resume_failing h.plain.toReady hne hfail
  unfailing h hne hnone hfail := resume_unfailing h.plain.toReady hne hnone hfail
  unread := failure_nil
  added := failure_added
  keeps := timed_step

theorem turns_aside {vs : List (Step G)} {qs : List (IdleSpot G)} (hm : m.Undecodable)
    (hr : Aligned Timed a c) (hagree : Agree addReport .empty es us)
    (hrun : Run imapIdle.Step c vs d) (haside : Aside m vs qs) :
    Turns imapIdle.Step (Aligned Timed) (Agree addReport .empty) (∀ q ∈ qs, Unheeded failure q) es
      (us ++ vs) a d := by
  cases haside with
  | @exchange u hdue harg hs hadds =>
    obtain ⟨d', hstep, hnil⟩ := hrun.cons_inv
    obtain rfl := hnil.nil_inv
    refine ((passes hm).turns_read hr hagree hstep hdue harg (y := .wantsRead) rfl append_empty
      ?_).of_iff List.forall_mem_singleton
    intro htimed data hdata hne hfail hreceived
    rw [hreceived] at hadds hfail
    exact resume_aside hm htimed.plain.toReady (htimed.timer rfl) hs htimed.plain.limboLiteral hne
      hadds hfail
  | @loop u hdue hs hgo hms =>
    obtain ⟨d', hstep, hnil⟩ := hrun.cons_inv
    obtain rfl := hnil.nil_inv
    have harg := ne_eof_of_received hms
    refine ((passes hm).turns_read hr hagree hstep hdue harg (y := .wantsRead) rfl append_empty
      ?_).of_iff List.forall_mem_singleton
    intro htimed data hdata hne hfail hreceived
    rw [hms] at hfail
    exact absurd hfail (failure_loop hm hs hgo)
  | @piece u v hdue harg hs hgo hms hrest =>
    obtain ⟨c', hstep, hmore⟩ := hrun.cons_inv
    obtain ⟨d', hstep', hnil⟩ := hmore.cons_inv
    obtain rfl := hnil.nil_inv
    have hpiece := turns_piece hr hagree hstep hstep' hdue harg hs hgo hms hrest
    exact ⟨fun _ => hpiece, fun hx => absurd (by simp) hx⟩

variable [Fragmentizer F]

/-- The second run is given what the first is, and `m` in between. -/
abbrev Inserts (m : ServerMessage) : List (IdleSpot G) → List (Step F) → List (Step G) → Prop :=
  Paired (AlikeAt m) (Aside m)

theorem compares (hm : m.Undecodable) :
    Compares (imapIdle.Step (F := F)) (imapIdle.Step (F := G)) (AlikeAt m) (Aside m) (Aligned Timed)
      (Agree addReport .empty) (Unheeded failure) where
  both := (passes hm).turns_both
  aside := turns_aside hm
  nonempty h := by cases h <;> exact List.cons_ne_nil _ _

/-- An undecodable response goes unnoticed exactly when no read fails because of it. -/
theorem agree_iff (hm : m.Undecodable) {opts : ImapIdleOptions} {f : F} {g : G}
    {ps : List (IdleSpot G)} (h : Inserts m ps es us) (hrun : imapIdle.Runs (.new opts) f es a)
    (hrun' : imapIdle.Runs (.new opts) g us c) :
    reported es = reported us ∧ results es = results us ↔ ∀ p ∈ ps, Unheeded failure p := by
  rw [← observed_reported, ← observed_reported]
  refine (compares hm).agree_iff ⟨rfl, rfl, fun due hdue => ?_⟩ ⟨rfl, rfl⟩ h hrun hrun'
  obtain rfl : Request.nothing = due := Option.some.inj hdue
  exact ⟨new_plain opts, fun hread => absurd hread (by decide)⟩

end Runs

end ImapIdle
end IoImap
