import IoImap.Send.Fold

/-!
# Command coroutines

Most coroutines of the crate send one command and turn the output of its
exchange into a result, in the same order everywhere: a BYE first, then a
missing completion, then the kind of the completion. What differs from one to
the other is the command and what is read from the output of a success.
-/

namespace IoImap
open Fragmentizer

/-- The failure causes of a command; every command coroutine has its own copy. -/
inductive ImapCommandError where
  | no (text : String)
  | bad (text : String)
  | bye (text : String)
  | missingTagged
  | send (err : ImapSendError)
  deriving DecidableEq

def commandOutcome {V : Type} (decode : ImapSendOutput Command → V) (out : ImapSendOutput Command) :
    Except ImapCommandError V :=
  match out.bye, out.tagged with
  | some bye, _ => .error (.bye bye.text)
  | none, none => .error .missingTagged
  | none, some tagged =>
    match tagged.body.kind with
    | .ok => .ok (decode out)
    | .no => .error (.no tagged.body.text)
    | .bad => .error (.bad tagged.body.text)

/-- The resume of a command coroutine, `imap_try!` of its send. -/
def commandResume {V F : Type} [Fragmentizer F] [TryFrom Bytes Tag] [Encoder Command]
    (decode : ImapSendOutput Command → V) (send : ImapSend Command) (f : F) (arg : Option Bytes) :
    CoroutineState ImapYield (Except ImapCommandError V) × ImapSend Command × F :=
  let r := send.resume f arg
  (r.1.tryOk id .send (commandOutcome decode), r.2)

theorem commandResume_yielded {V F : Type} [Fragmentizer F] [TryFrom Bytes Tag] [Encoder Command]
    {decode : ImapSendOutput Command → V} {send send' : ImapSend Command} {f f' : F}
    {arg : Option Bytes} {y : ImapYield}
    (h : commandResume decode send f arg = (.yielded y, send', f')) :
    send.resume f arg = (.yielded y, send', f') := by
  rw [commandResume, Prod.mk.injEq] at h
  obtain ⟨hout, hrest⟩ := h
  obtain ⟨y', hy', rfl⟩ := CoroutineState.tryOk_yielded hout
  exact Prod.ext hy' hrest

def Succeeds (out : ImapSendOutput Command) : Prop :=
  out.bye = none ∧ ∃ t, out.tagged = some t ∧ t.body.kind = .ok

section Outcome

variable {V : Type} {decode : ImapSendOutput Command → V} {out : ImapSendOutput Command}

theorem commandOutcome_ok {v : V} :
    commandOutcome decode out = .ok v ↔ Succeeds out ∧ v = decode out := by
  unfold commandOutcome Succeeds
  cases hb : out.bye with
  | some bye => simp
  | none =>
    cases ht : out.tagged with
    | none => simp
    | some t => cases hk : t.body.kind <;> simp [hk, eq_comm]

/-- A failure does not depend on what would be read from a success. -/
theorem commandOutcome_failed (h : ¬ Succeeds out) :
    ∃ err, ∀ {W : Type} (decode : ImapSendOutput Command → W), commandOutcome decode out = .error err := by
  unfold Succeeds at h
  unfold commandOutcome
  cases hb : out.bye with
  | some bye => exact ⟨.bye bye.text, fun _ => rfl⟩
  | none =>
    cases ht : out.tagged with
    | none => exact ⟨.missingTagged, fun _ => rfl⟩
    | some t =>
      cases hk : t.body.kind with
      | ok => exact absurd ⟨hb, t, ht, hk⟩ h
      | no => exact ⟨.no t.body.text, fun _ => by simp [hk]⟩
      | bad => exact ⟨.bad t.body.text, fun _ => by simp [hk]⟩

theorem commandResume_ok {F : Type} [Fragmentizer F] [TryFrom Bytes Tag] [Encoder Command]
    {send send' : ImapSend Command} {f f' : F} {arg : Option Bytes} {v : V}
    (h : commandResume decode send f arg = (.complete (.ok v), send', f')) :
    ∃ out, (send.resume f arg).1 = .complete (.ok out) ∧ v = decode out := by
  rw [commandResume, Prod.mk.injEq] at h
  obtain ⟨out, hout, hv⟩ := CoroutineState.tryOk_ok h.1
  exact ⟨out, hout, (commandOutcome_ok.mp hv).2⟩

end Outcome

inductive CommandResumed {V F : Type} [Fragmentizer F] (decode : ImapSendOutput Command → V)
    (send : ImapSend Command) (f : F) (arg : Option Bytes) :
    CoroutineState ImapYield (Except ImapCommandError V) → ImapSend Command → F →
      List FragmentizerEvent → Prop where
  | goesOn {y : ImapYield} {send' : ImapSend Command} {f' : F} {events : List FragmentizerEvent}
      (hr : send.Resumed f arg (.yielded y) send' f' events) :
      CommandResumed decode send f arg (.yielded y) send' f' events
  | fails {out : Except ImapSendError (ImapSendOutput Command)} {err : ImapCommandError}
      {send' : ImapSend Command} {f' : F} {events : List FragmentizerEvent}
      (hr : send.Resumed f arg (.complete out) send' f' events) (hout : ∀ o, out = .ok o → ¬ Succeeds o) :
      CommandResumed decode send f arg (.complete (.error err)) send' f' events
  | succeeds {out : ImapSendOutput Command} {send' : ImapSend Command} {f' : F}
      {events : List FragmentizerEvent} (hr : send.Resumed f arg (.complete (.ok out)) send' f' events)
      (hout : Succeeds out) :
      CommandResumed decode send f arg (.complete (.ok (decode out))) send' f' events

theorem commandResume_spec {V F : Type} [Fragmentizer F] [TryFrom Bytes Tag] [Encoder Command]
    [LawfulEncoder Command] (decode : ImapSendOutput Command → V) {send : ImapSend Command}
    (h : send.Ready) (f : F) (log : List FragmentizerEvent) (arg : Option Bytes) :
    ∃ out send' f' events, commandResume decode send (⟨f, log⟩ : Logged F) arg =
        (out, send', ⟨f', log ++ events⟩) ∧
      CommandResumed decode send f arg out send' f' events := by
  obtain ⟨out, send', f', events, he, hr⟩ := ImapSend.resume_spec h f log arg
  refine ⟨out.tryOk id .send (commandOutcome decode), send', f', events, by rw [commandResume, he], ?_⟩
  rcases out with y | (err | out)
  · exact .goesOn hr
  · exact .fails hr (by simp)
  · simp only [CoroutineState.tryOk]
    cases hv : commandOutcome decode out with
    | ok v =>
      obtain ⟨hout, rfl⟩ := commandOutcome_ok.mp hv
      exact .succeeds hr hout
    | error err =>
      refine .fails hr fun o ho hs => ?_
      obtain rfl : out = o := by simpa using ho
      rw [commandOutcome_ok.mpr ⟨hs, rfl⟩] at hv
      simp at hv

end IoImap
