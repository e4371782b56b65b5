import IoImap.Client.Pump
import IoImap.Command.Runs

/-!
# Exchanges do not see the log

What a coroutine does to the fragmentizer it is given is the same with the log that a
run keeps as without it: `Logged` only writes down what passes through it.
-/

namespace IoImap
open Fragmentizer Incremental

theorem Logged.readMessages_erase {F σ ε : Type} [Fragmentizer F]
    (accept : σ → ServerMessage → Except ε σ) (s : σ) (l : Logged F) :
    readMessages accept s l.frag =
      ((readMessages accept s l).1, (readMessages accept s l).2.frag) := by
  obtain ⟨f, log⟩ := l
  induction f using drain_induction generalizing s log with
  | dry f f' h =>
    have hp : pull f = (none, f') := h
    have hl : pull (⟨f, log⟩ : Logged F) = (none, ⟨f', log⟩) := by
      rw [pull_eq, hp]
      simp
    rw [readMessages, readMessages, consume_dry _ _ h, consume_dry _ _ hl]
  | item f i f' h ih =>
    have hp : pull f = (some i, f') := h
    have hl : pull (⟨f, log⟩ : Logged F) = (some i, ⟨f', log ++ i.toList.map .completed⟩) := by
      rw [pull_eq, hp]
      simp
    cases i with
    | none =>
      rw [readMessages_pull accept s hp, readMessages_pull accept s hl]
      exact ih s _
    | some m =>
      rw [readMessages_message accept s hp, readMessages_message accept s hl]
      cases accept s m with
      | error err => rfl
      | ok s' => exact ih s' _

namespace ImapSend

variable {M F : Type} [Fragmentizer F]

omit [Fragmentizer F] in
theorem serialize_erase (s : ImapSend M) (sent : Sent M) (l : Logged F)
    {next : ImapSend M → ImapSendResult M × ImapSend M × F}
    {next' : ImapSend M → ImapSendResult M × ImapSend M × Logged F}
    (h : ∀ s, next s = Logged.erase (next' s)) :
    s.serialize sent l.frag next = Logged.erase (s.serialize sent l next') := by
  rw [serialize, serialize]
  split
  · exact h _
  · rfl

omit [Fragmentizer F] in
theorem settle_erase (s : ImapSend M) (sent : Sent M) (l : Logged F) :
    s.settle sent l.frag = Logged.erase (s.settle sent l) := by
  unfold settle
  split_ifs
  · rfl
  · exact s.serialize_erase sent l fun _ => rfl
  · rfl

theorem read_erase (s : ImapSend M) (sent : Sent M) (l : Logged F) (arg : Option Bytes) :
    s.read sent l.frag arg = Logged.erase (s.read sent l arg) := by
  rcases arg with - | (- | ⟨b, bs⟩)
  · rfl
  · rfl
  · have hfed := Logged.readMessages_erase (accept sent.tag) s (enqueueBytes l (b :: bs))
    have hfrag : (enqueueBytes l (b :: bs)).frag = enqueueBytes l.frag (b :: bs) := rfl
    rw [hfrag] at hfed
    show s.deserialize sent (enqueueBytes l.frag (b :: bs)) =
      Logged.erase (s.deserialize sent (enqueueBytes l (b :: bs)))
    rw [deserialize, deserialize, hfed]
    rcases readMessages (accept sent.tag) s (enqueueBytes l (b :: bs)) with ⟨err | s', l'⟩
    · rfl
    · exact settle_erase s' sent l'

theorem resume_erase [TryFrom Bytes Tag] [Encoder M] (s : ImapSend M) (l : Logged F)
    (arg : Option Bytes) : s.resume l.frag arg = Logged.erase (s.resume l arg) := by
  unfold resume
  cases s.state with
  | tag command requested =>
    rcases arg with - | bytes
    · cases requested <;> rfl
    · dsimp only
      cases (TryFrom.tryFrom bytes : Except ValidationError Tag) with
      | error err => rfl
      | ok tag => exact serialize_erase _ _ l fun _ => rfl
  | serialize sent => exact serialize_erase _ _ l fun s => read_erase s sent l arg
  | read sent => exact read_erase s sent l arg

end ImapSend

theorem commandResume_erase {V F : Type} [Fragmentizer F] [TryFrom Bytes Tag] [Encoder Command]
    (decode : ImapSendOutput Command → V) (send : ImapSend Command) (l : Logged F)
    (arg : Option Bytes) :
    commandResume decode send l.frag arg = Logged.erase (commandResume decode send l arg) := by
  rw [commandResume, commandResume, ImapSend.resume_erase]
  rfl

theorem commandCoroutine_unlogged {V : Type} [TryFrom Bytes Tag] [Encoder Command]
    (decode : ImapSendOutput Command → V) : (commandCoroutine decode).Unlogged :=
  fun send l arg _ => commandResume_erase decode send l arg

end IoImap
