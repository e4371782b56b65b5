import IoImap.Client.Returning
import IoImap.Command

/-!
# What an exchange lives on

An exchange asks for its tag once, writes at once what it may, and from then on writes only
in answer to a read.
-/

namespace IoImap

namespace ImapSend

variable {M F : Type}

/-- What is left of an exchange before its next read. -/
def budget (s : ImapSend M) (arg : Option Bytes) : Nat :=
  match s.state with
  | .tag _ tagRequested => if tagRequested then 3 else 4
  | .serialize _ => 2 + readBudget arg
  | .read _ => readBudget arg

abbrev FrugalAt (before : Nat) (r : ImapSendResult M × ImapSend M × F) : Prop :=
  Frugal ImapYield.request budget before r.1 r.2.1

theorem budget_new [Encoder M] (message : M) (tag : Tag) : (new message tag).budget none = 3 := rfl

theorem awaitRead_frugal (s : ImapSend M) (sent : Sent M) (f : F) {before : Nat} (h : 1 ≤ before) :
    FrugalAt before (s.awaitRead sent f) :=
  .reads rfl (fun _ => rfl) h

theorem serialize_frugal {s : ImapSend M} {sent : Sent M} {f : F}
    {next : ImapSend M → ImapSendResult M × ImapSend M × F} {before : Nat} (h : 2 ≤ before)
    (hnext : ∀ s, FrugalAt before (next s)) : FrugalAt before (s.serialize sent f next) := by
  unfold serialize
  dsimp only
  split
  · exact hnext _
  · refine .asks fun answer hans => ?_
    obtain rfl := Request.answeredBy_nothing.mp hans
    exact h

theorem settle_frugal (s : ImapSend M) (sent : Sent M) (f : F) :
    FrugalAt PER_READ (s.settle sent f) := by
  unfold settle
  split
  · exact Nat.le_refl PER_READ
  · split
    · exact serialize_frugal (by decide) fun s => s.awaitRead_frugal sent f (by decide)
    · exact s.awaitRead_frugal sent f (by decide)

variable [Fragmentizer F]

theorem read_frugal (s : ImapSend M) (sent : Sent M) (f : F) (arg : Option Bytes) :
    FrugalAt (readBudget arg) (s.read sent f arg) := by
  rcases arg with - | (- | ⟨b, bs⟩)
  · exact s.awaitRead_frugal sent f (Nat.le_refl 1)
  · trivial
  · rw [read, deserialize]
    · split
      · exact settle_frugal _ sent _
      · trivial
    · simp

theorem resume_frugal [TryFrom Bytes Tag] [Encoder M] (s : ImapSend M) (f : F) (arg : Option Bytes) :
    FrugalAt (s.budget arg) (s.resume f arg) := by
  unfold resume budget
  cases hs : s.state with
  | tag command tagRequested =>
    rcases arg with - | bytes
    · cases tagRequested with
      | true => trivial
      | false => exact .asks fun _ _ => Nat.lt_succ_self 3
    · have hleft : 2 ≤ if tagRequested then 3 else 4 := by split <;> decide
      dsimp only
      cases (TryFrom.tryFrom bytes : Except ValidationError Tag) with
      | error err => trivial
      | ok tag => exact serialize_frugal hleft fun s => s.awaitRead_frugal _ f (Nat.le_of_succ_le hleft)
  | serialize sent =>
    exact serialize_frugal (Nat.le_add_right 2 _) fun s => (s.read_frugal sent f arg).mono (Nat.le_add_left _ 2)
  | read sent => exact s.read_frugal sent f arg

end ImapSend

/-- The resume of a command lives on what its exchange lives on. -/
theorem commandResume_frugal {V F : Type} [Fragmentizer F] [TryFrom Bytes Tag] [Encoder Command]
    (decode : ImapSendOutput Command → V) (send : ImapSend Command) (f : F) (arg : Option Bytes) :
    Frugal ImapYield.request ImapSend.budget (send.budget arg) (commandResume decode send f arg).1
      (commandResume decode send f arg).2.1 :=
  (send.resume_frugal f arg).tryOk

end IoImap
