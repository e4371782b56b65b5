import Mathlib.Data.Char
import Mathlib.Data.List.Basic

/-!
# UTF-16

Characters as code units and back. What is no encoding of a character is read as the
replacement character, one unit at a time.
-/

namespace Utf16

def IsHigh (u : Nat) : Prop := 0xD800 ≤ u ∧ u ≤ 0xDBFF

def IsLow (u : Nat) : Prop := 0xDC00 ≤ u ∧ u ≤ 0xDFFF

instance (u : Nat) : Decidable (IsHigh u) := inferInstanceAs (Decidable (_ ∧ _))

instance (u : Nat) : Decidable (IsLow u) := inferInstanceAs (Decidable (_ ∧ _))

/-- The code units of a character: itself, or a surrogate pair. -/
def units (c : Char) : List Nat :=
  if c.toNat < 0x10000 then [c.toNat]
  else [0xD800 + (c.toNat - 0x10000) / 0x400, 0xDC00 + (c.toNat - 0x10000) % 0x400]

def replacement : Char := '\uFFFD'

def decodeLossy : List Nat → List Char
  | [] => []
  | [u] => [if IsHigh u ∨ IsLow u then replacement else Char.ofNat u]
  | u :: v :: us =>
    if IsHigh u ∨ IsLow u then
      if IsHigh u ∧ IsLow v then
        Char.ofNat (0x10000 + (u - 0xD800) * 0x400 + (v - 0xDC00)) :: decodeLossy us
      else replacement :: decodeLossy (v :: us)
    else Char.ofNat u :: decodeLossy (v :: us)

theorem decodeLossy_cons {u : Nat} (h : ¬ (IsHigh u ∨ IsLow u)) (us : List Nat) :
    decodeLossy (u :: us) = Char.ofNat u :: decodeLossy us := by
  cases us with
  | nil => simp [decodeLossy, h]
  | cons v us => rw [decodeLossy, if_neg h]

theorem not_surrogate (c : Char) : ¬ (IsHigh c.toNat ∨ IsLow c.toNat) := by
  have hvalid : c.toNat < 0xD800 ∨ 0xDFFF < c.toNat ∧ c.toNat < 0x110000 := c.valid
  unfold IsHigh IsLow
  omega

theorem lt_of_char (c : Char) : c.toNat < 0x110000 := by
  have hvalid : c.toNat < 0xD800 ∨ 0xDFFF < c.toNat ∧ c.toNat < 0x110000 := c.valid
  omega

/-- The units of a character are read back, whatever follows them. -/
theorem decodeLossy_units (c : Char) (us : List Nat) :
    decodeLossy (units c ++ us) = c :: decodeLossy us := by
  unfold units
  split
  · rw [List.singleton_append, decodeLossy_cons (not_surrogate c), Char.ofNat_toNat]
  · rename_i hastral
    have hlt := lt_of_char c
    have hhigh : IsHigh (0xD800 + (c.toNat - 0x10000) / 0x400) := by
      unfold IsHigh
      omega
    have hlow : IsLow (0xDC00 + (c.toNat - 0x10000) % 0x400) := by
      unfold IsLow
      omega
    have hvalue : 0x10000 + (0xD800 + (c.toNat - 0x10000) / 0x400 - 0xD800) * 0x400 +
        (0xDC00 + (c.toNat - 0x10000) % 0x400 - 0xDC00) = c.toNat := by
      omega
    rw [List.cons_append, List.singleton_append, decodeLossy, if_pos (.inl hhigh),
      if_pos ⟨hhigh, hlow⟩, hvalue, Char.ofNat_toNat]

theorem decodeLossy_flatMap (cs : List Char) : decodeLossy (cs.flatMap units) = cs := by
  induction cs with
  | nil => rfl
  | cons c cs ih => rw [List.flatMap_cons, decodeLossy_units, ih]

end Utf16
