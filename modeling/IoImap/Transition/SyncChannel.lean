import Mathlib.Data.List.Basic

/-!
# Channels of bounded capacity

A synchronous channel holds what was sent and not yet received, in its order and never
more than its bound: sending to a full channel has to wait for a receive.
-/

namespace Transition

structure SyncChannel (α : Type*) (bound : Nat) where
  items : List α
  fits : items.length ≤ bound

namespace SyncChannel

variable {α : Type*} {bound : Nat}

def empty : SyncChannel α bound := ⟨[], Nat.zero_le bound⟩

def Full (c : SyncChannel α bound) : Prop := c.items.length = bound

def Sends (c : SyncChannel α bound) (a : α) (d : SyncChannel α bound) : Prop := d.items = c.items ++ [a]

def Receives (c : SyncChannel α bound) (a : α) (d : SyncChannel α bound) : Prop :=
  c.items = a :: d.items

variable {c d : SyncChannel α bound} {a : α}

theorem Sends.length (h : c.Sends a d) : d.items.length = c.items.length + 1 := by
  rw [h, List.length_append, List.length_singleton]

/-- A send goes through exactly where there is room. -/
theorem sends_iff : (∃ d, c.Sends a d) ↔ ¬ c.Full := by
  constructor
  · rintro ⟨d, h⟩ hfull
    have hlength := h.length
    have hfits := d.fits
    rw [Full] at hfull
    omega
  · intro h
    have hroom : (c.items ++ [a]).length ≤ bound := by
      rw [List.length_append, List.length_singleton]
      exact Nat.lt_of_le_of_ne c.fits h
    exact ⟨⟨c.items ++ [a], hroom⟩, rfl⟩

end SyncChannel
end Transition
