import IoImap.Codec.LineFragmentizer

/-!
# The reply to a streamed FETCH on the wire

What the streaming coroutines are to make of the octets a server sends, however
the octets are cut: line by line through the fragmentizer, the literal that a
line announces past it, up to the first tagged status. A `Position` is a point
inside such a reply; it determines how the reply ends on whatever comes next.
-/

namespace IoImap
open Fragmentizer

/-- imap-codec's buffer of octets that no fragment has been taken from yet. -/
class UnparsedBuffer (F : Type) [Fragmentizer F] where
  unparsed : F → Bytes
  unparsed_enqueueBytes : ∀ (f : F) (b : Bytes), unparsed (enqueueBytes f b) = unparsed f ++ b

instance {decode : Bytes → Except DecodeMessageError Response} :
    UnparsedBuffer (LineFragmentizer decode) where
  unparsed f := f.unread
  unparsed_enqueueBytes _ _ := rfl

/-- The reply that `wire` starts with: the fragmentizer at its first tagged status
and the octets behind it. -/
def reply {F : Type} [Fragmentizer F] (f : F) (wire : Bytes) : Option (F × Bytes) :=
  match _h : splitLine wire with
  | none => none
  | some (line, rest) =>
    match progress (enqueueBytes f line) with
    | (some (.line (some announcement)), f') =>
      reply (skipMessage f') (rest.drop announcement.length)
    | (some (.line none), f') =>
      match decodeMessage f' with
      | .ok (.status (.tagged _)) => some (f', rest)
      | _ => reply f' rest
    | (_, f') => reply f' rest
termination_by wire.length
decreasing_by
  all_goals
    obtain ⟨hw, hne⟩ := splitLine_eq _h
    have hpos := List.length_pos_of_ne_nil hne
    simp only [hw, List.length_append, List.length_drop]
    omega

section Reply

variable {F : Type} [Fragmentizer F] {f f' : F} {wire line rest : Bytes}

theorem reply_line (hl : splitLine wire = some (line, rest)) :
    reply f wire =
      match progress (enqueueBytes f line) with
      | (some (.line (some announcement)), f') =>
        reply (skipMessage f') (rest.drop announcement.length)
      | (some (.line none), f') =>
        match decodeMessage f' with
        | .ok (.status (.tagged _)) => some (f', rest)
        | _ => reply f' rest
      | (_, f') => reply f' rest := by
  rw [reply]
  split
  · simp_all
  · rename_i l r heq
    rw [hl] at heq
    obtain ⟨rfl, rfl⟩ : line = l ∧ rest = r := by simpa using heq
    rfl

theorem reply_literal {a : LiteralAnnouncement} (hl : splitLine wire = some (line, rest))
    (hp : progress (enqueueBytes f line) = (some (.line (some a)), f')) :
    reply f wire = reply (skipMessage f') (rest.drop a.length) := by
  rw [reply_line hl]
  simp only [hp]

theorem reply_tagged {t : Tagged} (hl : splitLine wire = some (line, rest))
    (hp : progress (enqueueBytes f line) = (some (.line none), f'))
    (hd : decodeMessage f' = .ok (.status (.tagged t))) : reply f wire = some (f', rest) := by
  rw [reply_line hl]
  simp only [hp, hd]

theorem reply_passes (hl : splitLine wire = some (line, rest))
    (hp : progress (enqueueBytes f line) = (some (.line none), f'))
    (hd : ∀ t, decodeMessage f' ≠ .ok (.status (.tagged t))) : reply f wire = reply f' rest := by
  rw [reply_line hl]
  simp only [hp]

theorem reply_continues {i : Option FragmentInfo} (hl : splitLine wire = some (line, rest))
    (hp : progress (enqueueBytes f line) = (i, f')) (hi : ∀ a, i ≠ some (.line a)) :
    reply f wire = reply f' rest := by
  rw [reply_line hl]
  rcases i with - | (a | -)
  · simp only [hp]
  · exact absurd rfl (hi a)
  · simp only [hp]

end Reply

/-- A point inside a reply: the fragmentizer, the octets read but not looked at,
and inside a literal the number of its octets still to come. -/
structure Position (F : Type) where
  frag : F
  pending : Bytes
  body : Option Nat

namespace Position

variable {F : Type} [Fragmentizer F]

def ending (p : Position F) (wire : Bytes) : Option (F × Bytes) :=
  match p.body with
  | none => reply p.frag (p.pending ++ wire)
  | some n => reply (skipMessage p.frag) ((p.pending ++ wire).drop n)

/-- Taking `taken` off the wire leads from `p` to `q` inside the same reply. -/
def Moves (p : Position F) (taken : Bytes) (q : Position F) : Prop :=
  ∀ wire, p.ending (taken ++ wire) = q.ending wire

def Ends (p : Position F) (taken : Bytes) (f : F) (pending : Bytes) : Prop :=
  ∀ wire, p.ending (taken ++ wire) = some (f, pending ++ wire)

section Moves

variable {p q r : Position F} {f f' : F} {taken pending line rest : Bytes} {n : Nat}

theorem Moves.refl (p : Position F) : p.Moves [] p := fun _ => rfl

theorem Moves.trans (h : p.Moves taken q) (k : q.Moves [] r) : p.Moves taken r := by
  intro wire
  rw [h wire]
  exact k wire

theorem Moves.ends (h : p.Moves taken q) (k : q.Ends [] f pending) : p.Ends taken f pending := by
  intro wire
  rw [h wire]
  exact k wire

theorem moves_read (f : F) (pending taken : Bytes) :
    Moves ⟨f, pending, none⟩ taken ⟨f, pending ++ taken, none⟩ := by
  intro wire
  simp only [ending, List.append_assoc]

theorem moves_chunk (f : F) (pending : Bytes) {k : Nat} (hn : k ≤ n) (hk : k ≤ pending.length) :
    Moves ⟨f, pending, some n⟩ [] ⟨f, pending.drop k, some (n - k)⟩ := by
  intro wire
  have hsplit : (pending ++ wire).drop k = pending.drop k ++ wire := List.drop_append_of_le_length hk
  have hsum : k + (n - k) = n := by omega
  simp only [ending, List.nil_append]
  rw [← hsplit, List.drop_drop, hsum]

theorem moves_copy (f : F) (h : taken.length = n) : Moves ⟨f, [], some n⟩ taken ⟨f, [], some 0⟩ := by
  intro wire
  simp only [ending, List.nil_append, List.drop_zero]
  rw [List.drop_append_of_le_length (by omega), ← h, List.drop_length, List.nil_append]

theorem moves_close (f : F) (pending : Bytes) :
    Moves ⟨f, pending, some 0⟩ [] ⟨skipMessage f, pending, none⟩ := by
  intro wire
  simp only [ending, List.nil_append, List.drop_zero]

theorem moves_literal {a : LiteralAnnouncement} (hl : splitLine pending = some (line, rest))
    (hp : progress (enqueueBytes f line) = (some (.line (some a)), f')) :
    Moves ⟨f, pending, none⟩ [] ⟨f', rest, some a.length⟩ := by
  intro wire
  simp only [ending, List.nil_append]
  exact reply_literal (splitLine_append hl wire) hp

theorem moves_passes (hl : splitLine pending = some (line, rest))
    (hp : progress (enqueueBytes f line) = (some (.line none), f'))
    (hd : ∀ t, decodeMessage f' ≠ .ok (.status (.tagged t))) :
    Moves ⟨f, pending, none⟩ [] ⟨f', rest, none⟩ := by
  intro wire
  simp only [ending, List.nil_append]
  exact reply_passes (splitLine_append hl wire) hp hd

theorem moves_continues {i : Option FragmentInfo} (hl : splitLine pending = some (line, rest))
    (hp : progress (enqueueBytes f line) = (i, f')) (hi : ∀ a, i ≠ some (.line a)) :
    Moves ⟨f, pending, none⟩ [] ⟨f', rest, none⟩ := by
  intro wire
  simp only [ending, List.nil_append]
  exact reply_continues (splitLine_append hl wire) hp hi

theorem ends_tagged {t : Tagged} (hl : splitLine pending = some (line, rest))
    (hp : progress (enqueueBytes f line) = (some (.line none), f'))
    (hd : decodeMessage f' = .ok (.status (.tagged t))) :
    Ends ⟨f, pending, none⟩ [] f' rest := by
  intro wire
  simp only [ending, List.nil_append]
  exact reply_tagged (splitLine_append hl wire) hp hd

end Moves
end Position
end IoImap
