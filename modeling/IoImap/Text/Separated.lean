import Mathlib.Data.List.Basic

/-!
# Fields between separators

A text of one or more fields with a separator between each two, and the readers that
split it at every separator and read each part on its own.
-/

namespace Separated

variable {α β : Type*} {sep : α}

/-- `field *(sep field)`, with what the fields denote. -/
inductive Fields (sep : α) (Field : List α → β → Prop) : List α → List β → Prop where
  | last {text : List α} {x : β} (hfield : Field text x) : Fields sep Field text [x]
  | cons {text rest : List α} {x : β} {xs : List β} (hfield : Field text x)
      (hrest : Fields sep Field rest xs) : Fields sep Field (text ++ sep :: rest) (x :: xs)

variable {Field : List α → β → Prop}

theorem Fields.forall_mem {p : α → Prop} (hsep : p sep)
    (hfield : ∀ text x, Field text x → ∀ a ∈ text, p a) {text : List α} {xs : List β}
    (h : Fields sep Field text xs) : ∀ a ∈ text, p a := by
  induction h with
  | last hlast => exact hfield _ _ hlast
  | cons hfirst _ ih =>
    intro a ha
    rcases List.mem_append.mp ha with ha | ha
    · exact hfield _ _ hfirst a ha
    · rcases List.mem_cons.mp ha with rfl | ha
      · exact hsep
      · exact ih a ha

variable [DecidableEq α]

/-- The first part ends at the first separator. -/
theorem splitOn_cases (sep : α) (text : List α) :
    (sep ∉ text ∧ text.splitOn sep = [text]) ∨
      ∃ first rest, text = first ++ sep :: rest ∧ sep ∉ first ∧
        text.splitOn sep = first :: rest.splitOn sep := by
  by_cases hmem : sep ∈ text
  · obtain ⟨first, rest, rfl, hfirst⟩ := List.eq_append_cons_of_mem hmem
    exact .inr ⟨first, rest, rfl, hfirst, List.splitOn_append_cons_self_of_not_mem hfirst rest⟩
  · exact .inl ⟨hmem, List.splitOn_eq_singleton hmem⟩

theorem notMem_of_mem_splitOn {text part : List α} (h : part ∈ text.splitOn sep) : sep ∉ part := by
  generalize hparts : text.splitOn sep = parts at h
  induction parts generalizing text with
  | nil => cases h
  | cons head parts ih =>
    obtain ⟨hno, hsplit⟩ | ⟨first, rest, -, hfirst, hsplit⟩ := splitOn_cases sep text
    · rw [hsplit] at hparts
      obtain ⟨rfl, rfl⟩ := List.cons.inj hparts
      rw [List.mem_singleton.mp h]
      exact hno
    · rw [hsplit] at hparts
      obtain ⟨rfl, hrest⟩ := List.cons.inj hparts
      rcases List.mem_cons.mp h with rfl | h
      · exact hfirst
      · exact ih hrest h

/-- The parts are the one way to write the text as parts without a separator. -/
theorem splitOn_eq_iff {text : List α} {parts : List (List α)} :
    text.splitOn sep = parts ↔
      parts ≠ [] ∧ (∀ part ∈ parts, sep ∉ part) ∧ [sep].intercalate parts = text := by
  constructor
  · intro h
    refine ⟨?_, fun part hpart => notMem_of_mem_splitOn (h ▸ hpart), ?_⟩
    · rw [← h]
      exact List.splitOn_ne_nil sep text
    · rw [← h]
      exact List.intercalate_splitOn sep
  · intro h
    obtain ⟨hne, hno, rfl⟩ := h
    exact List.splitOn_intercalate sep hno hne

/-- Reading the parts one by one reads the text, when no field holds a separator. -/
theorem mapM_splitOn_eq_some {read : List α → Option β}
    (hread : ∀ text x, read text = some x ↔ Field text x)
    (hfield : ∀ text x, Field text x → sep ∉ text) {text : List α} {xs : List β} :
    (text.splitOn sep).mapM read = some xs ↔ Fields sep Field text xs := by
  constructor
  · intro h
    generalize hparts : text.splitOn sep = parts at h
    induction parts generalizing text xs with
    | nil => exact absurd hparts (List.splitOn_ne_nil sep text)
    | cons head parts ih =>
      rw [List.mapM_cons] at h
      obtain ⟨x, hx, h⟩ := Option.bind_eq_some_iff.mp h
      obtain ⟨ys, hys, h⟩ := Option.bind_eq_some_iff.mp h
      obtain rfl : x :: ys = xs := Option.some.inj h
      obtain ⟨-, hsplit⟩ | ⟨first, rest, rfl, -, hsplit⟩ := splitOn_cases sep text
      · rw [hsplit] at hparts
        obtain ⟨rfl, rfl⟩ := List.cons.inj hparts
        obtain rfl : [] = ys := Option.some.inj hys
        exact .last ((hread _ _).mp hx)
      · rw [hsplit] at hparts
        obtain ⟨rfl, hrest⟩ := List.cons.inj hparts
        exact .cons ((hread _ _).mp hx) (ih hrest hys)
  · intro h
    induction h with
    | last hlast =>
      rw [List.splitOn_eq_singleton (hfield _ _ hlast), List.mapM_cons, (hread _ _).mpr hlast]
      rfl
    | cons hfirst _ ih =>
      rw [List.splitOn_append_cons_self_of_not_mem (hfield _ _ hfirst), List.mapM_cons,
        (hread _ _).mpr hfirst, ih]
      rfl

theorem idxOf?_append_cons {before after : List α} (h : sep ∉ before) :
    (before ++ sep :: after).idxOf? sep = some before.length := by
  induction before with
  | nil => simp [List.idxOf?_cons]
  | cons a before ih =>
    rw [List.mem_cons, not_or] at h
    obtain ⟨hne, hno⟩ := h
    have hne' : (a == sep) = false := by simpa using Ne.symm hne
    rw [List.cons_append, List.idxOf?_cons, hne', ih hno]
    rfl

end Separated
