import Mathlib.Data.List.Pairwise
import Mathlib.Data.List.Sort
import Mathlib.Data.Prod.Lex
import Mathlib.Order.Monotone.Monovary

/-!
# Sorting both sides of a pairing

Two lists of the same length pair their elements by position. Sorting each of
them on its own pairs them anew, and that gives the same pairs exactly when the
second component of a pair grows with the first.
-/

namespace Pairing

variable {α β : Type*}

theorem pairwise_zip {R : α → α → Prop} {S : β → β → Prop} {xs : List α} {ys : List β}
    (hxs : xs.Pairwise R) (hys : ys.Pairwise S) :
    (xs.zip ys).Pairwise fun p q => R p.1 q.1 ∧ S p.2 q.2 := by
  induction xs generalizing ys with
  | nil => simp
  | cons x xs ih =>
    cases ys with
    | nil => simp
    | cons y ys =>
      obtain ⟨hx, hxs⟩ := List.pairwise_cons.mp hxs
      obtain ⟨hy, hys⟩ := List.pairwise_cons.mp hys
      rw [List.zip_cons_cons, List.pairwise_cons]
      refine ⟨fun q hq => ?_, ih hxs hys⟩
      obtain ⟨hq₁, hq₂⟩ := List.of_mem_zip hq
      exact ⟨hx _ hq₁, hy _ hq₂⟩

theorem zip_map_fst_snd (zs : List (α × β)) : (zs.map Prod.fst).zip (zs.map Prod.snd) = zs := by
  induction zs with
  | nil => rfl
  | cons z zs ih => rw [List.map_cons, List.map_cons, List.zip_cons_cons, ih]

variable [LinearOrder α] [LinearOrder β]

/-- In a list of pairs sorted in both components, the second grows with the first. -/
theorem monovaryOn_of_sorted {zs : List (α × β)}
    (h : zs.Pairwise fun p q => p.1 ≤ q.1 ∧ p.2 ≤ q.2) : MonovaryOn Prod.snd Prod.fst {p | p ∈ zs} := by
  let R (p q : α × β) : Prop := (p.1 < q.1 → p.2 ≤ q.2) ∧ (q.1 < p.1 → q.2 ≤ p.2)
  have hsymm : Std.Symm R := ⟨fun p q hpq => ⟨hpq.2, hpq.1⟩⟩
  have hR : zs.Pairwise R :=
    h.imp fun hpq => ⟨fun _ => hpq.2, fun hlt => absurd hpq.1 hlt.not_ge⟩
  have hall := List.Pairwise.forall_of_forall
    (fun p _ => (⟨fun _ => le_rfl, fun _ => le_rfl⟩ : R p p)) hR
  exact fun p hp q hq hlt => (hall hp hq).1 hlt

/-- Sorted by the first component and then by the second, such pairs are sorted in both. -/
theorem sorted_of_monovaryOn {zs : List (α × β)} (h : MonovaryOn Prod.snd Prod.fst {p | p ∈ zs}) :
    ∃ ws : List (α × β), ws.Perm zs ∧ ws.Pairwise fun p q => p.1 ≤ q.1 ∧ p.2 ≤ q.2 := by
  let le (p q : α × β) : Bool := decide (toLex p ≤ toLex q)
  have hperm := List.mergeSort_perm zs le
  refine ⟨zs.mergeSort le, hperm, ?_⟩
  have hsorted : (zs.mergeSort le).Pairwise fun p q => le p q := by
    refine List.pairwise_mergeSort ?_ ?_ zs
    · intro p q r hpq hqr
      simp only [le, decide_eq_true_eq] at hpq hqr ⊢
      exact hpq.trans hqr
    · intro p q
      simpa [le] using le_total (toLex p) (toLex q)
  refine hsorted.imp_of_mem fun {p q} hp hq hpq => ?_
  simp only [le, decide_eq_true_eq, Prod.Lex.toLex_le_toLex] at hpq
  rcases hpq with hlt | ⟨heq, hle⟩
  · exact ⟨hlt.le, h (hperm.mem_iff.mp hp) (hperm.mem_iff.mp hq) hlt⟩
  · exact ⟨heq.le, hle⟩

variable {xs xs' : List α} {ys ys' : List β}

/-- Sorting each side keeps the pairs exactly when they grow together. -/
theorem zip_sorted_perm_iff (hlen : xs.length = ys.length) (hxs : xs'.Perm xs) (hys : ys'.Perm ys)
    (hxs' : xs'.SortedLE) (hys' : ys'.SortedLE) :
    (xs'.zip ys').Perm (xs.zip ys) ↔ MonovaryOn Prod.snd Prod.fst {p | p ∈ xs.zip ys} := by
  constructor
  · intro hperm
    have hmono := monovaryOn_of_sorted (pairwise_zip hxs'.pairwise hys'.pairwise)
    intro p hp q hq hlt
    exact hmono (hperm.mem_iff.mpr hp) (hperm.mem_iff.mpr hq) hlt
  · intro hmono
    obtain ⟨zs, hperm, hsorted⟩ := sorted_of_monovaryOn hmono
    have hfst : zs.map Prod.fst = xs' := by
      have hmap : (zs.map Prod.fst).Perm xs' := by
        have hzip := hperm.map Prod.fst
        rw [List.map_fst_zip hlen.le] at hzip
        exact hzip.trans hxs.symm
      exact hmap.eq_of_sortedLE (List.Pairwise.sortedLE (hsorted.map _ fun _ _ h => h.1)) hxs'
    have hsnd : zs.map Prod.snd = ys' := by
      have hmap : (zs.map Prod.snd).Perm ys' := by
        have hzip := hperm.map Prod.snd
        rw [List.map_snd_zip hlen.ge] at hzip
        exact hzip.trans hys.symm
      exact hmap.eq_of_sortedLE (List.Pairwise.sortedLE (hsorted.map _ fun _ _ h => h.2)) hys'
    rw [← hfst, ← hsnd, zip_map_fst_snd]
    exact hperm

end Pairing
