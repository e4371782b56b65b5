import Mathlib.Data.List.Pairwise
import Mathlib.Data.List.Sort

/-!
# Stable sorting by a comparator

A comparator that leaves two elements unordered leaves them in the order they came
in. So a list that is in some order to begin with is sorted by the comparator first
and by that order where the comparator does not decide.
-/

namespace Pairing

variable {α : Type*} {cmp : α → α → Ordering}

/-- What `slice::sort_by` asks of a comparator: any two elements are comparable, the order
is transitive, and two elements each not behind the other are equal to it. -/
structure TotalPreorder (cmp : α → α → Ordering) : Prop where
  total : ∀ a b, (cmp a b).isLE ∨ (cmp b a).isLE
  trans : ∀ a b c, (cmp a b).isLE → (cmp b c).isLE → (cmp a c).isLE
  antisymm : ∀ a b, (cmp a b).isLE → (cmp b a).isLE → cmp a b = .eq
  swap : ∀ a b, cmp b a = (cmp a b).swap

theorem totalPreorder [Std.TransCmp cmp] : TotalPreorder cmp where
  total a b := by
    have hswap : cmp b a = (cmp a b).swap := Std.OrientedCmp.eq_swap
    rw [hswap]
    cases cmp a b <;> simp
  trans a b c := Std.TransCmp.isLE_trans
  antisymm a b := Std.OrientedCmp.isLE_antisymm
  swap a b := Std.OrientedCmp.eq_swap

variable (cmp) in
theorem transCmp_comap {β : Type*} [Std.TransCmp cmp] (f : β → α) :
    Std.TransCmp fun a b => cmp (f a) (f b) where
  eq_swap {a b} :=
    show cmp (f a) (f b) = (cmp (f b) (f a)).swap from Std.OrientedCmp.eq_swap
  isLE_trans {a b c} :=
    show (cmp (f a) (f b)).isLE → (cmp (f b) (f c)).isLE → (cmp (f a) (f c)).isLE from
      Std.TransCmp.isLE_trans

variable (cmp) in
theorem transCmp_swap [Std.TransCmp cmp] : Std.TransCmp fun a b => (cmp a b).swap where
  eq_swap := congrArg Ordering.swap Std.OrientedCmp.eq_swap
  isLE_trans {a b c} hab hbc := by
    rw [← totalPreorder.swap] at hab hbc ⊢
    exact Std.TransCmp.isLE_trans hbc hab

/-- Two elements of a list without repetitions stand in it in one order. -/
theorem not_sublist_swap {l : List α} (hl : l.Nodup) {a b : α} (h : [a, b].Sublist l) :
    ¬ [b, a].Sublist l := by
  induction l with
  | nil => simp at h
  | cons x l ih =>
    obtain ⟨hx, hl⟩ := List.nodup_cons.mp hl
    intro hswap
    rcases List.sublist_cons_iff.mp h with hrest | ⟨_, he, hb⟩
    · rcases List.sublist_cons_iff.mp hswap with hswap | ⟨_, he, -⟩
      · exact ih hl hrest hswap
      · obtain ⟨rfl, -⟩ := List.cons.inj he
        exact hx (hrest.subset (List.mem_cons_of_mem _ (List.mem_singleton_self _)))
    · obtain ⟨rfl, rfl⟩ := List.cons.inj he
      have hmem : a ∈ l := by
        rcases List.sublist_cons_iff.mp hswap with hswap | ⟨_, he, ha⟩
        · exact hswap.subset (List.mem_cons_of_mem _ (List.mem_singleton_self _))
        · obtain ⟨-, rfl⟩ := List.cons.inj he
          exact ha.subset (List.mem_singleton_self _)
      exact hx hmem

/-- Sorting keeps two elements that the comparator does not tell apart in their order. -/
theorem pairwise_stable [Std.TransCmp cmp] {r : α → α → Prop} {l : List α} (hl : l.Pairwise r)
    (hr : ∀ a, ¬ r a a) :
    (l.mergeSort fun a b => (cmp a b).isLE).Pairwise fun a b =>
      cmp a b = .lt ∨ (cmp a b = .eq ∧ r a b) := by
  have htrans (a b c : α) : (cmp a b).isLE → (cmp b c).isLE → (cmp a c).isLE :=
    Std.TransCmp.isLE_trans
  have htotal (a b : α) : (cmp a b).isLE || (cmp b a).isLE := by
    rw [Bool.or_eq_true]
    exact totalPreorder.total a b
  have hsorted := List.pairwise_mergeSort htrans htotal l
  have hnodup : l.Nodup := by
    refine hl.imp fun {a b} hab => ?_
    rintro rfl
    exact hr a hab
  have hnodup' := (List.mergeSort_perm l fun a b => (cmp a b).isLE).nodup_iff.mpr hnodup
  have hsymm : Std.Symm fun a b => [a, b].Sublist l ∨ [b, a].Sublist l := ⟨fun _ _ => Or.symm⟩
  have hpairs : l.Pairwise fun a b => [a, b].Sublist l ∨ [b, a].Sublist l :=
    List.pairwise_of_forall_sublist .inl
  rw [List.pairwise_iff_forall_sublist] at hsorted ⊢
  intro a b hab
  have hle := hsorted hab
  cases hcmp : cmp a b with
  | lt => exact .inl rfl
  | gt => simp [hcmp] at hle
  | eq =>
    refine .inr ⟨rfl, ?_⟩
    have hmem (x : α) (hx : x ∈ [a, b]) : x ∈ l := List.mem_mergeSort.mp (hab.subset hx)
    have hne : a ≠ b := by
      rintro rfl
      exact not_sublist_swap hnodup' hab hab
    rcases hpairs.forall (hmem a (by simp)) (hmem b (by simp)) hne with h | h
    · exact List.pairwise_iff_forall_sublist.mp hl h
    · -- sorting keeps the two in the order of the list, and they stand in the other one
      have heq : (cmp b a).isLE := by
        have hswap : cmp b a = (cmp a b).swap := Std.OrientedCmp.eq_swap
        rw [hswap, hcmp]
        rfl
      exact absurd (List.pair_sublist_mergeSort htrans htotal heq h) (not_sublist_swap hnodup' hab)

end Pairing
