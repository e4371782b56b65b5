import Mathlib.Data.Finset.Basic
import Mathlib.Data.List.Nodup
import Mathlib.Data.List.Perm.Basic
import Mathlib.Logic.Function.Basic

/-!
# Changes of a labelled view

A view gives each key it holds a finite set of labels. A change adds or removes
a key, or adds or removes labels of one key; it is fresh for a view when it
changes everything it names. Assigning new contents to keys one after the other
emits changes that replay the assignments and are fresh where they are applied,
and assignments towards one target emit the same changes in whichever order they
come, as long as they visit every key that differs from it.
-/

namespace Replay

variable {K T : Type*}

abbrev View (K T : Type*) := K → Option (Finset T)

inductive Change (K T : Type*) where
  | added (key : K) (labels : Finset T)
  | removed (key : K)
  | labelled (key : K) (labels : Finset T)
  | unlabelled (key : K) (labels : Finset T)
  deriving DecidableEq

namespace Change

def key : Change K T → K
  | added k _ => k
  | removed k => k
  | labelled k _ => k
  | unlabelled k _ => k

def apply [DecidableEq K] [DecidableEq T] (v : View K T) : Change K T → View K T
  | added k ts => Function.update v k (some ts)
  | removed k => Function.update v k none
  | labelled k ts => Function.update v k ((v k).map (· ∪ ts))
  | unlabelled k ts => Function.update v k ((v k).map (· \ ts))

/-- A key that is added is absent, one that is removed or relabelled present;
some label changes, none is added that is set or removed that is not. -/
def Fresh (v : View K T) : Change K T → Prop
  | added k _ => v k = none
  | removed k => (v k).isSome
  | labelled k ts => ts.Nonempty ∧ ∃ s, v k = some s ∧ Disjoint ts s
  | unlabelled k ts => ts.Nonempty ∧ ∃ s, v k = some s ∧ ts ⊆ s

end Change

section Sequences

variable [DecidableEq K] [DecidableEq T] {v : View K T} {cs ds : List (Change K T)}

def replay (v : View K T) (cs : List (Change K T)) : View K T := cs.foldl Change.apply v

def FreshAll (v : View K T) : List (Change K T) → Prop
  | [] => True
  | c :: cs => c.Fresh v ∧ FreshAll (c.apply v) cs

@[simp] theorem replay_nil : replay v [] = v := rfl

@[simp] theorem replay_cons {c : Change K T} : replay v (c :: cs) = replay (c.apply v) cs := rfl

theorem replay_append : replay v (cs ++ ds) = replay (replay v cs) ds := List.foldl_append

@[simp] theorem freshAll_nil : FreshAll v ([] : List (Change K T)) := trivial

@[simp] theorem freshAll_cons {c : Change K T} :
    FreshAll v (c :: cs) ↔ c.Fresh v ∧ FreshAll (c.apply v) cs := Iff.rfl

theorem freshAll_append : FreshAll v (cs ++ ds) ↔ FreshAll v cs ∧ FreshAll (replay v cs) ds := by
  induction cs generalizing v with
  | nil => simp
  | cons c cs ih => simp [ih, and_assoc]

end Sequences

/-! ### The changes between two contents of a key -/

section Changes

variable [DecidableEq T] {k : K} {x y : Option (Finset T)}

def unlessEmpty (change : Finset T → Change K T) (labels : Finset T) : List (Change K T) :=
  if labels = ∅ then [] else [change labels]

theorem mem_unlessEmpty {change : Finset T → Change K T} {ts : Finset T} {c : Change K T} :
    c ∈ unlessEmpty change ts ↔ ts ≠ ∅ ∧ c = change ts := by
  by_cases h : ts = ∅ <;> simp [unlessEmpty, h]

def changes (k : K) : Option (Finset T) → Option (Finset T) → List (Change K T)
  | none, none => []
  | none, some t => [.added k t]
  | some _, none => [.removed k]
  | some s, some t => unlessEmpty (.labelled k) (t \ s) ++ unlessEmpty (.unlabelled k) (s \ t)

@[simp] theorem changes_self : changes k x x = [] := by
  cases x <;> simp [changes, unlessEmpty]

theorem key_of_mem_changes {c : Change K T} (h : c ∈ changes k x y) : c.key = k := by
  cases x <;> cases y <;> simp only [changes, List.mem_append, mem_unlessEmpty, List.mem_singleton,
    List.not_mem_nil] at h
  · exact h ▸ rfl
  · exact h ▸ rfl
  · rcases h with ⟨-, rfl⟩ | ⟨-, rfl⟩ <;> rfl

theorem changes_nodup : (changes k x y).Nodup := by
  cases x <;> cases y <;> simp only [changes, List.nodup_singleton, List.nodup_nil]
  case some.some s t =>
    by_cases hts : t \ s = ∅ <;> by_cases hst : s \ t = ∅ <;> simp [unlessEmpty, hts, hst]

variable [DecidableEq K] {v : View K T}

theorem replay_changes : replay v (changes k (v k) x) = Function.update v k x := by
  cases hv : v k with
  | none =>
    cases x with
    | none => simp [changes, ← hv]
    | some t => rfl
  | some s =>
    cases x with
    | none => rfl
    | some t =>
      have hlabelled : replay v (unlessEmpty (.labelled k) (t \ s)) =
          Function.update v k (some (s ∪ t)) := by
        by_cases h : t \ s = ∅
        · have hsub : t ⊆ s := Finset.sdiff_eq_empty_iff_subset.mp h
          simp [unlessEmpty, h, Finset.union_eq_left.mpr hsub, ← hv]
        · simp [unlessEmpty, h, Change.apply, hv]
      rw [changes, replay_append, hlabelled]
      by_cases h : s \ t = ∅
      · have hsub : s ⊆ t := Finset.sdiff_eq_empty_iff_subset.mp h
        simp [unlessEmpty, h, Finset.union_eq_right.mpr hsub]
      · have hleft : (s ∪ t) \ (s \ t) = t := by grind
        simp [unlessEmpty, h, Change.apply, hleft]

theorem fresh_changes : FreshAll v (changes k (v k) x) := by
  cases hv : v k with
  | none => cases x <;> simp [changes, Change.Fresh, hv]
  | some s =>
    cases x with
    | none => simp [changes, Change.Fresh, hv]
    | some t =>
      rw [changes, freshAll_append]
      constructor
      · by_cases h : t \ s = ∅
        · simp [unlessEmpty, h]
        · have hne : (t \ s).Nonempty := Finset.nonempty_iff_ne_empty.mpr h
          simpa [unlessEmpty, h, Change.Fresh, hv, hne] using Finset.sdiff_disjoint
      · by_cases h : s \ t = ∅
        · simp [unlessEmpty, h]
        · have hne : (s \ t).Nonempty := Finset.nonempty_iff_ne_empty.mpr h
          by_cases hts : t \ s = ∅
          · simp [unlessEmpty, h, hts, Change.Fresh, hv, hne]
          · have hsub : s ⊆ t ∪ (s ∪ t) :=
              Finset.subset_union_left.trans Finset.subset_union_right
            simpa [unlessEmpty, h, hts, Change.Fresh, Change.apply, hv, hne] using hsub

end Changes

/-! ### Assignments -/

abbrev Assignments (K T : Type*) := List (K × Option (Finset T))

section Assignments

variable [DecidableEq K] {v : View K T} {as bs : Assignments K T}

def assignAll (v : View K T) (as : Assignments K T) : View K T :=
  as.foldl (fun v a => Function.update v a.1 a.2) v

@[simp] theorem assignAll_cons {a : K × Option (Finset T)} :
    assignAll v (a :: as) = assignAll (Function.update v a.1 a.2) as := rfl

theorem assignAll_append : assignAll v (as ++ bs) = assignAll (assignAll v as) bs :=
  List.foldl_append

variable [DecidableEq T]

/-- What the assignments change, each against the view it meets. -/
def emits (v : View K T) : Assignments K T → List (Change K T)
  | [] => []
  | (k, x) :: as => changes k (v k) x ++ emits (Function.update v k x) as

theorem emits_append : emits v (as ++ bs) = emits v as ++ emits (assignAll v as) bs := by
  induction as generalizing v with
  | nil => rfl
  | cons a as ih => simp [emits, ih]

theorem replay_emits : replay v (emits v as) = assignAll v as := by
  induction as generalizing v with
  | nil => rfl
  | cons a as ih => rw [emits, replay_append, replay_changes, ih, assignAll_cons]

theorem fresh_emits : FreshAll v (emits v as) := by
  induction as generalizing v with
  | nil => trivial
  | cons a as ih =>
    rw [emits, freshAll_append, replay_changes]
    exact ⟨fresh_changes, ih⟩

end Assignments

/-! ### Assignments towards one target -/

section Target

variable [DecidableEq K] {target v : View K T} {as bs : Assignments K T}

/-- Every assignment gives its key what the target holds for it. -/
def Toward (target : View K T) (as : Assignments K T) : Prop := ∀ a ∈ as, a.2 = target a.1

/-- Every key that differs from the target is visited. -/
def Reaches (v target : View K T) (as : Assignments K T) : Prop :=
  ∀ k, v k ≠ target k → k ∈ as.map Prod.fst

theorem assignAll_toward (h : Toward target as) (k : K) :
    assignAll v as k = if k ∈ as.map Prod.fst then target k else v k := by
  induction as generalizing v with
  | nil => rfl
  | cons a as ih =>
    have ha : a.2 = target a.1 := h a List.mem_cons_self
    rw [assignAll_cons, ih fun b hb => h b (List.mem_cons_of_mem _ hb), List.map_cons]
    by_cases hk : k = a.1
    · simp [hk, ha]
    · simp only [Function.update_of_ne hk, List.mem_cons, hk, false_or]

theorem assignAll_reaches (h : Toward target as) (hr : Reaches v target as) :
    assignAll v as = target := by
  funext k
  rw [assignAll_toward h]
  split
  · rfl
  · rename_i hk
    exact by_contra fun hne => hk (hr k hne)

variable [DecidableEq T]

theorem mem_emits (h : Toward target as) {c : Change K T} :
    c ∈ emits v as ↔ c.key ∈ as.map Prod.fst ∧ c ∈ changes c.key (v c.key) (target c.key) := by
  induction as generalizing v with
  | nil => simp [emits]
  | cons a as ih =>
    have ha : a.2 = target a.1 := h a List.mem_cons_self
    rw [emits, List.mem_append, ih fun b hb => h b (List.mem_cons_of_mem _ hb), List.map_cons,
      List.mem_cons, ha]
    by_cases hk : c.key = a.1
    · simp [hk]
    · have hfirst : c ∉ changes a.1 (v a.1) (target a.1) := fun hc => hk (key_of_mem_changes hc)
      simp [hk, hfirst]

/-- What is emitted for one key are its changes to the target, once. -/
theorem filter_emits (h : Toward target as) (k : K) :
    (emits v as).filter (·.key = k) =
      if k ∈ as.map Prod.fst then changes k (v k) (target k) else [] := by
  induction as generalizing v with
  | nil => rfl
  | cons a as ih =>
    have ha : a.2 = target a.1 := h a List.mem_cons_self
    rw [emits, List.filter_append, ih fun b hb => h b (List.mem_cons_of_mem _ hb), List.map_cons, ha]
    by_cases hk : k = a.1
    · subst hk
      have hall : (changes a.1 (v a.1) (target a.1)).filter (·.key = a.1) =
          changes a.1 (v a.1) (target a.1) :=
        List.filter_eq_self.mpr fun c hc => decide_eq_true (key_of_mem_changes hc)
      rw [hall, Function.update_self, changes_self, ite_self, List.append_nil,
        if_pos List.mem_cons_self]
    · have hnone : (changes a.1 (v a.1) (target a.1)).filter (·.key = k) = [] :=
        List.filter_eq_nil_iff.mpr fun c hc => by
          rw [key_of_mem_changes hc, decide_eq_true_eq]
          exact Ne.symm hk
      simp only [hnone, List.nil_append, Function.update_of_ne hk, List.mem_cons, hk, false_or]

theorem emits_nodup (h : Toward target as) : (emits v as).Nodup := by
  induction as generalizing v with
  | nil => exact List.nodup_nil
  | cons a as ih =>
    have ha : a.2 = target a.1 := h a List.mem_cons_self
    have htail : Toward target as := fun b hb => h b (List.mem_cons_of_mem _ hb)
    rw [emits]
    refine List.nodup_append.mpr ⟨changes_nodup, ih htail, ?_⟩
    intro c hc d hd he
    obtain rfl := he
    -- a key that was visited holds what the target holds, so it changes no more
    have hkey : c.key = a.1 := key_of_mem_changes hc
    have hstays := ((mem_emits htail).mp hd).2
    rw [hkey, Function.update_self, ha, changes_self] at hstays
    exact List.not_mem_nil hstays

/-- Two ways to the same target emit the same changes. -/
theorem emits_perm (ha : Toward target as) (hb : Toward target bs) (hra : Reaches v target as)
    (hrb : Reaches v target bs) : (emits v as).Perm (emits v bs) := by
  refine (List.perm_ext_iff_of_nodup (emits_nodup ha) (emits_nodup hb)).mpr fun c => ?_
  rw [mem_emits ha, mem_emits hb]
  apply and_congr_left
  intro hc
  have hne : v c.key ≠ target c.key := by
    intro he
    rw [he, changes_self] at hc
    exact List.not_mem_nil hc
  exact iff_of_true (hra _ hne) (hrb _ hne)

end Target

/-! ### Relabelling -/

/-- The change adds labels to the key, or removes some. -/
def Change.Relabels (k : K) : Change K T → Prop
  | .labelled key _ | .unlabelled key _ => key = k
  | .added _ _ | .removed _ => False

section Relabelling

variable [DecidableEq T] {k : K} {s t : Finset T}

theorem changes_relabels :
    (∀ c ∈ changes k (some s) (some t), ¬ c.Relabels k) ↔ s = t := by
  constructor
  · intro h
    by_contra hne
    have hsdiff : t \ s ≠ ∅ ∨ s \ t ≠ ∅ := by
      rw [← not_and_or, Finset.sdiff_eq_empty_iff_subset, Finset.sdiff_eq_empty_iff_subset]
      exact fun hsub => hne (Finset.Subset.antisymm hsub.2 hsub.1)
    rcases hsdiff with hts | hst
    · exact h (.labelled k (t \ s)) (by simp [changes, mem_unlessEmpty, hts]) rfl
    · exact h (.unlabelled k (s \ t)) (by simp [changes, mem_unlessEmpty, hst]) rfl
  · intro h
    subst h
    simp

variable [DecidableEq K] {v : View K T} {as : Assignments K T}

/-- Where nothing relabels a key and nothing removes it, all it is assigned is the same. -/
theorem assignAll_of_not_relabelled (h : ∀ c ∈ emits v as, ¬ c.Relabels k)
    (hsome : ∀ a ∈ as, a.1 = k → a.2 ≠ none) :
    (∀ t, v k = some t → assignAll v as k = some t) ∧
      ∀ t, (k, some t) ∈ as → assignAll v as k = some t := by
  induction as generalizing v with
  | nil => exact ⟨fun t ht => ht, by simp⟩
  | cons a as ih =>
    obtain ⟨k', x⟩ := a
    rw [emits] at h
    have hrest := ih (v := Function.update v k' x) (fun c hc => h c (List.mem_append_right _ hc))
      fun a ha => hsome a (List.mem_cons_of_mem _ ha)
    rw [assignAll_cons]
    by_cases hk : k' = k
    · subst hk
      obtain ⟨t, rfl⟩ := Option.ne_none_iff_exists'.mp (hsome _ List.mem_cons_self rfl)
      have hnow := hrest.1 t (Function.update_self ..)
      constructor
      · intro s hs
        have hsame : s = t := by
          rw [← changes_relabels (k := k')]
          exact fun c hc => h c (List.mem_append_left _ (hs ▸ hc))
        rw [hsame]
        exact hnow
      · intro s hs
        rcases List.mem_cons.mp hs with he | hs
        · obtain rfl : s = t := by simpa using he
          exact hnow
        · exact hrest.2 s hs
    · have hv : Function.update v k' x k = v k := Function.update_of_ne (Ne.symm hk) ..
      refine ⟨fun t ht => hrest.1 t (hv.trans ht), fun t ht => ?_⟩
      rcases List.mem_cons.mp ht with he | ht
      · exact absurd (congrArg Prod.fst he).symm hk
      · exact hrest.2 t ht

/-- A key that is only ever removed or assigned what it holds is never relabelled. -/
theorem not_relabelled_of_constant (hv : v k = none ∨ v k = some t)
    (h : ∀ a ∈ as, a.1 = k → a.2 = none ∨ a.2 = some t) : ∀ c ∈ emits v as, ¬ c.Relabels k := by
  induction as generalizing v with
  | nil => simp [emits]
  | cons a as ih =>
    obtain ⟨k', x⟩ := a
    intro c hc hrelabels
    rw [emits] at hc
    rcases List.mem_append.mp hc with hc | hc
    · obtain rfl : k' = k := by
        rw [← key_of_mem_changes hc]
        cases c <;> simp_all [Change.Relabels, Change.key]
      rcases hv with hv | hv <;> rcases h _ List.mem_cons_self rfl with hx | hx <;>
        simp only at hx <;> rw [hv, hx] at hc
      · simp [changes] at hc
      · obtain rfl : c = .added k' t := by simpa [changes] using hc
        exact hrelabels
      · obtain rfl : c = .removed k' := by simpa [changes] using hc
        exact hrelabels
      · simp at hc
    · refine ih (v := Function.update v k' x) ?_ (fun a ha => h a (List.mem_cons_of_mem _ ha)) c hc hrelabels
      by_cases hk : k' = k
      · subst hk
        rw [Function.update_self]
        exact h _ List.mem_cons_self rfl
      · rw [Function.update_of_ne (Ne.symm hk)]
        exact hv

end Relabelling
end Replay
