import Mathlib.Data.List.Basic

/-!
# Labelled runs

A run is a finite sequence of labelled steps. What is proved about a run is
proved about its label history and the state it reached, by the induction rules
below: one for state invariants, one for statements about the whole history, and
one for the exact condition on the labels under which a property of the past
holds at every step.
-/

namespace Transition

variable {σ ε : Type*}

inductive Run (step : σ → ε → σ → Prop) (s : σ) : List ε → σ → Prop where
  | nil : Run step s [] s
  | snoc {es : List ε} {t u : σ} {e : ε} : Run step s es t → step t e u → Run step s (es ++ [e]) u

namespace Run

variable {step : σ → ε → σ → Prop} {s t u : σ} {es fs : List ε}

theorem single {e : ε} (h : step s e t) : Run step s [e] t := .snoc .nil h

/-- A statement about history and state that every step extends holds of every run. -/
theorem history {P : List ε → σ → Prop} (h0 : P [] s)
    (hs : ∀ es t e u, P es t → step t e u → P (es ++ [e]) u)
    (h : Run step s es t) : P es t := by
  induction h with
  | nil => exact h0
  | snoc _ he ih => exact hs _ _ _ _ ih he

/-- The history rule for runs all of whose labels satisfy `H`. -/
theorem history_under {H : ε → Prop} {P : List ε → σ → Prop} (h0 : P [] s)
    (hs : ∀ es t e u, P es t → step t e u → H e → P (es ++ [e]) u)
    (h : Run step s es t) (hH : ∀ e ∈ es, H e) : P es t := by
  induction h with
  | nil => exact h0
  | snoc _ he ih =>
    have hpre := ih fun e hm => hH e (List.mem_append_left _ hm)
    exact hs _ _ _ _ hpre he (hH _ (List.mem_append_right _ (List.mem_singleton_self _)))

theorem invariant {I : σ → Prop} (h0 : I s) (hs : ∀ t e u, I t → step t e u → I u)
    (h : Run step s es t) : I t :=
  history (P := fun _ t => I t) h0 (fun _ _ _ _ ht he => hs _ _ _ ht he) h

theorem labels {I : σ → Prop} {Q : ε → Prop} (h0 : I s) (hs : ∀ t e u, I t → step t e u → I u ∧ Q e)
    (h : Run step s es t) : ∀ e ∈ es, Q e := by
  have key : I t ∧ ∀ e ∈ es, Q e := by
    refine history (P := fun es t => I t ∧ ∀ e ∈ es, Q e) ⟨h0, by simp⟩ ?_ h
    intro es t e u hp he
    obtain ⟨hu, hq⟩ := hs t e u hp.1 he
    refine ⟨hu, fun x hx => ?_⟩
    rcases List.mem_append.mp hx with hx | hx
    · exact hp.2 x hx
    · rw [List.mem_singleton.mp hx]
      exact hq
  exact key.2

/-- A relation that every step of one system carries to a step of another, under the
same label, carries its runs. -/
theorem simulates {τ : Type*} {step' : τ → ε → τ → Prop} {R : σ → τ → Prop} {s' : τ} (h0 : R s s')
    (hs : ∀ t e u t', R t t' → step t e u → ∃ u', step' t' e u' ∧ R u u') (h : Run step s es t) :
    ∃ t', Run step' s' es t' ∧ R t t' := by
  refine history (P := fun es t => ∃ t', Run step' s' es t' ∧ R t t') ⟨s', .nil, h0⟩ ?_ h
  intro es t e u hx he
  obtain ⟨t', hrun, hr⟩ := hx
  obtain ⟨u', hstep, hu⟩ := hs t e u t' hr he
  exact ⟨u', .snoc hrun hstep, hu⟩

/-- Functions on states and labels that carry steps carry runs. -/
theorem map {τ δ : Type*} {step' : τ → δ → τ → Prop} (g : σ → τ) (f : ε → δ)
    (hs : ∀ t e u, step t e u → step' (g t) (f e) (g u)) (h : Run step s es t) :
    Run step' (g s) (es.map f) (g t) := by
  induction h with
  | nil => exact .nil
  | snoc _ he ih =>
    rw [List.map_append]
    exact .snoc ih (hs _ _ _ he)

theorem append (h : Run step s es t) (k : Run step t fs u) : Run step s (es ++ fs) u := by
  induction k with
  | nil => simpa using h
  | snoc _ he ih => simpa [List.append_assoc] using Run.snoc ih he

theorem split (h : Run step s (es ++ fs) u) : ∃ t, Run step s es t ∧ Run step t fs u := by
  generalize hgs : es ++ fs = gs at h
  induction h generalizing fs with
  | nil =>
    obtain ⟨rfl, rfl⟩ := List.append_eq_nil_iff.mp hgs
    exact ⟨s, .nil, .nil⟩
  | @snoc hs t u e hrun hstep ih =>
    rcases List.eq_nil_or_concat fs with rfl | ⟨fs', f, rfl⟩
    · rw [List.append_nil] at hgs
      exact ⟨u, hgs ▸ .snoc hrun hstep, .nil⟩
    · rw [List.concat_eq_append, ← List.append_assoc] at hgs
      obtain ⟨hpre, hlast⟩ := List.append_inj' hgs rfl
      obtain ⟨m, h1, h2⟩ := ih hpre
      rw [List.singleton_inj] at hlast
      exact ⟨m, h1, by simpa using Run.snoc h2 (hlast ▸ hstep)⟩

theorem snoc_inv {e : ε} (h : Run step s (es ++ [e]) u) : ∃ t, Run step s es t ∧ step t e u := by
  generalize hgs : es ++ [e] = gs at h
  cases h with
  | nil => simp at hgs
  | @snoc fs t _ f hrun hstep =>
    obtain ⟨rfl, hlast⟩ := List.append_inj' hgs rfl
    rw [List.singleton_inj] at hlast
    exact ⟨t, hrun, hlast ▸ hstep⟩

theorem nil_inv (h : Run step s [] t) : t = s := by
  generalize hgs : ([] : List ε) = gs at h
  cases h with
  | nil => rfl
  | snoc => simp at hgs

theorem cons_inv {e : ε} (h : Run step s (e :: es) u) : ∃ t, step s e t ∧ Run step t es u := by
  have hcons : Run step s ([e] ++ es) u := h
  obtain ⟨t, hfirst, hrest⟩ := hcons.split
  have hsnoc : Run step s ([] ++ [e]) t := hfirst
  obtain ⟨m, hnil, hstep⟩ := hsnoc.snoc_inv
  exact ⟨t, hnil.nil_inv ▸ hstep, hrest⟩

end Run

/-! ### Properties of the past -/

/-- `Q` holds of every label and the labels before it. -/
def Always (Q : List ε → ε → Prop) (es : List ε) : Prop :=
  ∀ pre e post, es = pre ++ e :: post → Q pre e

section Always

variable {Q : List ε → ε → Prop} {es : List ε} {e : ε}

theorem always_nil : Always Q [] := by
  intro pre e post he
  simp at he

theorem always_concat : Always Q (es ++ [e]) ↔ Always Q es ∧ Q es e := by
  constructor
  · intro h
    refine ⟨fun pre x post he => ?_, h es e [] rfl⟩
    exact h pre x (post ++ [e]) (by rw [he, List.append_assoc]; rfl)
  · intro hx pre x post hes
    obtain ⟨h, he⟩ := hx
    rcases List.eq_nil_or_concat post with rfl | ⟨post', y, rfl⟩
    · obtain ⟨rfl, hlast⟩ := List.append_inj' hes rfl
      rw [List.singleton_inj] at hlast
      exact hlast ▸ he
    · rw [List.concat_eq_append, ← List.cons_append, ← List.append_assoc] at hes
      obtain ⟨hpre, -⟩ := List.append_inj' hes rfl
      exact h pre x post' hpre

theorem always_cons : Always Q (e :: es) ↔ Q [] e ∧ Always (fun pre x => Q (e :: pre) x) es := by
  constructor
  · intro h
    exact ⟨h [] e es rfl, fun pre x post he => h (e :: pre) x post (by rw [he]; rfl)⟩
  · intro hx pre x post hes
    obtain ⟨he, h⟩ := hx
    cases pre with
    | nil =>
      obtain ⟨rfl, -⟩ := List.cons.inj hes
      exact he
    | cons y ys =>
      rw [List.cons_append] at hes
      obtain ⟨rfl, htail⟩ := List.cons.inj hes
      exact h ys x post htail

theorem always_forall {C : ε → Prop} : Always (fun _ e => C e) es ↔ ∀ e ∈ es, C e := by
  constructor
  · intro h e he
    obtain ⟨pre, post, rfl⟩ := List.append_of_mem he
    exact h pre e post rfl
  · intro h pre e post hes
    exact h e (by simp [hes])

instance decidableAlways (Q : List ε → ε → Prop) [h : ∀ pre e, Decidable (Q pre e)] :
    ∀ es, Decidable (Always Q es)
  | [] => isTrue always_nil
  | e :: es =>
    have := decidableAlways (fun pre x => Q (e :: pre) x) (h := fun pre x => h (e :: pre) x) es
    decidable_of_iff (Q [] e ∧ Always (fun pre x => Q (e :: pre) x) es) always_cons.symm

end Always

/-- When what `Q` and `C` ask of a label and its past are the same at every step of a run
that kept to `C`, they always hold of the same runs. -/
theorem Run.always_iff_always {step : σ → ε → σ → Prop} {s t : σ} {es : List ε}
    {Q C : List ε → ε → Prop} {P : List ε → σ → Prop} (h0 : P [] s)
    (hs : ∀ es t e u, P es t → step t e u → (Q es e ↔ C es e) ∧ (C es e → P (es ++ [e]) u))
    (h : Run step s es t) : Always Q es ↔ Always C es := by
  have key : (Always Q es ↔ Always C es) ∧ (Always C es → P es t) := by
    refine history (P := fun es t => (Always Q es ↔ Always C es) ∧ (Always C es → P es t))
      ⟨⟨fun _ => always_nil, fun _ => always_nil⟩, fun _ => h0⟩ ?_ h
    intro es t e u hx he
    obtain ⟨hiff, hP⟩ := hx
    rw [always_concat, always_concat, hiff]
    constructor
    · constructor
      · intro hx
        obtain ⟨hes, hq⟩ := hx
        exact ⟨hes, (hs es t e u (hP hes) he).1.mp hq⟩
      · intro hx
        obtain ⟨hes, hc⟩ := hx
        exact ⟨hes, (hs es t e u (hP hes) he).1.mpr hc⟩
    · intro hx
      obtain ⟨hes, hc⟩ := hx
      exact (hs es t e u (hP hes) he).2 hc
  exact key.1

/-- The rule for a condition on the labels alone. -/
theorem Run.always_iff {step : σ → ε → σ → Prop} {s t : σ} {es : List ε}
    {Q : List ε → ε → Prop} {C : ε → Prop} {P : List ε → σ → Prop} (h0 : P [] s)
    (hs : ∀ es t e u, P es t → step t e u → (Q es e ↔ C e) ∧ (C e → P (es ++ [e]) u))
    (h : Run step s es t) : Always Q es ↔ ∀ e ∈ es, C e :=
  (Run.always_iff_always (C := fun _ e => C e) h0 hs h).trans always_forall

end Transition
