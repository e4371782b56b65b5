import IoImap.Transition.Run

/-!
# Two runs side by side

The history of one run is paired with that of another, label by label, but for
stretches that only the second one has. Every pair and every stretch leaves places,
and what the two runs make of a place decides whether they still agree: where one
place is not as it should be, the second run is stuck and the two have parted. So
the runs agree exactly when all places are as they should be.
-/

namespace Transition

variable {σ σ' ε ε' π : Type*}

inductive Paired (Same : ε → ε' → π → Prop) (Aside : List ε' → List π → Prop) :
    List π → List ε → List ε' → Prop where
  | nil : Paired Same Aside [] [] []
  | both {ps : List π} {es : List ε} {us : List ε'} {t : ε} {u : ε'} {p : π}
      (h : Paired Same Aside ps es us) (hsame : Same t u p) :
      Paired Same Aside (ps ++ [p]) (es ++ [t]) (us ++ [u])
  | aside {ps qs : List π} {es : List ε} {us vs : List ε'}
      (h : Paired Same Aside ps es us) (haside : Aside vs qs) :
      Paired Same Aside (ps ++ qs) es (us ++ vs)

/-- The agreement of two histories turns on `ok`: either they agree and the states
reached are related, or they do not and the second run is stuck. -/
structure Turns (step' : σ' → ε' → σ' → Prop) (R : σ → σ' → Prop)
    (Agree : List ε → List ε' → Prop) (ok : Prop) (es : List ε) (us : List ε') (a : σ) (c : σ') :
    Prop where
  agrees : ok → R a c ∧ Agree es us
  parts : ¬ ok → (∀ u d, ¬ step' c u d) ∧ ¬ Agree es us

theorem Turns.of_iff {step' : σ' → ε' → σ' → Prop} {R : σ → σ' → Prop}
    {Agree : List ε → List ε' → Prop} {ok ok' : Prop} {es : List ε} {us : List ε'} {a : σ} {c : σ'}
    (h : Turns step' R Agree ok es us a c) (hiff : ok' ↔ ok) :
    Turns step' R Agree ok' es us a c :=
  ⟨fun hok => h.agrees (hiff.mp hok), fun hok => h.parts (mt hiff.mpr hok)⟩

theorem Turns.iff {step' : σ' → ε' → σ' → Prop} {R : σ → σ' → Prop}
    {Agree : List ε → List ε' → Prop} {ok : Prop} {es : List ε} {us : List ε'} {a : σ} {c : σ'}
    (h : Turns step' R Agree ok es us a c) : Agree es us ↔ ok := by
  by_cases hok : ok
  · exact ⟨fun _ => hok, fun _ => (h.agrees hok).2⟩
  · exact ⟨fun hagree => absurd hagree (h.parts hok).2, fun hx => absurd hx hok⟩

/-- What pairs and stretches are, and what they do to two runs that agree so far. -/
structure Compares (step : σ → ε → σ → Prop) (step' : σ' → ε' → σ' → Prop)
    (Same : ε → ε' → π → Prop) (Aside : List ε' → List π → Prop) (R : σ → σ' → Prop)
    (Agree : List ε → List ε' → Prop) (H : π → Prop) : Prop where
  both : ∀ {es us a b c d t u p}, R a c → Agree es us → step a t b → step' c u d → Same t u p →
    Turns step' R Agree (H p) (es ++ [t]) (us ++ [u]) b d
  aside : ∀ {es us vs a c d qs}, R a c → Agree es us → Run step' c vs d → Aside vs qs →
    Turns step' R Agree (∀ q ∈ qs, H q) es (us ++ vs) a d
  nonempty : ∀ {vs qs}, Aside vs qs → vs ≠ []

section Comparison

variable {step : σ → ε → σ → Prop} {step' : σ' → ε' → σ' → Prop} {Same : ε → ε' → π → Prop}
  {Aside : List ε' → List π → Prop} {R : σ → σ' → Prop} {Agree : List ε → List ε' → Prop}
  {H : π → Prop} {s a : σ} {s' c : σ'} {ps : List π} {es : List ε} {us : List ε'}

theorem Compares.turns (hc : Compares step step' Same Aside R Agree H) (h0 : R s s')
    (hnil : Agree [] []) (h : Paired Same Aside ps es us) (hrun : Run step s es a)
    (hrun' : Run step' s' us c) : Turns step' R Agree (∀ p ∈ ps, H p) es us a c := by
  induction h generalizing a c with
  | nil =>
    rw [hrun.nil_inv, hrun'.nil_inv]
    exact ⟨fun _ => ⟨h0, hnil⟩, fun hok => absurd (by simp) hok⟩
  | @both ps es us t u p h hsame ih =>
    obtain ⟨a₀, hrun₀, hstep⟩ := hrun.snoc_inv
    obtain ⟨c₀, hrun₀', hstep'⟩ := hrun'.snoc_inv
    have hbefore := ih hrun₀ hrun₀'
    by_cases hok : ∀ p ∈ ps, H p
    · obtain ⟨hr, hagree⟩ := hbefore.agrees hok
      have hiff : (∀ q ∈ ps ++ [p], H q) ↔ H p := by
        simp only [List.forall_mem_append, List.forall_mem_singleton]
        exact ⟨fun hx => hx.2, fun hp => ⟨hok, hp⟩⟩
      exact (hc.both hr hagree hstep hstep' hsame).of_iff hiff
    · exact absurd hstep' ((hbefore.parts hok).1 u c)
  | @aside ps qs es us vs h haside ih =>
    obtain ⟨c₀, hrun₀', hrest⟩ := hrun'.split
    have hbefore := ih hrun hrun₀'
    by_cases hok : ∀ p ∈ ps, H p
    · obtain ⟨hr, hagree⟩ := hbefore.agrees hok
      have hiff : (∀ q ∈ ps ++ qs, H q) ↔ ∀ q ∈ qs, H q := by
        simp only [List.forall_mem_append]
        exact ⟨fun hx => hx.2, fun hq => ⟨hok, hq⟩⟩
      exact (hc.aside hr hagree hrest haside).of_iff hiff
    · obtain ⟨v, vs', rfl⟩ := List.exists_cons_of_ne_nil (hc.nonempty haside)
      obtain ⟨d, hstep', -⟩ := hrest.cons_inv
      exact absurd hstep' ((hbefore.parts hok).1 v d)

theorem Compares.agree_iff (hc : Compares step step' Same Aside R Agree H) (h0 : R s s')
    (hnil : Agree [] []) (h : Paired Same Aside ps es us) (hrun : Run step s es a)
    (hrun' : Run step' s' us c) : Agree es us ↔ ∀ p ∈ ps, H p :=
  (hc.turns h0 hnil h hrun hrun').iff

end Comparison

end Transition
