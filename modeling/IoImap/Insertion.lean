import IoImap.Command.Output
import IoImap.Transition.Pairing

/-!
# A message more in the stream

What a resume comes to depends on the fragmentizer only through the messages that the
octets it is given complete. So two runs of a coroutine can be compared that are given
the same but for a message which one of them gets and the other does not, in whatever
pieces it arrives.
-/

namespace IoImap
open Fragmentizer ServerMessage Transition

/-- An untagged response that cannot be decoded. -/
def ServerMessage.Undecodable (m : ServerMessage) : Prop :=
  untaggedPrefix <+: m.bytes ∧ ∃ err, m.decoded = .error err

/-- The second list is the first one, with `m` put in somewhere or not. -/
inductive Adds (m : ServerMessage) : List ServerMessage → List ServerMessage → Prop where
  | nowhere (ms : List ServerMessage) : Adds m ms ms
  | between (pre post : List ServerMessage) : Adds m (pre ++ post) (pre ++ m :: post)

theorem adds_iff {m : ServerMessage} {ms ms' : List ServerMessage} :
    Adds m ms ms' ↔ ms' = ms ∨ ∃ k < ms.length + 1, ms' = ms.take k ++ m :: ms.drop k := by
  constructor
  · intro h
    cases h with
    | nowhere => exact .inl rfl
    | between pre post =>
      refine .inr ⟨pre.length, by rw [List.length_append]; omega, ?_⟩
      rw [List.take_left, List.drop_left]
  · intro h
    rcases h with rfl | ⟨k, -, rfl⟩
    · exact .nowhere ms'
    · have hadds := Adds.between (m := m) (ms.take k) (ms.drop k)
      rwa [List.take_append_drop] at hadds

instance (m : ServerMessage) (ms ms' : List ServerMessage) : Decidable (Adds m ms ms') :=
  decidable_of_iff _ adds_iff.symm

theorem ServerMessage.Undecodable.silent {m : ServerMessage} (h : m.Undecodable) :
    m.data? = none ∧ m.untagged? = none ∧ m.bye? = none ∧ m.cr? = none ∧
      ∀ tag, m.ownTagged? tag = none := by
  obtain ⟨-, err, herr⟩ := h
  simp [data?, untagged?, bye?, cr?, ownTagged?, herr]

/-! ### Folds -/

section Folds

variable {σ ε : Type} {accept : σ → ServerMessage → Except ε σ} {refuse : ServerMessage → Option ε}
  {absorb : σ → ServerMessage → σ} {m : ServerMessage} {ms ms' : List ServerMessage}

theorem foldlM_findSome (haccept : Refuses accept refuse absorb) (ms : List ServerMessage) (s : σ) :
    ms.foldlM accept s =
      match ms.findSome? refuse with
      | some err => .error err
      | none => .ok (ms.foldl absorb s) := by
  induction ms generalizing s with
  | nil => rfl
  | cons x ms ih =>
    rw [List.foldlM_cons, List.findSome?_cons]
    cases hx : refuse x with
    | some err =>
      rw [haccept.refused s x err hx]
      rfl
    | none =>
      rw [haccept.absorbed s x hx]
      exact ih (absorb s x)

theorem foldlM_refused (haccept : Refuses accept refuse absorb) {err : ε}
    (h : ms.findSome? refuse = some err) (s : σ) : ms.foldlM accept s = .error err := by
  rw [foldlM_findSome haccept, h]

theorem Adds.foldl (h : Adds m ms ms') (hskip : ∀ s, absorb s m = s) (s : σ) :
    ms'.foldl absorb s = ms.foldl absorb s := by
  cases h with
  | nowhere => rfl
  | between pre post => rw [List.foldl_append, List.foldl_cons, hskip, List.foldl_append]

theorem Adds.foldlM (h : Adds m ms ms') (haccept : Refuses accept refuse absorb)
    (hskip : ∀ s, absorb s m = s) (hfail : ms'.findSome? refuse = ms.findSome? refuse) (s : σ) :
    ms'.foldlM accept s = ms.foldlM accept s := by
  rw [foldlM_findSome haccept, foldlM_findSome haccept, hfail, h.foldl hskip]

theorem Adds.refused (h : Adds m ms ms') (hfail : ms'.findSome? refuse ≠ ms.findSome? refuse) :
    ∃ err, ms'.findSome? refuse = some err := by
  cases h with
  | nowhere => exact absurd rfl hfail
  | between pre post =>
    rw [List.findSome?_append, List.findSome?_append, List.findSome?_cons] at hfail
    cases hpre : pre.findSome? refuse with
    | some err => exact ⟨err, by rw [List.findSome?_append, hpre]; rfl⟩
    | none =>
      cases hm : refuse m with
      | none => simp [hpre, hm] at hfail
      | some err => exact ⟨err, by rw [List.findSome?_append, hpre, List.findSome?_cons, hm]; rfl⟩

end Folds

/-! ### Resumes that are given the same -/

/-- What a resume comes to, the fragmentizer apart. -/
def upshot {α σ F : Type} (r : α × σ × F) : α × σ := (r.1, r.2.1)

/-- Two answers to one request that are the same but for the octets of a read, which
complete `ms` in the one fragmentizer and `ms'` in the other. -/
inductive Given {F G : Type} [Fragmentizer F] [Fragmentizer G] (f : F) (g : G)
    (ms ms' : List ServerMessage) : Request → Option Bytes → Option Bytes → Prop where
  | nothing : Given f g ms ms' .nothing none none
  | tag {bytes : Bytes} : Given f g ms ms' .tag (some bytes) (some bytes)
  | stream {len : Nat} {arg : Option Bytes} : Given f g ms ms' (.stream len) arg arg
  | eof : Given f g ms ms' .read (some []) (some [])
  | read {data data' : Bytes} (hne : data ≠ []) (hne' : data' ≠ [])
      (hms : messages (enqueueBytes f data) = ms) (hms' : messages (enqueueBytes g data') = ms') :
      Given f g ms ms' .read (some data) (some data')

/-! ### Turns that are given the same -/

/-- Two resumes that are given the same, but that the octets of the second may complete
`m` between what those of the first complete. -/
structure Alike {S F G Env Y R : Type} [Fragmentizer F] [Fragmentizer G] (m : ServerMessage)
    (t : Turn S F Env Y R) (u : Turn S G Env Y R) : Prop where
  due : u.due = t.due
  env : u.env = t.env
  tag : u.tag? = t.tag?
  eof : u.arg = some [] ↔ t.arg = some []
  adds : Adds m t.received u.received

theorem alike_iff {S F G Env Y R : Type} [Fragmentizer F] [Fragmentizer G] {m : ServerMessage}
    {t : Turn S F Env Y R} {u : Turn S G Env Y R} :
    Alike m t u ↔ u.due = t.due ∧ u.env = t.env ∧ u.tag? = t.tag? ∧
      (u.arg = some [] ↔ t.arg = some []) ∧ Adds m t.received u.received :=
  ⟨fun ⟨hdue, henv, htag, heof, hadds⟩ => ⟨hdue, henv, htag, heof, hadds⟩,
    fun ⟨hdue, henv, htag, heof, hadds⟩ => ⟨hdue, henv, htag, heof, hadds⟩⟩

instance {S F G Env Y R : Type} [Fragmentizer F] [Fragmentizer G] [DecidableEq Env]
    (m : ServerMessage) (t : Turn S F Env Y R) (u : Turn S G Env Y R) : Decidable (Alike m t u) :=
  decidable_of_iff _ alike_iff.symm

/-- A resume that may have completed the message, and what it completes without it. -/
structure Spot (S G Env Y R : Type) where
  turn : Turn S G Env Y R
  others : List ServerMessage

structure AlikeAt {S F G Env Y R : Type} [Fragmentizer F] [Fragmentizer G] (m : ServerMessage)
    (t : Turn S F Env Y R) (u : Turn S G Env Y R) (p : Spot S G Env Y R) : Prop
    extends Alike m t u where
  spot : p = ⟨u, t.received⟩

/-- Histories that are given the same resume by resume are paired. -/
theorem paired_zip {S F G Env Y R : Type} [Fragmentizer F] [Fragmentizer G] {m : ServerMessage}
    {Aside : List (Turn S G Env Y R) → List (Spot S G Env Y R) → Prop}
    {es : List (Turn S F Env Y R)} {us : List (Turn S G Env Y R)} (hlen : es.length = us.length)
    (h : ∀ x ∈ es.zip us, Alike m x.1 x.2) :
    Paired (AlikeAt m) Aside ((es.zip us).map fun x => ⟨x.2, x.1.received⟩) es us := by
  induction es using List.reverseRecOn generalizing us with
  | nil =>
    obtain rfl := List.length_eq_zero_iff.mp hlen.symm
    exact .nil
  | append_singleton es t ih =>
    rcases List.eq_nil_or_concat us with rfl | ⟨us', u, rfl⟩
    · simp at hlen
    · rw [List.concat_eq_append] at hlen h ⊢
      have hlen' : es.length = us'.length := by simpa using hlen
      rw [List.zip_append hlen', List.zip_cons_cons, List.zip_nil_right] at h ⊢
      rw [List.map_append, List.map_singleton]
      have hbefore := ih hlen' fun x hx => h x (List.mem_append_left _ hx)
      have hlast : Alike m t u := h (t, u) (List.mem_append_right _ (List.mem_singleton_self _))
      exact .both hbefore ⟨hlast, rfl⟩

def CoroutineState.result? {Y R : Type} : CoroutineState Y R → Option R
  | .yielded _ => none
  | .complete r => some r

def results {S F Env Y R : Type} (es : List (Turn S F Env Y R)) : List R :=
  es.filterMap fun t => t.out.result?

section Turns

variable {S F G Env Y R : Type} {es : List (Turn S F Env Y R)} {us : List (Turn S G Env Y R)}
  {t : Turn S F Env Y R} {u : Turn S G Env Y R} {m : ServerMessage}

theorem results_concat : results (es ++ [t]) = results es ++ t.out.result?.toList := by
  cases h : t.out.result? <;> simp [results, h]

theorem results_yielded {y : Y} (h : t.out = .yielded y) : results (es ++ [t]) = results es := by
  rw [results_concat, h]
  exact List.append_nil _

theorem result?_complete {out : CoroutineState Y R} {r : R} :
    out.result? = some r ↔ out = .complete r := by
  cases out <;> simp [CoroutineState.result?]

theorem results_parted {r : R} (h : results es = results us) (hu : u.out = .complete r)
    (ht : t.out ≠ .complete r) : results (es ++ [t]) ≠ results (us ++ [u]) := by
  intro he
  rw [results_concat, results_concat, h, List.append_cancel_left_eq, hu] at he
  apply ht
  rw [← result?_complete]
  exact Option.toList_eq_singleton_iff.mp he

theorem results_ended {r : R} (h : results es = results us) (hu : u.out = .complete r) :
    results es ≠ results (us ++ [u]) := by
  rw [results_concat, h, hu]
  simp [CoroutineState.result?]

variable [Fragmentizer F] [Fragmentizer G]

theorem received_nothing (h : t.due ≠ .read ∨ t.arg = some []) : t.received = [] := by
  rw [Turn.received, Turn.answer]
  rcases h with h | h
  · rw [Request.octets_of_ne h]
    rfl
  · rw [h, Request.octets_eof]
    rfl

theorem ne_eof_of_received {m : ServerMessage} {ms : List ServerMessage} (h : t.received = m :: ms) :
    t.arg ≠ some [] := by
  intro harg
  rw [received_nothing (.inr harg)] at h
  simp at h

theorem received_logged {data : Bytes} (hdue : t.due = .read) (harg : t.arg = some data)
    (hne : data ≠ []) :
    t.received = messages (enqueueBytes (⟨t.frag, []⟩ : Logged F) data) := by
  rw [ImapSend.received_read hdue harg hne, Logged.enqueueBytes_eq, Logged.messages_eq]

theorem Alike.read (h : Alike m t u) (hne : u.received ≠ t.received) :
    t.due = .read ∧ t.arg ≠ some [] := by
  by_contra hn
  have hunread : t.due ≠ .read ∨ t.arg = some [] := by
    by_cases hdue : t.due = .read
    · exact .inr (by_contra fun harg => hn ⟨hdue, harg⟩)
    · exact .inl hdue
  have hunread' : u.due ≠ .read ∨ u.arg = some [] := by
    rw [h.due, h.eof]
    exact hunread
  exact hne (by rw [received_nothing hunread, received_nothing hunread'])

theorem Alike.given (h : Alike m t u) (hans : t.due.answeredBy t.arg = true)
    (hans' : u.due.answeredBy u.arg = true) :
    Given (⟨t.frag, []⟩ : Logged F) (⟨u.frag, []⟩ : Logged G) t.received u.received t.due t.arg
      u.arg := by
  obtain ⟨hdue, -, htag, heof, -⟩ := h
  rw [hdue] at hans'
  rw [Turn.tag?, Turn.tag?, hdue] at htag
  rw [Turn.received, Turn.received, Turn.answer, Turn.answer, hdue]
  generalize t.due = due at *
  generalize t.arg = arg at *
  generalize u.arg = arg' at *
  cases due with
  | nothing =>
    rw [Request.answeredBy_nothing] at hans hans'
    rw [hans, hans']
    exact .nothing
  | tag =>
    obtain ⟨bytes, rfl⟩ := Option.isSome_iff_exists.mp hans
    rw [if_pos rfl, if_pos rfl] at htag
    rw [htag]
    exact .tag
  | stream len =>
    have harg : arg' = arg := by
      rcases arg with - | (- | ⟨b, bs⟩)
      · rcases arg' with - | (- | ⟨b, bs⟩)
        · rfl
        · simp at heof
        · simp [Request.answeredBy] at hans'
      · exact heof.mpr rfl
      · simp [Request.answeredBy] at hans
    rw [harg]
    exact .stream
  | read =>
    obtain ⟨data, rfl⟩ := Option.isSome_iff_exists.mp hans
    obtain ⟨data', rfl⟩ := Option.isSome_iff_exists.mp hans'
    by_cases hne : data = []
    · subst hne
      rw [heof.mpr rfl]
      exact .eof
    · have hne' : data' ≠ [] := fun he => hne (Option.some.inj (heof.mp (congrArg some he)))
      rw [Request.octets_read hne, Request.octets_read hne', List.flatMap_singleton,
        List.flatMap_singleton]
      refine .read hne hne' ?_ ?_
      · rw [Logged.enqueueBytes_eq, Logged.messages_eq]
      · rw [Logged.enqueueBytes_eq, Logged.messages_eq]

end Turns

/-! ### The runs of a coroutine -/

section Runs

variable {S F G Env Y E V α : Type}

/-- What was observed of a run, resume by resume. -/
def observed (add : α → CoroutineState Y (Except E V) → α) (start : α)
    (es : List (Turn S F Env Y (Except E V))) : α := es.foldl (fun x t => add x t.out) start

/-- Two runs look the same from outside. -/
def Agree (add : α → CoroutineState Y (Except E V) → α) (start : α)
    (es : List (Turn S F Env Y (Except E V))) (us : List (Turn S G Env Y (Except E V))) : Prop :=
  observed add start es = observed add start us ∧ results es = results us

/-- Two runs stand at the same point, where `Inv` holds. -/
structure Aligned (Inv : S → Request → Prop) (a : Config S F) (c : Config S G) : Prop where
  state : c.state = a.state
  due : c.due = a.due
  inv : ∀ due, a.due = some due → Inv a.state due

/-- The read fails with the message as it does without it. -/
def Unheeded [Fragmentizer G] (failure : S → Env → List ServerMessage → Option E)
    (p : Spot S G Env Y (Except E V)) : Prop :=
  failure p.turn.before p.turn.env p.turn.received = failure p.turn.before p.turn.env p.others

instance [Fragmentizer G] [DecidableEq E] (failure : S → Env → List ServerMessage → Option E)
    (p : Spot S G Env Y (Except E V)) : Decidable (Unheeded failure p) :=
  inferInstanceAs (Decidable (_ = _))

end Runs

namespace Coroutine

variable {S Env Y R F : Type} [Fragmentizer F] {c : Coroutine S Env Y R} {a b : Config S F}
  {t : Turn S F Env Y R}

/-- A step as a resume whose fragmentizer is left aside. -/
theorem step_upshot (h : c.Step a t b) :
    a.due = some t.due ∧ t.due.answeredBy t.arg = true ∧ t.before = a.state ∧
      (t.out, t.after) = upshot (c.resume t.before (⟨t.frag, []⟩ : Logged F) t.arg t.env) ∧
      b = c.finish t := by
  obtain ⟨due, arg, env, hdue, hans, rfl, rfl⟩ := h
  exact ⟨hdue, hans, rfl, rfl, rfl⟩

theorem finish_stuck {r : R} (h : t.out = .complete r) (u : Turn S F Env Y R) (d : Config S F) :
    ¬ c.Step (c.finish t) u d := by
  intro hstep
  obtain ⟨due, hdue⟩ := hstep.exists_due
  simp [finish, h] at hdue

end Coroutine

/-- What makes the runs of a coroutine with and without the message comparable. A read
that completes the messages `ms` fails with `failure s env ms`: resumes in which nothing
else differs come to the same when they fail alike, and not when they do not. -/
structure Passes {S Env Y E V : Type} (c : Coroutine S Env Y (Except E V)) (m : ServerMessage)
    (failure : S → Env → List ServerMessage → Option E) (Inv : S → Request → Prop) : Prop where
  given : ∀ {F G : Type} [Fragmentizer F] [Fragmentizer G] {f : F} {g : G} {s : S} {env : Env}
    {due : Request} {ms ms' : List ServerMessage} {arg arg' : Option Bytes}, Inv s due →
    Given (⟨f, []⟩ : Logged F) (⟨g, []⟩ : Logged G) ms ms' due arg arg' → Adds m ms ms' →
    failure s env ms' = failure s env ms →
    upshot (c.resume s (⟨g, []⟩ : Logged G) arg' env) =
      upshot (c.resume s (⟨f, []⟩ : Logged F) arg env)
  failing : ∀ {F : Type} [Fragmentizer F] {f : F} {s : S} {env : Env} {data : Bytes} {err : E},
    Inv s .read → data ≠ [] →
    failure s env (messages (enqueueBytes (⟨f, []⟩ : Logged F) data)) = some err →
    (c.resume s (⟨f, []⟩ : Logged F) (some data) env).1 = .complete (.error err)
  unfailing : ∀ {F : Type} [Fragmentizer F] {f : F} {s : S} {env : Env} {data : Bytes}
    {ms : List ServerMessage} {err : E}, Inv s .read → data ≠ [] →
    failure s env (messages (enqueueBytes (⟨f, []⟩ : Logged F) data)) = none →
    failure s env ms = some err →
    (c.resume s (⟨f, []⟩ : Logged F) (some data) env).1 ≠ .complete (.error err)
  unread : ∀ s env, failure s env [] = none
  added : ∀ {s : S} {env : Env} {ms ms' : List ServerMessage}, Adds m ms ms' →
    failure s env ms' ≠ failure s env ms → ∃ err, failure s env ms' = some err
  keeps : ∀ {F : Type} [Fragmentizer F] {a b : Config S F} {t : Turn S F Env Y (Except E V)},
    (∀ due, a.due = some due → Inv a.state due) → c.Step a t b →
    ∀ due, b.due = some due → Inv b.state due

section Comparison

variable {S F G Env Y E V α : Type} [Fragmentizer F] [Fragmentizer G]
  {c : Coroutine S Env Y (Except E V)} {m : ServerMessage}
  {failure : S → Env → List ServerMessage → Option E} {Inv : S → Request → Prop}
  {add : α → CoroutineState Y (Except E V) → α} {start : α}
  {es : List (Turn S F Env Y (Except E V))} {us : List (Turn S G Env Y (Except E V))}
  {a b : Config S F} {e d : Config S G} {t : Turn S F Env Y (Except E V)}
  {u : Turn S G Env Y (Except E V)}

omit [Fragmentizer F] in
theorem observed_concat : observed add start (es ++ [t]) = add (observed add start es) t.out := by
  rw [observed, List.foldl_append]
  rfl

omit [Fragmentizer F] [Fragmentizer G] in
theorem Agree.concat (h : Agree add start es us) (hout : u.out = t.out) :
    Agree add start (es ++ [t]) (us ++ [u]) := by
  obtain ⟨hobserved, hresults⟩ := h
  constructor
  · rw [observed_concat, observed_concat, hobserved, hout]
  · rw [results_concat, results_concat, hresults, hout]

omit [Fragmentizer F] [Fragmentizer G] in
theorem Agree.aside {y : Y} (h : Agree add start es us) (hout : u.out = .yielded y)
    (hadd : ∀ x, add x (.yielded y) = x) : Agree add start es (us ++ [u]) := by
  obtain ⟨hobserved, hresults⟩ := h
  constructor
  · rw [observed_concat, hout, hadd, hobserved]
  · rw [results_yielded hout, hresults]

omit [Fragmentizer F] in
/-- The second run fails: nothing follows, and the runs agree no more. -/
theorem Agree.fails {err : E} (h : Agree add start es us) (hstep : c.Step e u d)
    (hout : u.out = .complete (.error err)) :
    (∀ v d', ¬ c.Step d v d') ∧ ¬ Agree add start es (us ++ [u]) := by
  obtain ⟨-, -, -, -, rfl⟩ := c.step_upshot hstep
  exact ⟨Coroutine.finish_stuck hout, fun hx => results_ended h.2 hout hx.2⟩

omit [Fragmentizer F] in
/-- The second run has gone on, and is back where the first one waits. -/
theorem Aligned.aside {e₀ : Config S G} {y : Y} (h : Aligned Inv a e₀) (hstep : c.Step e u d)
    (hout : u.out = .yielded y) (hafter : u.after = a.state) (hdue : a.due = some (c.request y)) :
    Aligned Inv a d := by
  obtain ⟨-, -, -, -, rfl⟩ := c.step_upshot hstep
  refine ⟨hafter, ?_, h.inv⟩
  rw [Coroutine.finish, hout]
  exact hdue.symm

theorem Passes.parted (hp : Passes c m failure Inv) {f : F} {g : G} {s : S} {env : Env}
    {due : Request} {ms ms' : List ServerMessage} {arg arg' : Option Bytes} {err : E}
    (h : Inv s due) (hg : Given (⟨f, []⟩ : Logged F) (⟨g, []⟩ : Logged G) ms ms' due arg arg')
    (hread : ms' ≠ ms → due = .read ∧ arg ≠ some []) (hfail : failure s env ms' = some err)
    (hne : failure s env ms ≠ some err) :
    (c.resume s (⟨g, []⟩ : Logged G) arg' env).1 = .complete (.error err) ∧
      (c.resume s (⟨f, []⟩ : Logged F) arg env).1 ≠ .complete (.error err) := by
  have hms : ms' ≠ ms := by
    rintro rfl
    exact hne hfail
  obtain ⟨rfl, harg⟩ := hread hms
  cases hg with
  | eof => exact absurd rfl harg
  | @read data data' hdata hdata' hmessages hmessages' =>
    subst hmessages hmessages'
    refine ⟨hp.failing h hdata' hfail, ?_⟩
    rcases hother : failure s env (messages (enqueueBytes (⟨f, []⟩ : Logged F) data)) with - | err'
    · exact hp.unfailing h hdata hother hfail
    · rw [hp.failing h hdata hother]
      intro he
      simp only [CoroutineState.complete.injEq, Except.error.injEq] at he
      exact hne (he ▸ hother)

theorem Passes.turns_both (hp : Passes c m failure Inv) {p : Spot S G Env Y (Except E V)}
    (hr : Aligned Inv a e) (hagree : Agree add start es us) (hstep : c.Step a t b)
    (hstep' : c.Step e u d) (hsame : AlikeAt m t u p) :
    Turns c.Step (Aligned Inv) (Agree add start) (Unheeded failure p) (es ++ [t]) (us ++ [u]) b d := by
  obtain ⟨halike, rfl⟩ := hsame
  obtain ⟨hdue, hans, hbefore, hup, hb⟩ := c.step_upshot hstep
  obtain ⟨-, hans', hbefore', hup', hd⟩ := c.step_upshot hstep'
  have hinv : Inv t.before t.due := by
    rw [hbefore]
    exact hr.inv t.due hdue
  have hgiven := halike.given hans hans'
  rw [hbefore', hr.state, ← hbefore, halike.env] at hup'
  rw [Unheeded, hbefore', hr.state, ← hbefore, halike.env]
  constructor
  · intro hfail
    have hsame := hup'.trans ((hp.given hinv hgiven halike.adds hfail).trans hup.symm)
    obtain ⟨hout, hafter⟩ := Prod.mk.inj hsame
    refine ⟨⟨?_, ?_, hp.keeps hr.inv hstep⟩, hagree.concat hout⟩
    · rw [hb, hd]
      exact hafter
    · rw [hb, hd, Coroutine.finish, Coroutine.finish, hout]
  · intro hfail
    have hne : u.received ≠ t.received := by
      intro he
      exact hfail (by rw [he])
    obtain ⟨err, herr⟩ := hp.added halike.adds hfail
    obtain ⟨hparts, hother⟩ := hp.parted hinv hgiven (fun _ => halike.read hne) herr
      fun he => hfail (herr.trans he.symm)
    have hout : u.out = .complete (.error err) := (congrArg Prod.fst hup').trans hparts
    have hout' : t.out ≠ .complete (.error err) := by
      rw [show t.out = _ from congrArg Prod.fst hup]
      exact hother
    refine ⟨?_, fun hx => results_parted hagree.2 hout hout' hx.2⟩
    rw [hd]
    exact Coroutine.finish_stuck hout

omit [Fragmentizer F] in
theorem step_octets (hstep : c.Step e u d) (hdue : u.due = .read) (harg : u.arg ≠ some []) :
    ∃ data, u.arg = some data ∧ data ≠ [] ∧
      u.received = messages (enqueueBytes (⟨u.frag, []⟩ : Logged G) data) := by
  obtain ⟨-, hans, -, -, -⟩ := c.step_upshot hstep
  rw [hdue] at hans
  obtain ⟨data, hdata⟩ := Option.isSome_iff_exists.mp hans
  have hne : data ≠ [] := by
    rintro rfl
    exact harg hdata
  exact ⟨data, hdata, hne, received_logged hdue hdata hne⟩

omit [Fragmentizer F] in
/-- A read of the second run alone either fails or leaves it waiting. -/
theorem Passes.turns_read (hp : Passes c m failure Inv) (hr : Aligned Inv a e)
    (hagree : Agree add start es us) (hstep : c.Step e u d) (hdue : u.due = .read)
    (harg : u.arg ≠ some []) {y : Y} (hy : c.request y = .read) (hadd : ∀ x, add x (.yielded y) = x)
    (hwaits : Inv u.before .read → ∀ data, u.arg = some data → data ≠ [] →
      failure u.before u.env u.received = none →
      u.received = messages (enqueueBytes (⟨u.frag, []⟩ : Logged G) data) →
      upshot (c.resume u.before (⟨u.frag, []⟩ : Logged G) (some data) u.env) =
        (.yielded y, u.before)) :
    Turns c.Step (Aligned Inv) (Agree add start) (Unheeded failure ⟨u, []⟩) es (us ++ [u]) a d := by
  obtain ⟨hedue, -, hbefore, hup, -⟩ := c.step_upshot hstep
  obtain ⟨data, hdata, hne, hreceived⟩ := step_octets hstep hdue harg
  have hadue : a.due = some .read := by rw [← hr.due, hedue, hdue]
  have hinv : Inv u.before .read := by
    rw [hbefore, hr.state]
    exact hr.inv .read hadue
  have hunheeded : Unheeded failure ⟨u, []⟩ ↔ failure u.before u.env u.received = none := by
    rw [Unheeded, hp.unread]
  rw [hdata] at hup
  constructor
  · intro hx
    have hwait := hwaits hinv data hdata hne (hunheeded.mp hx) hreceived
    obtain ⟨hout, hafter⟩ := Prod.mk.inj (hup.trans hwait)
    refine ⟨hr.aside hstep hout (hafter.trans (hbefore.trans hr.state)) ?_, hagree.aside hout hadd⟩
    rw [hadue, hy]
  · intro hx
    obtain ⟨err, herr⟩ := Option.ne_none_iff_exists'.mp (mt hunheeded.mpr hx)
    rw [hreceived] at herr
    exact hagree.fails hstep ((congrArg Prod.fst hup).trans (hp.failing hinv hne herr))

end Comparison
end IoImap
