import IoImap.Client.Pump

/-!
# One operation for each yield (client.rs)

A loop takes a fresh tag where its coroutine wants one and serves every other yield by one
operation. Whatever the operations work on, what such a loop does is what the run of its
coroutine asks for, in this order, and nothing else.
-/

namespace IoImap
open Transition

/-- imap-types' `TagGenerator`. -/
class TagGenerator (G : Type) where
  generate : G → Tag × G

def Issues {G : Type} [TagGenerator G] (g : G) (tag : Tag) (g' : G) : Prop :=
  TagGenerator.generate g = (tag, g')

/-- The operations that a loop serves its yields with, on the place that they work on. -/
structure Operations (W Y E Op P G : Type) where
  place : W → P
  tags : W → G
  Performs : P → Op → P → Prop
  /-- The operation is one that the yield asks for. -/
  Answers : Op → Y → Prop
  /-- What a failed operation ends the call with. -/
  failure? : Op → Option (ImapClientError E)
  received? : Op → Option Bytes

/-- The yield of a resume, when it asks for an operation. -/
def Coroutine.asked? {S Env Y R F : Type} (c : Coroutine S Env Y R) (t : Turn S F Env Y R) : Option Y :=
  match t.out with
  | .yielded y => if c.request y = .tag then none else some y
  | .complete _ => none

/-- The answer that the next resume gets to the given request. -/
def Call.pending {S F W E V : Type} (call : Call S F W E V) (b : Config S F) (request : Request) :
    List Bytes :=
  if b.due = some request then call.arg.toList else []

namespace Operations

variable {S F W Y E V Op P G : Type} [TagGenerator G] (o : Operations W Y E Op P G)

/-- A loop that serves every yield so; `holds` is what it keeps between two resumes. -/
structure Serves (c : Coroutine S Unit Y (Except E V)) (serve : Serve W Y E) (holds : S → W → Prop) :
    Prop where
  honours : serve.Honours c.request
  asks : ∀ w y, c.request y = .tag → ∃ tag w', Issues (o.tags w) tag (o.tags w') ∧
    o.place w' = o.place w ∧ serve w y = (.ok (some tag.inner), w')
  operates : ∀ {F : Type} [Fragmentizer F] (s : S) (f : F) (arg : Option Bytes) (w : W) (y : Y),
    (c.resume s f arg ()).1 = .yielded y → holds s w → c.request y ≠ .tag →
    ∃ op w', o.Answers op y ∧ o.Performs (o.place w) op (o.place w') ∧ o.tags w' = o.tags w ∧
      serve w y = (match o.failure? op with
        | some err => .error err
        | none => .ok (o.received? op), w')
  holds : ∀ {F : Type} [Fragmentizer F] (s : S) (f : F) (arg : Option Bytes) (w : W) (y : Y)
    (answer : Option Bytes) (w' : W), (c.resume s f arg ()).1 = .yielded y → holds s w →
    serve w y = (.ok answer, w') → holds (c.resume s f arg ()).2.1 w'
  reads : ∀ op y, o.Answers op y → c.request y ≠ .read → o.received? op = none
  failed : ∀ op err, o.failure? op = some err → o.received? op = none

/-- What a returned call has to show for its result: the completion of its coroutine, or
the failure of the last operation; all the operations before it were successful. -/
def Shows (ts : List (Call.Resume S F Y E V)) (ops : List Op) :
    Option (Except (ImapClientError E) V) → Prop
  | none => ∀ op ∈ ops, o.failure? op = none
  | some (.ok v) => (∀ op ∈ ops, o.failure? op = none) ∧
      ∃ t, ts.getLast? = some t ∧ t.out = .complete (.ok v)
  | some (.error err) => (∃ pre op, ops = pre ++ [op] ∧ (∀ x ∈ pre, o.failure? x = none) ∧
        o.failure? op = some err) ∨
      ((∀ op ∈ ops, o.failure? op = none) ∧
        ∃ t e, ts.getLast? = some t ∧ t.out = .complete (.error e) ∧ err = .coroutine e)

/-- What a call does is what the run it drives asks for, in this order: one operation for
each yield and one fresh tag for each tag. Every answer but the last goes into the next
resume. -/
structure Driven (c : Coroutine S Unit Y (Except E V)) (w : W) (ts : List (Call.Resume S F Y E V))
    (b : Config S F) (call : Call S F W E V) (ops : List Op) (tags : List Tag) : Prop where
  performed : Run o.Performs (o.place w) ops (o.place call.world)
  issued : Run Issues (o.tags w) tags (o.tags call.world)
  answers : List.Forall₂ o.Answers ops (ts.filterMap c.asked?)
  reads : ts.filterMap Turn.given? ++ call.pending b .read = ops.filterMap o.received?
  tagged : ts.filterMap Turn.tag? ++ call.pending b .tag = tags.map Tag.inner
  shows : o.Shows ts ops call.result
  settled : call.result.isSome = true → call.arg = none

section Driven

variable {o} {c : Coroutine S Unit Y (Except E V)} {serve : Serve W Y E} {holds : S → W → Prop} {w : W}
  {ts : List (Call.Resume S F Y E V)} {b : Config S F} {call : Call S F W E V}
  {ops : List Op} {tags : List Tag} {t : Call.Resume S F Y E V}

theorem driven_start (s : S) (f : F) (w : W) :
    o.Driven c w [] (Coroutine.start s f) (Call.start s f w : Call S F W E V) [] [] where
  performed := .nil
  issued := .nil
  answers := .nil
  reads := rfl
  tagged := rfl
  shows := by simp [Shows, Call.start]
  settled := by simp [Call.start]

/-- What was pending is what the next resume is given. -/
theorem Driven.resumed (h : o.Driven c w ts b call ops tags) (hdue : b.due = some t.due)
    (harg : t.arg = call.arg) :
    (ts ++ [t]).filterMap Turn.given? = ops.filterMap o.received? ∧
      (ts ++ [t]).filterMap Turn.tag? = tags.map Tag.inner := by
  rw [List.filterMap_append, List.filterMap_append, ← h.reads, ← h.tagged, Call.pending, Call.pending,
    hdue, ← harg]
  constructor
  · by_cases hr : t.due = .read
    · cases ha : t.arg <;> simp [Turn.given?, hr, ha]
    · simp [Turn.given?, hr]
  · by_cases ht : t.due = .tag
    · cases ha : t.arg <;> simp [Turn.tag?, ht, ha]
    · simp [Turn.tag?, ht]

theorem Driven.completes (h : o.Driven c w ts b call ops tags) (hgoes : call.result = none)
    (hdue : b.due = some t.due) (harg : t.arg = call.arg) {r : Except E V} (hout : t.out = .complete r) :
    o.Driven c w (ts ++ [t]) (c.finish t) (Call.after serve t call.world) ops tags := by
  obtain ⟨hreads, htags⟩ := h.resumed hdue harg
  have hshows := h.shows
  rw [hgoes] at hshows
  have hasked : (ts ++ [t]).filterMap c.asked? = ts.filterMap c.asked? := by
    simp [Coroutine.asked?, hout]
  have hworld : (Call.after serve t call.world).world = call.world ∧
      (Call.after serve t call.world).arg = none := by
    rw [Call.after, hout]
    cases r <;> exact ⟨rfl, rfl⟩
  refine ⟨?_, ?_, hasked ▸ h.answers, ?_, ?_, ?_, fun _ => hworld.2⟩
  · rw [hworld.1]
    exact h.performed
  · rw [hworld.1]
    exact h.issued
  · simp [Call.pending, hworld.2, hreads]
  · simp [Call.pending, hworld.2, htags]
  · rw [Call.after, hout]
    cases r with
    | error err => exact .inr ⟨hshows, t, err, by simp, hout, rfl⟩
    | ok v => exact ⟨hshows, t, by simp, hout⟩

theorem Driven.asks (hserves : o.Serves c serve holds) (h : o.Driven c w ts b call ops tags)
    (hgoes : call.result = none) (hdue : b.due = some t.due) (harg : t.arg = call.arg) {y : Y}
    (hout : t.out = .yielded y) (hy : c.request y = .tag) : ∃ tags',
      o.Driven c w (ts ++ [t]) (c.finish t) (Call.after serve t call.world) ops tags' := by
  obtain ⟨hreads, htags⟩ := h.resumed hdue harg
  obtain ⟨tag, w', hissues, hplace, hserve⟩ := hserves.asks call.world y hy
  have hnext : (c.finish t).due = some .tag := by
    rw [Coroutine.finish, hout]
    exact congrArg some hy
  have hasked : (ts ++ [t]).filterMap c.asked? = ts.filterMap c.asked? := by
    simp [Coroutine.asked?, hout, hy]
  have hshows := h.shows
  rw [hgoes] at hshows
  refine ⟨tags ++ [tag], ?_⟩
  rw [Call.after, hout]
  dsimp only
  rw [hserve]
  refine ⟨?_, h.issued.snoc hissues, hasked ▸ h.answers, ?_, ?_, hshows, by simp⟩
  · rw [hplace]
    exact h.performed
  · simp [Call.pending, hnext, hreads]
  · simp [Call.pending, hnext, htags]

theorem Driven.operates (hserves : o.Serves c serve holds) (h : o.Driven c w ts b call ops tags)
    (hgoes : call.result = none) (hdue : b.due = some t.due) (harg : t.arg = call.arg) {y : Y}
    (hout : t.out = .yielded y) (hy : c.request y ≠ .tag) {op : Op} {w' : W} (hop : o.Answers op y)
    (hperforms : o.Performs (o.place call.world) op (o.place w')) (hsame : o.tags w' = o.tags call.world)
    (hserve : serve call.world y = (match o.failure? op with
      | some err => .error err
      | none => .ok (o.received? op), w')) :
    o.Driven c w (ts ++ [t]) (c.finish t) (Call.after serve t call.world) (ops ++ [op]) tags := by
  obtain ⟨hreads, htags⟩ := h.resumed hdue harg
  have hnext : (c.finish t).due = some (c.request y) := by rw [Coroutine.finish, hout]
  have hasked : c.asked? t = some y := by rw [Coroutine.asked?, hout]; exact if_neg hy
  have hanswers : List.Forall₂ o.Answers (ops ++ [op]) ((ts ++ [t]).filterMap c.asked?) := by
    rw [List.filterMap_append, List.filterMap_cons_some hasked]
    exact List.rel_append h.answers (.cons hop .nil)
  have hissued : Run Issues (o.tags w) tags (o.tags w') := hsame ▸ h.issued
  have hshows := h.shows
  rw [hgoes] at hshows
  rw [Call.after, hout]
  dsimp only
  rw [hserve]
  -- a failure ends the call, and no answer of it is pending
  cases hf : o.failure? op with
  | some err =>
    have hnone := hserves.failed op err hf
    refine ⟨h.performed.snoc hperforms, hissued, hanswers, ?_, ?_, .inl ⟨ops, op, rfl, hshows, hf⟩,
      fun _ => rfl⟩
    · simp [Call.pending, hreads, hnone]
    · simp [Call.pending, htags]
  | none =>
    have hall : ∀ x ∈ ops ++ [op], o.failure? x = none := by
      intro x hx
      rcases List.mem_append.mp hx with hx | hx
      · exact hshows x hx
      · rw [List.mem_singleton.mp hx]
        exact hf
    refine ⟨h.performed.snoc hperforms, hissued, hanswers, ?_, ?_, hall, by simp⟩
    · rw [hreads, List.filterMap_append, Call.pending, hnext]
      by_cases hr : c.request y = .read
      · rw [if_pos (congrArg some hr)]
        cases hrec : o.received? op <;> simp [hrec]
      · rw [if_neg fun he => hr (Option.some.inj he)]
        simp [hserves.reads op y hop hr]
    · rw [htags, Call.pending, hnext, if_neg fun he => hy (Option.some.inj he), List.append_nil]

/-- A call that has returned leaves no answer behind. -/
theorem Driven.returned (h : o.Driven c w ts b call ops tags) (hreturned : call.result.isSome = true) :
    ts.filterMap Turn.given? = ops.filterMap o.received? ∧
      ts.filterMap Turn.tag? = tags.map Tag.inner := by
  have hnone : ∀ request, call.pending b request = [] := by
    intro request
    simp [Call.pending, h.settled hreturned]
  rw [← h.reads, ← h.tagged, hnone, hnone, List.append_nil, List.append_nil]
  exact ⟨rfl, rfl⟩

/-- A loop that serves every yield so drives a run of its coroutine, and does what that run
asks for. -/
theorem Serves.driven [Fragmentizer F] (hserves : o.Serves c serve holds) (hc : c.Unlogged) (s : S)
    (f : F) (w : W) (hholds : holds s w) (n : Nat) :
    ∃ ts b ops tags, c.Runs s f ts b ∧ ((Call.start s f w).run c serve n).Drives b ∧
      o.Driven c w ts b ((Call.start s f w).run c serve n) ops tags ∧
      (((Call.start s f w).run c serve n).result = none → ts.length = n) := by
  have hall : ∃ ts b, c.Runs s f ts b ∧ ((Call.start s f w).run c serve n).Drives b ∧
      ((((Call.start s f w).run c serve n).result = none →
        holds b.state ((Call.start s f w).run c serve n).world) ∧
        ∃ ops tags, o.Driven c w ts b ((Call.start s f w).run c serve n) ops tags) ∧
      (((Call.start s f w).run c serve n).result = none → ts.length = n) := by
    -- on the passes; what the loop holds comes along, as a yield is only served in such a state
    refine Call.history hc hserves.honours (P := fun ts b call =>
      (call.result = none → holds b.state call.world) ∧ ∃ ops tags, o.Driven c w ts b call ops tags)
      ⟨fun _ => hholds, [], [], driven_start _ _ _⟩ ?_ n
    intro ts b call due t hrun hx hdrives hgoes hdue hstep ht
    obtain ⟨hholds, ops, tags, h⟩ := hx
    have hdue' : b.due = some t.due := by rw [hdue, ht]; rfl
    have harg : t.arg = call.arg := by rw [ht]; rfl
    have hresume : c.resume b.state (⟨b.frag, []⟩ : Logged F) call.arg () =
        (t.out, t.after, ⟨t.fragAfter, t.log⟩) := by rw [ht]; rfl
    cases hout : t.out with
    | complete r => exact ⟨by rw [Call.after, hout]; cases r <;> simp, ops, tags,
        h.completes hgoes hdue' harg hout⟩
    | yielded y =>
      have hyields : (c.resume b.state (⟨b.frag, []⟩ : Logged F) call.arg ()).1 = .yielded y := by
        rw [hresume, hout]
      constructor
      · rw [Call.after, hout]
        dsimp only
        rcases hserve : serve call.world y with ⟨err | answer, w'⟩
        · simp
        · intro _
          have hnext := hserves.holds b.state _ call.arg call.world y answer w' hyields
            (hholds hgoes) hserve
          rw [hresume] at hnext
          exact hnext
      · by_cases hy : c.request y = .tag
        · obtain ⟨tags', h'⟩ := h.asks hserves hgoes hdue' harg hout hy
          exact ⟨ops, tags', h'⟩
        · obtain ⟨op, w', hop, hperforms, hsame, hserve⟩ :=
            hserves.operates b.state _ call.arg call.world y hyields (hholds hgoes) hy
          exact ⟨ops ++ [op], tags, h.operates hserves hgoes hdue' harg hout hy hop hperforms hsame hserve⟩
  obtain ⟨ts, b, hrun, hdrives, ⟨-, ops, tags, h⟩, hlength⟩ := hall
  exact ⟨ts, b, ops, tags, hrun, hdrives, h, hlength⟩

end Driven
end Operations
end IoImap
