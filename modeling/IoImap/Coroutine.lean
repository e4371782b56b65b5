import IoImap.Codec.Fragmentizer
import IoImap.Transition.Run
import Mathlib.Data.List.Forall2

/-!
# Coroutines and their runs (coroutine.rs)

A coroutine is resumed with the connection's fragmentizer and the caller's
answer to its last yield, and yields again or completes. A run is a sequence of
resumes in which the caller honours the contract of `ImapCoroutine::resume`:
nothing at first and after a write, a tag after `WantsTag`, octets after
`WantsRead`, nothing or the sign of a short read after `WantsStream`. What the
environment decides during one resume (shared flags, the clock) is an input of
that resume.
-/

namespace IoImap

inductive CoroutineState (Y R : Type) where
  | yielded (y : Y)
  | complete (r : R)

inductive ImapYield where
  | wantsTag
  | wantsRead
  | wantsWrite (bytes : Bytes)

inductive Request where
  | nothing
  | tag
  | read
  | stream (len : Nat)
  deriving DecidableEq

/-- The resume contract: the argument that answers a request. -/
def Request.answeredBy : Request → Option Bytes → Bool
  | .nothing, arg => arg.isNone
  | .tag, arg => arg.isSome
  | .read, arg => arg.isSome
  | .stream _, arg => arg.isNone || arg == some []

theorem Request.answeredBy_nothing {arg : Option Bytes} :
    Request.nothing.answeredBy arg = true ↔ arg = none :=
  Option.isNone_iff_eq_none

theorem Request.answeredBy_stream {len : Nat} {bytes : Bytes} :
    (Request.stream len).answeredBy (some bytes) = true ↔ bytes = [] := by
  simp [Request.answeredBy]

def Request.octets : Request → Option Bytes → List Bytes
  | .read, some (b :: bs) => [b :: bs]
  | _, _ => []

/-- The octets that the answer to a request takes off the socket: a read takes those
it answers with, a copy into the caller's sink all the octets asked for, or what
there was when the socket ran short. -/
def Request.Takes : Request → Option Bytes → Bytes → Prop
  | .read, some bytes, taken => taken = bytes
  | .stream len, none, taken => taken.length = len
  | .stream len, some _, taken => taken.length ≤ len
  | _, _, taken => taken = []

/-- The octets taken off the socket that went past the coroutine, into the caller's sink. -/
def Request.copied (due : Request) (taken : Bytes) : Bytes :=
  match due with
  | .stream _ => taken
  | _ => []

theorem Request.exists_takes (due : Request) (arg : Option Bytes) : ∃ taken, due.Takes arg taken := by
  cases due with
  | read =>
    cases arg with
    | none => exact ⟨[], rfl⟩
    | some bytes => exact ⟨bytes, rfl⟩
  | stream len =>
    cases arg with
    | none => exact ⟨List.replicate len 0, List.length_replicate⟩
    | some bytes => exact ⟨[], Nat.zero_le len⟩
  | nothing => exact ⟨[], rfl⟩
  | tag => exact ⟨[], rfl⟩

instance (due : Request) (arg : Option Bytes) (taken : Bytes) : Decidable (due.Takes arg taken) := by
  unfold Request.Takes
  split <;> infer_instance

theorem Request.octets_read {data : Bytes} (h : data ≠ []) :
    Request.octets .read (some data) = [data] := by
  obtain ⟨b, bs, rfl⟩ := List.exists_cons_of_ne_nil h
  rfl

theorem Request.octets_of_ne {due : Request} (h : due ≠ .read) (arg : Option Bytes) :
    due.octets arg = [] := by
  cases due with
  | read => exact absurd rfl h
  | _ => rfl

theorem Request.octets_none (due : Request) : due.octets none = [] := by
  cases due <;> rfl

theorem Request.octets_eof (due : Request) : due.octets (some []) = [] := by
  cases due <;> rfl

def ImapYield.request : ImapYield → Request
  | .wantsTag => .tag
  | .wantsRead => .read
  | .wantsWrite _ => .nothing

namespace CoroutineState

variable {Y Y' R R' E E' V W : Type}

/-- The coroutine `?` (`imap_try!`) of a coroutine that does nothing but finish
the value of another one: yields are forwarded and errors converted. -/
def tryOk (into : Y → Y') (err : E → E') (finish : V → Except E' W) :
    CoroutineState Y (Except E V) → CoroutineState Y' (Except E' W)
  | .yielded y => .yielded (into y)
  | .complete (.error e) => .complete (.error (err e))
  | .complete (.ok v) => .complete (finish v)

section TryOk

variable {into : Y → Y'} {err : E → E'} {finish : V → Except E' W}
  {x : CoroutineState Y (Except E V)}

theorem tryOk_yielded {y' : Y'} (h : x.tryOk into err finish = .yielded y') :
    ∃ y, x = .yielded y ∧ into y = y' := by
  rcases x with y | (e | v)
  · exact ⟨y, rfl, CoroutineState.yielded.inj h⟩
  · simp [tryOk] at h
  · simp [tryOk] at h

theorem tryOk_ok {w : W} (h : x.tryOk into err finish = .complete (.ok w)) :
    ∃ v, x = .complete (.ok v) ∧ finish v = .ok w := by
  rcases x with y | (e | v)
  · simp [tryOk] at h
  · simp [tryOk] at h
  · exact ⟨v, rfl, CoroutineState.complete.inj h⟩

end TryOk
end CoroutineState

structure Coroutine (S Env Y R : Type) where
  resume : ∀ {F : Type} [Fragmentizer F], S → F → Option Bytes → Env → CoroutineState Y R × S × F
  request : Y → Request

/-- One resume of a run: the state, fragmentizer, request and answer it started
from, and what it came to. -/
structure Turn (S F Env Y R : Type) where
  before : S
  frag : F
  due : Request
  arg : Option Bytes
  env : Env
  out : CoroutineState Y R
  after : S
  fragAfter : F
  log : List FragmentizerEvent

/-- A coroutine between two resumes; `due` is `none` once it has completed. -/
structure Config (S F : Type) where
  state : S
  frag : F
  due : Option Request

namespace Turn

variable {S F Env Y R : Type} (t : Turn S F Env Y R)

def fed : List Bytes := t.log.filterMap FragmentizerEvent.bytes?

def completed : List ServerMessage := t.log.filterMap FragmentizerEvent.message?

def answer : List Bytes := t.due.octets t.arg

def Takes (taken : Bytes) : Prop := t.due.Takes t.arg taken

instance (taken : Bytes) : Decidable (t.Takes taken) :=
  inferInstanceAs (Decidable (t.due.Takes t.arg taken))

/-- The messages that the octets of this resume complete in the fragmentizer it
was given, whether or not the coroutine looks at them. -/
def received [Fragmentizer F] : List ServerMessage :=
  t.answer.flatMap fun bytes => Fragmentizer.messages (Fragmentizer.enqueueBytes t.frag bytes)

/-- What this resume was given. -/
def given : F × Request × Option Bytes := (t.frag, t.due, t.arg)

variable {t} in
theorem given_concat {es : List (Turn S F Env Y R)} {g : F × Request × Option Bytes} (h : t.given = g) :
    (es ++ [t]).map given = es.map given ++ [g] := by
  rw [List.map_append, List.map_singleton, h]

/-- The tag this resume was given, when one was asked for. -/
def tag? : Option Bytes := if t.due = .tag then t.arg else none

/-- What this resume was told of the octets asked for. -/
def read? : Option (Option Bytes) :=
  match t.due with
  | .nothing | .tag => none
  | .read | .stream _ => some t.arg

section Log

variable {t} {data : Bytes} {ms : List ServerMessage}

theorem completed_silent (h : t.log = []) : t.completed = [] := by rw [completed, h]; rfl

theorem completed_read (h : t.log = .fed data :: ms.map .completed) : t.completed = ms := by
  rw [completed, h, FragmentizerEvent.message?_read]

theorem fed_read (h : t.log = .fed data :: ms.map .completed) : t.fed = [data] := by
  rw [fed, h, FragmentizerEvent.bytes?_read]

end Log
end Turn

theorem forall₂_concat {α β : Type} {R : α → β → Prop} {as : List α} {a : α} {bs : List β}
    (h : List.Forall₂ R (as ++ [a]) bs) :
    ∃ cs b, List.Forall₂ R as cs ∧ R a b ∧ bs = cs ++ [b] := by
  induction as generalizing bs with
  | nil =>
    cases h with
    | @cons _ b _ _ hb hnil =>
      cases hnil
      exact ⟨[], b, .nil, hb, rfl⟩
  | cons x as ih =>
    cases h with
    | @cons _ y _ bs hy hbs =>
      obtain ⟨cs, b, hcs, hb, rfl⟩ := ih hbs
      exact ⟨y :: cs, b, .cons hy hcs, hb, rfl⟩

/-- The caller served a run from the octets on the wire, in some partition into
reads and copies, and has not taken `rest` off it. -/
def Served {S F Env Y R : Type} (es : List (Turn S F Env Y R)) (wire rest : Bytes) : Prop :=
  ∃ pieces, List.Forall₂ Turn.Takes es pieces ∧ wire = pieces.flatten ++ rest

section Served

variable {S F Env Y R : Type} {es : List (Turn S F Env Y R)} {t : Turn S F Env Y R}
  {wire rest : Bytes}

theorem served_nil : Served ([] : List (Turn S F Env Y R)) wire rest ↔ wire = rest := by
  constructor
  · intro hx
    obtain ⟨pieces, hpieces, rfl⟩ := hx
    cases hpieces
    rfl
  · intro he
    obtain rfl := he
    exact ⟨[], .nil, rfl⟩

theorem served_cons : Served (t :: es) wire rest ↔
    ∃ taken more, t.Takes taken ∧ wire = taken ++ more ∧ Served es more rest := by
  constructor
  · intro hx
    obtain ⟨pieces, hpieces, rfl⟩ := hx
    cases hpieces with
    | @cons _ taken _ pieces htaken hpieces =>
      exact ⟨taken, pieces.flatten ++ rest, htaken, by simp, pieces, hpieces, rfl⟩
  · intro hx
    obtain ⟨taken, more, htaken, rfl, pieces, hpieces, rfl⟩ := hx
    exact ⟨taken :: pieces, .cons htaken hpieces, by simp⟩

theorem served_concat : Served (es ++ [t]) wire rest ↔
    ∃ taken, t.Takes taken ∧ Served es wire (taken ++ rest) := by
  induction es generalizing wire with
  | nil =>
    simp only [List.nil_append, served_cons, served_nil]
    constructor
    · intro hx
      obtain ⟨taken, more, htaken, rfl, rfl⟩ := hx
      exact ⟨taken, htaken, rfl⟩
    · intro hx
      obtain ⟨taken, htaken, rfl⟩ := hx
      exact ⟨taken, rest, htaken, rfl, rfl⟩
  | cons e es ih =>
    simp only [List.cons_append, served_cons, ih]
    constructor
    · intro hx
      obtain ⟨first, more, hfirst, rfl, taken, htaken, hes⟩ := hx
      exact ⟨taken, htaken, first, more, hfirst, rfl, hes⟩
    · intro hx
      obtain ⟨taken, htaken, first, more, hfirst, rfl, hes⟩ := hx
      exact ⟨first, more, hfirst, rfl, taken, htaken, hes⟩

end Served

namespace Coroutine

variable {S Env Y R F : Type} [Fragmentizer F] (c : Coroutine S Env Y R)

def turn (a : Config S F) (due : Request) (arg : Option Bytes) (env : Env) : Turn S F Env Y R :=
  let r := c.resume a.state (⟨a.frag, []⟩ : Logged F) arg env
  ⟨a.state, a.frag, due, arg, env, r.1, r.2.1, r.2.2.frag, r.2.2.log⟩

def finish (t : Turn S F Env Y R) : Config S F :=
  ⟨t.after, t.fragAfter, match t.out with
    | .yielded y => some (c.request y)
    | .complete _ => none⟩

def Step (a : Config S F) (t : Turn S F Env Y R) (b : Config S F) : Prop :=
  ∃ due arg env, a.due = some due ∧ due.answeredBy arg = true ∧
    t = c.turn a due arg env ∧ b = c.finish t

variable {c} in
omit [Fragmentizer F] in
theorem finish_due {t : Turn S F Env Y R} {due : Request} (h : (c.finish t).due = some due) :
    ∃ y, t.out = .yielded y ∧ c.request y = due := by
  rw [finish] at h
  split at h
  · rename_i y hy
    exact ⟨y, hy, Option.some.inj h⟩
  · simp at h

/-- A step, with what its resume came to by name. -/
theorem step_cases {a b : Config S F} {t : Turn S F Env Y R} (h : c.Step a t b) :
    ∃ due arg env out s f log, a.due = some due ∧ due.answeredBy arg = true ∧
      c.resume a.state (⟨a.frag, []⟩ : Logged F) arg env = (out, s, ⟨f, log⟩) ∧
      t = ⟨a.state, a.frag, due, arg, env, out, s, f, log⟩ ∧
      b = ⟨s, f, match out with
        | .yielded y => some (c.request y)
        | .complete _ => none⟩ := by
  obtain ⟨due, arg, env, hd, hans, rfl, rfl⟩ := h
  exact ⟨due, arg, env, _, _, _, _, hd, hans, rfl, rfl, rfl⟩

variable {c} in
theorem Step.exists_due {a b : Config S F} {t : Turn S F Env Y R} (h : c.Step a t b) :
    ∃ due, a.due = some due := by
  obtain ⟨due, -, -, hdue, -⟩ := h
  exact ⟨due, hdue⟩

def start (s : S) (f : F) : Config S F := ⟨s, f, some .nothing⟩

/-- The runs of a coroutine from state `s` and fragmentizer `f`. -/
abbrev Runs (s : S) (f : F) : List (Turn S F Env Y R) → Config S F → Prop :=
  Transition.Run c.Step (start s f)

variable {c} in
/-- A resume that completes is the last of its run. -/
theorem run_completes {a b : Config S F} {pre post : List (Turn S F Env Y R)} {t : Turn S F Env Y R}
    {r : R} (h : Transition.Run c.Step a (pre ++ t :: post) b) (hout : t.out = .complete r) :
    post = [] := by
  obtain ⟨m, -, hrest⟩ := h.split
  obtain ⟨m', hstep, hpost⟩ := hrest.cons_inv
  obtain ⟨due, arg, env, -, -, -, rfl⟩ := hstep
  cases post with
  | nil => rfl
  | cons x post =>
    obtain ⟨_, hnext, -⟩ := hpost.cons_inv
    obtain ⟨due', hdue⟩ := hnext.exists_due
    obtain ⟨y, hy, -⟩ := finish_due hdue
    rw [hout] at hy
    simp at hy

/-- The run that answers the coroutine with the given arguments in order, `none`
when one of them breaks the contract. -/
def play (a : Config S F) : List (Option Bytes × Env) → Option (List (Turn S F Env Y R) × Config S F)
  | [] => some ([], a)
  | (arg, env) :: rest =>
    match a.due with
    | none => none
    | some due =>
      if due.answeredBy arg then
        let t := c.turn a due arg env
        (play (c.finish t) rest).map fun r => (t :: r.1, r.2)
      else none

theorem play_cons {a b : Config S F} {due : Request} {arg : Option Bytes} {env : Env}
    {rest : List (Option Bytes × Env)} {ts : List (Turn S F Env Y R)} (hd : a.due = some due)
    (hans : due.answeredBy arg = true)
    (h : c.play (c.finish (c.turn a due arg env)) rest = some (ts, b)) :
    c.play a ((arg, env) :: rest) = some (c.turn a due arg env :: ts, b) := by
  simp only [play, hd, hans, if_true, h, Option.map_some]

theorem play_length {a b : Config S F} {args : List (Option Bytes × Env)}
    {ts : List (Turn S F Env Y R)} (h : c.play a args = some (ts, b)) : ts.length = args.length := by
  induction args generalizing a ts with
  | nil =>
    simp only [play, Option.some.injEq, Prod.mk.injEq] at h
    rw [← h.1]
    rfl
  | cons x rest ih =>
    simp only [play] at h
    cases hd : a.due with
    | none => simp [hd] at h
    | some due =>
      simp only [hd] at h
      split at h
      · obtain ⟨⟨us, b'⟩, hplay, he⟩ := Option.map_eq_some_iff.mp h
        obtain ⟨rfl, rfl⟩ := Prod.mk.inj he
        rw [List.length_cons, List.length_cons, ih hplay]
      · simp at h

theorem play_run {a b : Config S F} {args : List (Option Bytes × Env)}
    {ts : List (Turn S F Env Y R)} (h : c.play a args = some (ts, b)) :
    Transition.Run c.Step a ts b := by
  induction args generalizing a ts with
  | nil =>
    simp only [play, Option.some.injEq, Prod.mk.injEq] at h
    obtain ⟨rfl, rfl⟩ := h
    exact .nil
  | cons x rest ih =>
    obtain ⟨arg, env⟩ := x
    simp only [play] at h
    cases hd : a.due with
    | none => simp [hd] at h
    | some due =>
      simp only [hd] at h
      split at h
      · rename_i hans
        obtain ⟨⟨us, b'⟩, hplay, he⟩ := Option.map_eq_some_iff.mp h
        simp only [Prod.mk.injEq] at he
        obtain ⟨rfl, rfl⟩ := he
        have hstep : c.Step a (c.turn a due arg env) (c.finish (c.turn a due arg env)) :=
          ⟨due, arg, env, hd, hans, rfl, rfl⟩
        exact (Transition.Run.single hstep).append (ih hplay)
      · simp at h

/-- A run from state `s` and fragmentizer `f` that was given `given` reaches `a`. -/
def Reaches (s : S) (f : F) (given : List (F × Request × Option Bytes)) (a : Config S F) : Prop :=
  ∃ ts, c.Runs s f ts a ∧ ts.map Turn.given = given

/-- A run that was given `given` succeeds with `v` and leaves the fragmentizer at `f'`. -/
def Completes {E V : Type} (c : Coroutine S Env Y (Except E V)) (s : S) (f : F)
    (given : List (F × Request × Option Bytes)) (v : V) (f' : F) : Prop :=
  ∃ ts t b, c.Runs s f (ts ++ [t]) b ∧ (ts ++ [t]).map Turn.given = given ∧
    t.out = .complete (.ok v) ∧ t.fragAfter = f'

section Reaches

variable {c} {s s' s'' : S} {f f' f'' : F} {given : List (F × Request × Option Bytes)} {due : Request}
  {arg : Option Bytes} {log : List FragmentizerEvent}

theorem reaches_start : c.Reaches s f [] (start s f) := ⟨[], .nil, rfl⟩

theorem Reaches.yields {y : Y} (h : c.Reaches s f given ⟨s', f', some due⟩) (env : Env)
    (hans : due.answeredBy arg = true)
    (hr : c.resume s' (⟨f', []⟩ : Logged F) arg env = (.yielded y, s'', ⟨f'', log⟩)) :
    c.Reaches s f (given ++ [(f', due, arg)]) ⟨s'', f'', some (c.request y)⟩ := by
  obtain ⟨ts, hrun, rfl⟩ := h
  obtain ⟨t, ht⟩ : ∃ t, t = c.turn ⟨s', f', some due⟩ due arg env := ⟨_, rfl⟩
  refine ⟨ts ++ [t], hrun.snoc ⟨due, arg, env, rfl, hans, ht, ?_⟩, ?_⟩
  · rw [ht, finish, turn, hr]
  · rw [List.map_append, ht]
    rfl

theorem Reaches.completes {E V : Type} {c : Coroutine S Env Y (Except E V)} {v : V}
    (h : c.Reaches s f given ⟨s', f', some due⟩) (env : Env) (hans : due.answeredBy arg = true)
    (hr : c.resume s' (⟨f', []⟩ : Logged F) arg env = (.complete (.ok v), s'', ⟨f'', log⟩)) :
    c.Completes s f (given ++ [(f', due, arg)]) v f'' := by
  obtain ⟨ts, hrun, rfl⟩ := h
  obtain ⟨t, ht⟩ : ∃ t, t = c.turn ⟨s', f', some due⟩ due arg env := ⟨_, rfl⟩
  refine ⟨ts, t, c.finish t, hrun.snoc ⟨due, arg, env, rfl, hans, ht, rfl⟩, ?_, ?_, ?_⟩
  · rw [List.map_append, ht]
    rfl
  · rw [ht, turn, hr]
  · rw [ht, turn, hr]

end Reaches

section Determinism

variable {c} [Subsingleton Env] {a b₁ b₂ : Config S F} {t₁ t₂ : Turn S F Env Y R}
  {es₁ es₂ : List (Turn S F Env Y R)} {tags : List Bytes} {reads : List (Option Bytes)}

/-- Steps from one configuration that are given the same are the same. -/
theorem step_agree (h₁ : c.Step a t₁ b₁) (h₂ : c.Step a t₂ b₂)
    (htag : ∀ bytes₁ bytes₂, t₁.tag? = some bytes₁ → t₂.tag? = some bytes₂ → bytes₁ = bytes₂)
    (hread : ∀ arg₁ arg₂, t₁.read? = some arg₁ → t₂.read? = some arg₂ → arg₁ = arg₂) :
    t₁ = t₂ ∧ b₁ = b₂ := by
  obtain ⟨due, arg₁, env₁, hd, hans₁, rfl, rfl⟩ := h₁
  obtain ⟨due', arg₂, env₂, hd', hans₂, rfl, rfl⟩ := h₂
  obtain rfl : due = due' := Option.some.inj (hd.symm.trans hd')
  obtain rfl : env₁ = env₂ := Subsingleton.elim env₁ env₂
  have harg : arg₁ = arg₂ := by
    cases due with
    | nothing =>
      rw [Request.answeredBy_nothing] at hans₁ hans₂
      rw [hans₁, hans₂]
    | tag =>
      obtain ⟨bytes₁, rfl⟩ := Option.isSome_iff_exists.mp hans₁
      obtain ⟨bytes₂, rfl⟩ := Option.isSome_iff_exists.mp hans₂
      rw [htag bytes₁ bytes₂ rfl rfl]
    | read => exact hread arg₁ arg₂ rfl rfl
    | stream len => exact hread arg₁ arg₂ rfl rfl
  rw [harg]
  exact ⟨rfl, rfl⟩

omit [Fragmentizer F] [Subsingleton Env] in
theorem served_alike {α : Type} {p : Turn S F Env Y R → Option α} {l : List α}
    (hl₁ : (t₁ :: es₁).filterMap p <+: l) (hl₂ : (t₂ :: es₂).filterMap p <+: l) (x₁ x₂ : α)
    (hx₁ : p t₁ = some x₁) (hx₂ : p t₂ = some x₂) : x₁ = x₂ := by
  rw [List.filterMap_cons_some hx₁] at hl₁
  rw [List.filterMap_cons_some hx₂] at hl₂
  cases l with
  | nil => simp at hl₁
  | cons x l => exact (List.cons_prefix_cons.mp hl₁).1.trans (List.cons_prefix_cons.mp hl₂).1.symm

omit [Fragmentizer F] [Subsingleton Env] in
theorem served_behind {α : Type} {p : Turn S F Env Y R → Option α} {l : List α}
    (hl : (t₁ :: es₁).filterMap p <+: l) : es₁.filterMap p <+: l.drop (p t₁).toList.length := by
  have hcons : (t₁ :: es₁).filterMap p = (p t₁).toList ++ es₁.filterMap p := by
    cases hp : p t₁ <;> simp [hp]
  rw [hcons] at hl
  obtain ⟨more, rfl⟩ := hl
  rw [List.append_assoc, List.drop_left]
  exact List.prefix_append ..

/-- Runs from one configuration that are served the same tags and the same reads agree
as far as both go. -/
theorem runs_agree (h₁ : Transition.Run c.Step a es₁ b₁) (h₂ : Transition.Run c.Step a es₂ b₂)
    (htags₁ : es₁.filterMap Turn.tag? <+: tags) (htags₂ : es₂.filterMap Turn.tag? <+: tags)
    (hreads₁ : es₁.filterMap Turn.read? <+: reads) (hreads₂ : es₂.filterMap Turn.read? <+: reads)
    (hlen : es₁.length ≤ es₂.length) : es₁ <+: es₂ := by
  induction es₁ generalizing a es₂ tags reads with
  | nil => exact List.nil_prefix
  | cons t₁ es₁ ih =>
    cases es₂ with
    | nil => simp at hlen
    | cons t₂ es₂ =>
      obtain ⟨a₁, hstep₁, hrest₁⟩ := h₁.cons_inv
      obtain ⟨a₂, hstep₂, hrest₂⟩ := h₂.cons_inv
      obtain ⟨rfl, rfl⟩ := step_agree hstep₁ hstep₂ (served_alike htags₁ htags₂)
        (served_alike hreads₁ hreads₂)
      rw [List.cons_prefix_cons]
      exact ⟨rfl, ih hrest₁ hrest₂ (served_behind htags₁) (served_behind htags₂)
        (served_behind hreads₁) (served_behind hreads₂) (by simpa using hlen)⟩

end Determinism
end Coroutine
end IoImap
