import IoImap.Coroutine

/-!
# The loop that pumps a coroutine (client.rs)

Every method of the blocking client is one loop: it resumes its coroutine, serves what
is yielded out of its stream and its tags, and hands the answer to the next resume,
until the coroutine completes or serving it fails. The methods differ in what they
serve. A loop that honours the resume contract drives a run of its coroutine, whatever
it serves it from.
-/

namespace IoImap
open Fragmentizer

inductive IoErrorKind where
  | unexpectedEof
  | wouldBlock
  | timedOut
  | other
  deriving DecidableEq

structure IoError where
  kind : IoErrorKind
  message : String
  deriving DecidableEq

/-- `ImapClientError`, as far as the call of one coroutine returns it: the variant of its
error, `Io`, or `Tls` with the text of its error. -/
inductive ImapClientError (E : Type) where
  | coroutine (err : E)
  | io (err : IoError)
  | tls (err : String)
  /-- Not an error of the source: an `expect` of the loop that finds nothing. -/
  | panicked
  deriving DecidableEq

/-- The arms of the loop for what a coroutine yields, over the state of the caller. -/
abbrev Serve (W Y E : Type) := W → Y → Except (ImapClientError E) (Option Bytes) × W

/-- A call between two resumes: `arg` is what the next one gets, `result` what the call
has returned. -/
structure Call (S F W E V : Type) where
  coroutine : S
  fragmentizer : F
  arg : Option Bytes
  world : W
  result : Option (Except (ImapClientError E) V)

/-- A serve that keeps to the resume contract. -/
def Serve.Honours {W Y E : Type} (serve : Serve W Y E) (request : Y → Request) : Prop :=
  ∀ w y arg w', serve w y = (.ok arg, w') → (request y).answeredBy arg = true

/-- The octets a resume is given in answer to `WantsRead`. -/
def Turn.given? {S F Env Y R : Type} (t : Turn S F Env Y R) : Option Bytes :=
  if t.due = .read then t.arg else none

/-- A coroutine does not see the log that a run keeps of its fragmentizer. -/
def Coroutine.Unlogged {S Env Y R : Type} (c : Coroutine S Env Y R) : Prop :=
  ∀ {F : Type} [Fragmentizer F] (s : S) (l : Logged F) (arg : Option Bytes) (env : Env),
    c.resume s l.frag arg env = Logged.erase (c.resume s l arg env)

namespace Call

variable {S F W Y E V : Type}

def start (s : S) (f : F) (w : W) : Call S F W E V := ⟨s, f, none, w, none⟩

section Loop

variable [Fragmentizer F] (c : Coroutine S Unit Y (Except E V)) (serve : Serve W Y E)

/-- One pass of the loop. -/
def pass (call : Call S F W E V) : Call S F W E V :=
  match c.resume call.coroutine call.fragmentizer call.arg () with
  | (.complete (.ok out), s, f) => ⟨s, f, none, call.world, some (.ok out)⟩
  | (.complete (.error err), s, f) => ⟨s, f, none, call.world, some (.error (.coroutine err))⟩
  | (.yielded y, s, f) =>
    match serve call.world y with
    | (.ok arg, world) => ⟨s, f, arg, world, none⟩
    -- the coroutine is not told of a failure: the loop returns with it
    | (.error err, world) => ⟨s, f, none, world, some (.error err)⟩

/-- The call after at most so many passes. -/
def run : Nat → Call S F W E V → Call S F W E V
  | 0, call => call
  | n + 1, call => if call.result.isSome then call else run n (call.pass c serve)

variable {c serve} {call : Call S F W E V} {n m : Nat}

theorem run_returned (h : call.result.isSome = true) : call.run c serve n = call := by
  cases n with
  | zero => rfl
  | succ n => rw [run, if_pos h]

theorem run_add : call.run c serve (n + m) = (call.run c serve n).run c serve m := by
  induction n generalizing call with
  | zero => rw [Nat.zero_add, run]
  | succ n ih =>
    rw [Nat.add_right_comm, run, run]
    split
    · rename_i h
      exact (run_returned h).symm
    · exact ih

theorem run_succ : call.run c serve (n + 1) =
    if (call.run c serve n).result.isSome then call.run c serve n
    else (call.run c serve n).pass c serve := by
  rw [run_add, run]
  rfl

end Loop

/-- Where the call and the run that it drives stand. -/
structure Drives (call : Call S F W E V) (b : Config S F) : Prop where
  state : b.state = call.coroutine
  frag : b.frag = call.fragmentizer
  goesOn : call.result = none → ∃ due, b.due = some due ∧ due.answeredBy call.arg = true

theorem drives_start (s : S) (f : F) (w : W) :
    (start s f w : Call S F W E V).Drives (Coroutine.start s f) :=
  ⟨rfl, rfl, fun _ => ⟨.nothing, rfl, rfl⟩⟩

section Runs

variable [Fragmentizer F] {c : Coroutine S Unit Y (Except E V)} {serve : Serve W Y E}

abbrev Resume (S F Y E V : Type) := Turn S F Unit Y (Except E V)

/-- What a pass makes of a resume. -/
def after (serve : Serve W Y E) (t : Resume S F Y E V) (world : W) : Call S F W E V :=
  match t.out with
  | .complete (.ok out) => ⟨t.after, t.fragAfter, none, world, some (.ok out)⟩
  | .complete (.error err) => ⟨t.after, t.fragAfter, none, world, some (.error (.coroutine err))⟩
  | .yielded y =>
    match serve world y with
    | (.ok arg, world) => ⟨t.after, t.fragAfter, arg, world, none⟩
    | (.error err, world) => ⟨t.after, t.fragAfter, none, world, some (.error err)⟩

theorem pass_eq (hc : c.Unlogged) {call : Call S F W E V} {b : Config S F} (h : call.Drives b)
    (due : Request) : call.pass c serve = after serve (c.turn b due call.arg ()) call.world := by
  have hresume := hc call.coroutine (⟨call.fragmentizer, []⟩ : Logged F) call.arg ()
  rw [pass, hresume, after, Coroutine.turn, h.state, h.frag]
  rcases c.resume call.coroutine (⟨call.fragmentizer, []⟩ : Logged F) call.arg () with
    ⟨y | (err | out), s, l⟩ <;> rfl

omit [Fragmentizer F] in
theorem after_drives (hserve : serve.Honours c.request) (t : Resume S F Y E V) (world : W) :
    (after serve t world).Drives (c.finish t) := by
  unfold after Coroutine.finish
  cases t.out with
  | complete result => cases result <;> exact ⟨rfl, rfl, by simp⟩
  | yielded y =>
    dsimp only
    rcases hw : serve world y with ⟨err | arg, world'⟩
    · exact ⟨rfl, rfl, by simp⟩
    · exact ⟨rfl, rfl, fun _ => ⟨_, rfl, hserve _ _ _ _ hw⟩⟩

/-- The loop drives a run of its coroutine; what every pass of it extends holds of the
run, of where it stands and of the call. -/
theorem history {P : List (Resume S F Y E V) → Config S F → Call S F W E V → Prop} {s : S} {f : F}
    {w : W} (hc : c.Unlogged) (hserve : serve.Honours c.request)
    (h0 : P [] (Coroutine.start s f) (start s f w))
    (hs : ∀ ts b call due t, c.Runs s f ts b → P ts b call → call.Drives b → call.result = none →
      b.due = some due → c.Step b t (c.finish t) → t = c.turn b due call.arg () →
      P (ts ++ [t]) (c.finish t) (after serve t call.world)) (n : Nat) :
    ∃ ts b, c.Runs s f ts b ∧ ((start s f w).run c serve n).Drives b ∧
      P ts b ((start s f w).run c serve n) ∧
      (((start s f w).run c serve n).result = none → ts.length = n) := by
  induction n with
  | zero => exact ⟨[], _, .nil, drives_start s f w, h0, fun _ => rfl⟩
  | succ n ih =>
    obtain ⟨ts, b, hrun, hdrives, hP, hlength⟩ := ih
    rw [run_succ]
    split
    · rename_i hreturned
      exact ⟨ts, b, hrun, hdrives, hP, fun hnone => by simp [hnone] at hreturned⟩
    · rename_i hgoes
      have hnone := Option.not_isSome_iff_eq_none.mp hgoes
      obtain ⟨due, hdue, hans⟩ := hdrives.goesOn hnone
      have hstep : c.Step b (c.turn b due ((start s f w).run c serve n).arg ())
          (c.finish (c.turn b due ((start s f w).run c serve n).arg ())) :=
        ⟨due, _, (), hdue, hans, rfl, rfl⟩
      rw [pass_eq hc hdrives due]
      exact ⟨_, _, .snoc hrun hstep, after_drives hserve _ _,
        hs ts b _ due _ hrun hP hdrives hnone hdue hstep rfl, fun _ => by simp [hlength hnone]⟩

end Runs
end Call
end IoImap
