import IoImap.Client.Pump

/-!
# Loops that return

A coroutine cannot ask for ever without being given octets, and a caller has only so many
to give: a loop between the two returns. What a coroutine may still ask for is measured
against the octets that its reads are answered with.
-/

namespace IoImap

section Budget

variable {S Y E V W : Type}

/-- The coroutine lives on the octets it is given: each of them pays for `k` passes, and
`budget` is what it has left. -/
structure Coroutine.Spends (c : Coroutine S Unit Y (Except E V)) (k : Nat)
    (budget : S → Option Bytes → Nat) : Prop where
  pays : ∀ {F : Type} [Fragmentizer F] {s s' : S} {f f' : F} {arg answer : Option Bytes} {y : Y},
    c.resume s f arg () = (.yielded y, s', f') → (c.request y).answeredBy answer = true →
      budget s' answer < budget s arg + k * ((c.request y).octets answer).flatten.length

/-- The caller gives no more octets than it has. -/
structure Serve.Affords (serve : Serve W Y E) (request : Y → Request) (left : W → Nat) : Prop where
  honours : serve.Honours request
  gives : ∀ {w w' : W} {y : Y} {answer : Option Bytes}, serve w y = (.ok answer, w') →
    left w' + ((request y).octets answer).flatten.length ≤ left w

namespace Call

variable {F : Type} [Fragmentizer F] {c : Coroutine S Unit Y (Except E V)} {serve : Serve W Y E}
  {k n : Nat} {budget : S → Option Bytes → Nat} {left : W → Nat} {call : Call S F W E V}

/-- What a call can still go on for. -/
def fuel (k : Nat) (budget : S → Option Bytes → Nat) (left : W → Nat) (call : Call S F W E V) : Nat :=
  budget call.coroutine call.arg + k * left call.world

variable (call) in
/-- A pass returns, or there is less to go on for. -/
theorem pass_fuel (hc : c.Spends k budget) (hserve : serve.Affords c.request left) :
    (call.pass c serve).result.isSome = true ∨
      (call.pass c serve).fuel k budget left < call.fuel k budget left := by
  unfold pass
  rcases hr : c.resume call.coroutine call.fragmentizer call.arg () with ⟨y | (err | out), s, f⟩
  · rcases hw : serve call.world y with ⟨err | answer, world⟩
    · left
      simp only [hw, Option.isSome_some]
    · have hpays := hc.pays hr (hserve.honours _ _ _ _ hw)
      have hgives := Nat.mul_le_mul_left k (hserve.gives hw)
      rw [Nat.mul_add] at hgives
      simp only [hw, fuel]
      omega
  · exact .inl rfl
  · exact .inl rfl

theorem run_returns (hc : c.Spends k budget) (hserve : serve.Affords c.request left)
    (h : call.fuel k budget left < n) : (call.run c serve n).result.isSome = true := by
  induction n generalizing call with
  | zero => omega
  | succ n ih =>
    rw [run]
    split
    · rename_i hreturned
      exact hreturned
    · rcases pass_fuel call hc hserve with hreturned | hless
      · rw [run_returned hreturned]
        exact hreturned
      · exact ih (by omega)

end Call
end Budget

/-! ### Coroutines made of others -/

/-- What the octets of one read pay for. -/
def PER_READ : Nat := 5

/-- The budget of a state that reads. -/
def readBudget : Option Bytes → Nat
  | none => 1
  | some [] => 0
  | some (_ :: _) => PER_READ

/-- One resume with so much left. A success has used up the octets of a read, so that what
comes next in a composite starts on their account. -/
def Frugal {S Y E V : Type} (request : Y → Request) (budget : S → Option Bytes → Nat) (before : Nat) :
    CoroutineState Y (Except E V) → S → Prop
  | .yielded y, s' => ∀ answer, (request y).answeredBy answer = true →
      budget s' answer < before + PER_READ * ((request y).octets answer).flatten.length
  | .complete (.ok _), _ => PER_READ ≤ before
  | .complete (.error _), _ => True

namespace Frugal

variable {S S' Y Y' E E' V V' : Type} {request : Y → Request} {request' : Y' → Request}
  {budget : S → Option Bytes → Nat} {budget' : S' → Option Bytes → Nat} {before before' : Nat}
  {out : CoroutineState Y (Except E V)} {s : S}

theorem mono (h : Frugal request budget before out s) (hle : before ≤ before') :
    Frugal request budget before' out s := by
  rcases out with y | (err | v)
  · exact fun answer hans => Nat.lt_of_lt_of_le (h answer hans) (Nat.add_le_add_right hle _)
  · trivial
  · exact Nat.le_trans h hle

/-- A yield of a part, forwarded. -/
theorem forwards {y : Y} {y' : Y'} {s' : S'}
    (h : Frugal (E := E) (V := V) request budget before (.yielded y) s)
    (hrequest : request' y' = request y) (hbudget : ∀ answer, budget' s' answer = budget s answer) :
    Frugal (E := E') (V := V') request' budget' before (.yielded y') s' := by
  intro answer hans
  rw [hrequest] at hans ⊢
  rw [hbudget]
  exact h answer hans

theorem tryOk {err : E → E'} {finish : V → Except E' V'} (h : Frugal request budget before out s) :
    Frugal request budget before (out.tryOk id err finish) s := by
  rcases out with y | (e | v)
  · exact h
  · trivial
  · rw [CoroutineState.tryOk]
    cases finish v with
    | error e => trivial
    | ok w => exact h

/-- A read is asked for by a state that reads. -/
theorem reads {y : Y} (hy : request y = .read) (hs : ∀ answer, budget s answer = readBudget answer)
    (hbefore : 1 ≤ before) : Frugal (E := E) (V := V) request budget before (.yielded y) s := by
  intro answer hans
  rw [hy] at hans ⊢
  rw [hs]
  rcases answer with - | (- | ⟨b, bs⟩)
  · simp [Request.answeredBy] at hans
  · exact Nat.lt_of_lt_of_le hbefore (Nat.le_add_right _ _)
  · simp only [readBudget, Request.octets, List.flatten_cons, List.flatten_nil, List.append_nil,
      List.length_cons, Nat.mul_add, Nat.mul_one]
    omega

/-- Anything else is paid for by what is left. -/
theorem asks {y : Y} (hs : ∀ answer, (request y).answeredBy answer = true → budget s answer < before) :
    Frugal (E := E) (V := V) request budget before (.yielded y) s :=
  fun answer hans => Nat.lt_of_lt_of_le (hs answer hans) (Nat.le_add_right _ _)

end Frugal

theorem Coroutine.spends_of {S Y E V : Type} {c : Coroutine S Unit Y (Except E V)}
    {budget : S → Option Bytes → Nat} (h : ∀ {F : Type} [Fragmentizer F] (s : S) (f : F)
      (arg : Option Bytes), Frugal c.request budget (budget s arg) (c.resume s f arg ()).1
        (c.resume s f arg ()).2.1) : c.Spends PER_READ budget where
  pays {F} _ {s s' f f' arg answer y} hr hans := by
    have hfrugal := h s f arg
    rw [hr] at hfrugal
    exact hfrugal _ hans

end IoImap
