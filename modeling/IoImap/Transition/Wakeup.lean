import Mathlib.Data.List.Induction

/-!
# Lost wake-ups

A worker is notified, serves what it was notified of, and sleeps. A history
loses no wake-up when behind every notification that came after a first service
there is another service before the worker sleeps again. It is followed by what
the worker owes: whether it was notified since it last served.
-/

namespace Transition

inductive Mark where
  | notified
  | served
  | sleeps
  deriving DecidableEq

/-- What is known of a history: it has served once, and it was notified since. -/
structure Wake where
  served : Bool
  owes : Bool
  deriving DecidableEq

namespace Wake

def start : Wake := ⟨false, false⟩

def step (k : Wake) : Mark → Wake
  | .notified => ⟨k.served, k.owes || k.served⟩
  | .served => ⟨true, false⟩
  | .sleeps => k

def after (k : Wake) (ms : List Mark) : Wake := ms.foldl step k

variable {k : Wake} {ms ns : List Mark}

@[simp] theorem after_nil : k.after [] = k := rfl

end Wake

end Transition
