import Mathlib

/-!
# Arithmetic that traps

`u64` arithmetic as a build that checks it runs it: `none` where it overflows,
underflows, divides by zero or reads out of bounds. What does not trap has the
value that the natural numbers give it.
-/

namespace CeStorage.Lib.Checked

/-- `a + b`. -/
def add (a b : Nat) : Option Nat := if a + b < 2 ^ 64 then some (a + b) else none

/-- `a - b`. -/
def sub (a b : Nat) : Option Nat := if b ≤ a then some (a - b) else none

/-- `a * b`. -/
def mul (a b : Nat) : Option Nat := if a * b < 2 ^ 64 then some (a * b) else none

/-- `a / b`. -/
def div (a b : Nat) : Option Nat := if b = 0 then none else some (a / b)

section
variable {a b : Nat}

theorem add_eq (h : a + b < 2 ^ 64) : add a b = some (a + b) := if_pos h

theorem sub_eq (h : b ≤ a) : sub a b = some (a - b) := if_pos h

theorem mul_eq (h : a * b < 2 ^ 64) : mul a b = some (a * b) := if_pos h

theorem div_eq (h : b ≠ 0) : div a b = some (a / b) := if_neg h

end

/-- `&xs[start..stop]`. -/
def slice {α : Type} (xs : List α) (start stop : Nat) : Option (List α) :=
  if start ≤ stop ∧ stop ≤ xs.length then some ((xs.drop start).take (stop - start)) else none

theorem slice_eq {α : Type} {xs : List α} {start stop : Nat} (h : start ≤ stop)
    (hlen : stop ≤ xs.length) : slice xs start stop = some ((xs.drop start).take (stop - start)) :=
  if_pos ⟨h, hlen⟩

end CeStorage.Lib.Checked
