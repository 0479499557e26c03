import Mathlib

/-!
# A compare-and-swap register

A register holds a value or nothing. A swap names the value it expects to find and
the value it would leave. `Legal u l v` says that the swaps of `l`, one after
another, can have taken the register from `u` to `v`: a swap that was answered
with success found what it expected and left its own value, one that was refused
left the register alone, and one that was never answered did either.

A value that no swap leaves is given up at most once (`Legal.wins_le_one`): of
all swaps that expect it at most one succeeds.
-/

namespace CeStorage.Lib

variable {V : Type}

/-- One swap, and how it was answered: `none` if it never was. -/
structure Swap (V : Type) where
  expect : V
  new : V
  answer : Option Bool

namespace Swap

/-- The swaps of `l` can have taken a register from `u` to `v`. -/
inductive Legal : Option V → List (Swap V) → Option V → Prop where
  | nil (v : Option V) : Legal v [] v
  | take {s : Swap V} {l : List (Swap V)} {v : Option V} (hs : s.answer ≠ some false)
      (hl : Legal (some s.new) l v) : Legal (some s.expect) (s :: l) v
  | skip {u : Option V} {s : Swap V} {l : List (Swap V)} {v : Option V}
      (hs : s.answer ≠ some true) (hl : Legal u l v) : Legal u (s :: l) v

variable {u v z : Option V} {l l' : List (Swap V)} {a : V}

theorem Legal.append (h : Legal u l v) (h' : Legal v l' z) : Legal u (l ++ l') z := by
  induction h with
  | nil v => exact h'
  | take hs _ ih => exact .take hs (ih h')
  | skip hs _ ih => exact .skip hs (ih h')

variable [DecidableEq V]

/-- The swap expected `a` and succeeded. -/
def wins (a : V) (s : Swap V) : Bool := s.expect == a && s.answer == some true

/-- Once the value is gone nobody who expects it succeeds. -/
theorem Legal.wins_eq_zero (h : Legal u l v) (hu : u ≠ some a) (hl : ∀ s ∈ l, s.new ≠ a) :
    l.countP (wins a) = 0 := by
  induction h with
  | nil v => rfl
  | @take s l v hs _ ih =>
    have hnew : some s.new ≠ some a := fun h => hl s List.mem_cons_self (Option.some.inj h)
    have hloses : wins a s = false := by
      unfold wins
      rw [beq_false_of_ne fun h => hu (congrArg some h), Bool.false_and]
    rw [List.countP_cons, hloses, ih hnew fun t ht => hl t (List.mem_cons_of_mem s ht)]
    rfl
  | @skip u s l v hs _ ih =>
    have hloses : wins a s = false := by
      unfold wins
      rw [beq_false_of_ne hs, Bool.and_false]
    rw [List.countP_cons, hloses, ih hu fun t ht => hl t (List.mem_cons_of_mem s ht)]
    rfl

/-- **One winner.** Of the swaps that expect a value that no swap leaves, at most
one succeeds. -/
theorem Legal.wins_le_one (h : Legal u l v) (hl : ∀ s ∈ l, s.new ≠ a) :
    l.countP (wins a) ≤ 1 := by
  induction h with
  | nil v => exact Nat.zero_le 1
  | @take s l v hs hrest ih =>
    have hnew : some s.new ≠ some a := fun h => hl s List.mem_cons_self (Option.some.inj h)
    rw [List.countP_cons,
      hrest.wins_eq_zero hnew fun t ht => hl t (List.mem_cons_of_mem s ht)]
    split <;> omega
  | @skip u s l v hs _ ih =>
    have hloses : wins a s = false := by
      unfold wins
      rw [beq_false_of_ne hs, Bool.and_false]
    rw [List.countP_cons, hloses]
    exact ih fun t ht => hl t (List.mem_cons_of_mem s ht)

end Swap

end CeStorage.Lib
