import CeStorage.Lib.Program

/-!
# Programs that change something at most once

`obs` is something one can see of the state a program runs on. A program is
`Quiet` for it when it never changes, wherever the program is cut, and `Atomic`
when it goes straight from its first value to its last: whoever looks between
two calls sees one of the two. One call is atomic for anything; a sequence of
programs is as long as all but one of them are quiet.
-/

namespace CeStorage.Lib

namespace Prog

variable {C : Type} {R : C → Type} {α β S O : Type} {perform : (c : C) → S → R c × S}
  {obs : S → O}

/-- `obs` never changes. -/
def Quiet (perform : (c : C) → S → R c × S) (obs : S → O) (p : Prog R α) : Prop :=
  ∀ s n, obs (p.cut perform n s) = obs s

/-- `obs` changes at most once. -/
def Atomic (perform : (c : C) → S → R c × S) (obs : S → O) (p : Prog R α) : Prop :=
  ∀ s n, obs (p.cut perform n s) = obs s ∨ obs (p.cut perform n s) = obs (p.run perform s).2

variable {p : Prog R α} {f : α → Prog R β}

theorem Quiet.run (h : Quiet perform obs p) (s : S) : obs (p.run perform s).2 = obs s := by
  rw [← cut_of_calls_le (Nat.le_refl _)]
  exact h s _

theorem Quiet.atomic (h : Quiet perform obs p) : Atomic perform obs p :=
  fun s n => .inl (h s n)

theorem quiet_ret (a : α) : Quiet perform obs (Prog.ret a : Prog R α) := by
  intro s n
  rw [cut_ret]

/-- A call that does not change `obs`, and a quiet program after it. -/
theorem quiet_call {c : C} {k : R c → Prog R α} (hc : ∀ s, obs (perform c s).2 = obs s)
    (hk : ∀ r, Quiet perform obs (k r)) : Quiet perform obs (.call c k) := by
  intro s n
  rcases n with _ | n
  · rfl
  · rw [cut_call_succ]
    exact (hk _ _ n).trans (hc s)

/-- Any call, and a quiet program after it. -/
theorem atomic_call {c : C} {k : R c → Prog R α} (hk : ∀ r, Quiet perform obs (k r)) :
    Atomic perform obs (.call c k) := by
  intro s n
  rcases n with _ | n
  · exact .inl rfl
  · rw [cut_call_succ, run_call]
    exact .inr (((hk _ _ n)).trans ((hk _).run _).symm)

theorem Quiet.bind (hp : Quiet perform obs p) (hf : ∀ a, Quiet perform obs (f a)) :
    Quiet perform obs (p.bind f) := by
  intro s n
  rw [cut_bind]
  split
  next => exact hp s n
  next => exact (hf _ _ _).trans (hp.run s)

/-- A quiet program, and an atomic one after it. -/
theorem Quiet.bind_atomic (hp : Quiet perform obs p) (hf : ∀ a, Atomic perform obs (f a)) :
    Atomic perform obs (p.bind f) := by
  intro s n
  rw [cut_bind, run_bind]
  split
  next => exact .inl (hp s n)
  next =>
    rcases hf (p.run perform s).1 (p.run perform s).2 (n - p.calls perform s) with h | h
    · exact .inl (h.trans (hp.run s))
    · exact .inr h

/-- An atomic program, and a quiet one after it. -/
theorem Atomic.bind_quiet (hp : Atomic perform obs p) (hf : ∀ a, Quiet perform obs (f a)) :
    Atomic perform obs (p.bind f) := by
  intro s n
  rw [cut_bind, run_bind, (hf _).run]
  split
  next => exact hp s n
  next => exact .inr (hf _ _ _)

/-! ## Before which call it can change -/

/-- `obs` does not change during the first `k` calls. -/
def QuietUpTo (perform : (c : C) → S → R c × S) (obs : S → O) (k : Nat) (p : Prog R α) : Prop :=
  ∀ s n, n ≤ k → obs (p.cut perform n s) = obs s

theorem Quiet.upTo (h : Quiet perform obs p) (k : Nat) : QuietUpTo perform obs k p :=
  fun s n _ => h s n

theorem QuietUpTo.mono {j k : Nat} (h : QuietUpTo perform obs k p) (hjk : j ≤ k) :
    QuietUpTo perform obs j p :=
  fun s n hn => h s n (Nat.le_trans hn hjk)

theorem quietUpTo_zero (p : Prog R α) : QuietUpTo perform obs 0 p := by
  intro s n hn
  rw [Nat.le_zero.mp hn, cut_zero]

/-- The calls of a quiet first part count. -/
theorem Quiet.bind_upTo {k : Nat} (hp : Quiet perform obs p)
    (hf : ∀ s, QuietUpTo perform obs (k - p.calls perform s) (f (p.run perform s).1)) :
    QuietUpTo perform obs k (p.bind f) := by
  intro s n hn
  rw [cut_bind]
  split
  next => exact hp s n
  next => exact (hf s _ _ (by omega)).trans (hp.run s)

/-- The first part makes the `k` calls, or all of it is quiet from there on. -/
theorem QuietUpTo.bind {k : Nat} (hp : QuietUpTo perform obs k p)
    (hf : ∀ s, k ≤ p.calls perform s ∨
      ∀ n, obs ((f (p.run perform s).1).cut perform n (p.run perform s).2) = obs s) :
    QuietUpTo perform obs k (p.bind f) := by
  intro s n hn
  rw [cut_bind]
  split
  next => exact hp s n hn
  next h =>
    rcases hf s with hk | hq
    · omega
    · exact hq _

/-- A run makes at most `k` calls. -/
def AtMost (perform : (c : C) → S → R c × S) (k : Nat) (p : Prog R α) : Prop :=
  ∀ s, p.calls perform s ≤ k

theorem calls_bind (p : Prog R α) (f : α → Prog R β) (s : S) :
    (p.bind f).calls perform s
      = p.calls perform s + (f (p.run perform s).1).calls perform (p.run perform s).2 := by
  induction p generalizing s with
  | ret a => exact (Nat.zero_add _).symm
  | call c k ih =>
    rw [bind_call, calls, ih, calls, run_call]
    omega

theorem AtMost.bind {j k : Nat} (hp : AtMost perform j p) (hf : ∀ a, AtMost perform k (f a)) :
    AtMost perform (j + k) (p.bind f) := by
  intro s
  rw [calls_bind]
  exact Nat.add_le_add (hp s) (hf _ _)

theorem atMost_ret (k : Nat) (a : α) : AtMost perform k (Prog.ret a : Prog R α) :=
  fun _ => Nat.zero_le k

end Prog

end CeStorage.Lib
