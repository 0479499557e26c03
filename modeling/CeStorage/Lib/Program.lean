import Mathlib

/-!
# Finite programs over calls

A program is a finite tree: it either returns, or makes one call and goes on
with whatever the call answered. Nothing in the tree says what a call does.
That is the job of a machine `perform : (c : C) → S → R c × S`, so one and the
same program text can be run to its end (`run`), stopped after any number of
calls (`after`, `cut`), or interleaved with others one call at a time (`step`).

The rules:

* `run_bind`, `run_after`: runs compose, and a stopped program, resumed,
  finishes as if it had never been stopped.
* `run_inv`: what every allowed call preserves, the whole program preserves.
  `Uses` says which calls are allowed.
-/

namespace CeStorage.Lib

/-- A finite program: `R c` is the type of the answers to call `c`. -/
inductive Prog {C : Type} (R : C → Type) (α : Type) : Type where
  | ret (a : α)
  | call (c : C) (k : R c → Prog R α)

namespace Prog

variable {C : Type} {R : C → Type} {α β γ S : Type}

/-- Go on with `f` once `p` has returned. -/
def bind : Prog R α → (α → Prog R β) → Prog R β
  | .ret a, f => f a
  | .call c k, f => .call c fun r => (k r).bind f

@[simp] theorem bind_ret (a : α) (f : α → Prog R β) : (Prog.ret a).bind f = f a := rfl

@[simp] theorem bind_call (c : C) (k : R c → Prog R α) (f : α → Prog R β) :
    (Prog.call c k).bind f = .call c fun r => (k r).bind f := rfl

/-! ## Running -/

/-- Run to the end. -/
def run (perform : (c : C) → S → R c × S) : Prog R α → S → α × S
  | .ret a, s => (a, s)
  | .call c k, s => (k (perform c s).1).run perform (perform c s).2

/-- One call of a half-run program; a finished one stays as it is. -/
def step (perform : (c : C) → S → R c × S) : Prog R α × S → Prog R α × S
  | (.ret a, s) => (.ret a, s)
  | (.call c k, s) => (k (perform c s).1, (perform c s).2)

/-- What is left of the program, and the state, after `n` calls. -/
def after (perform : (c : C) → S → R c × S) (n : Nat) (p : Prog R α) (s : S) : Prog R α × S :=
  (step perform)^[n] (p, s)

/-- The state a program leaves behind when it is cut after `n` calls. -/
def cut (perform : (c : C) → S → R c × S) (n : Nat) (p : Prog R α) (s : S) : S :=
  (after perform n p s).2

variable {perform : (c : C) → S → R c × S}

@[simp] theorem run_ret (a : α) (s : S) : (Prog.ret a : Prog R α).run perform s = (a, s) := rfl

@[simp] theorem run_call (c : C) (k : R c → Prog R α) (s : S) :
    (Prog.call c k).run perform s = (k (perform c s).1).run perform (perform c s).2 := rfl

theorem run_bind (p : Prog R α) (f : α → Prog R β) (s : S) :
    (p.bind f).run perform s = (f (p.run perform s).1).run perform (p.run perform s).2 := by
  induction p generalizing s with
  | ret a => rfl
  | call c k ih => exact ih _ _

/-- One call does not change how the program ends. -/
theorem run_step (x : Prog R α × S) :
    (step perform x).1.run perform (step perform x).2 = x.1.run perform x.2 := by
  obtain ⟨p, s⟩ := x
  cases p <;> rfl

/-- A program stopped after `n` calls and resumed ends as it would have. -/
theorem run_after (n : Nat) (p : Prog R α) (s : S) :
    (after perform n p s).1.run perform (after perform n p s).2 = p.run perform s := by
  unfold after
  induction n generalizing p s with
  | zero => rfl
  | succ n ih =>
    rw [Function.iterate_succ_apply']
    rw [run_step]
    exact ih p s

theorem after_succ (n : Nat) (p : Prog R α) (s : S) :
    after perform (n + 1) p s = step perform (after perform n p s) :=
  Function.iterate_succ_apply' _ _ _

/-- A program that has returned after `n` calls returns that answer in full. -/
theorem run_of_after_ret {n : Nat} {p : Prog R α} {s s' : S} {a : α}
    (h : after perform n p s = (.ret a, s')) : p.run perform s = (a, s') := by
  rw [← run_after n p s, h]
  rfl

/-! ## Where a program is cut -/

/-- How many calls a run to the end makes. -/
def calls (perform : (c : C) → S → R c × S) : Prog R α → S → Nat
  | .ret _, _ => 0
  | .call c k, s => (k (perform c s).1).calls perform (perform c s).2 + 1

@[simp] theorem cut_zero (p : Prog R α) (s : S) : cut perform 0 p s = s := rfl

@[simp] theorem cut_ret (n : Nat) (a : α) (s : S) :
    cut perform n (Prog.ret a : Prog R α) s = s := by
  unfold cut after
  induction n with
  | zero => rfl
  | succ n ih =>
    rw [Function.iterate_succ_apply]
    exact ih

@[simp] theorem cut_call_succ (n : Nat) (c : C) (k : R c → Prog R α) (s : S) :
    cut perform (n + 1) (.call c k) s
      = cut perform n (k (perform c s).1) (perform c s).2 := by
  unfold cut after
  rw [Function.iterate_succ_apply]
  rfl

/-- Cut after its last call or later, a program has run to the end. -/
theorem cut_of_calls_le {n : Nat} {p : Prog R α} {s : S} (h : p.calls perform s ≤ n) :
    cut perform n p s = (p.run perform s).2 := by
  induction p generalizing n s with
  | ret a => exact cut_ret n a s
  | call c k ih =>
    obtain ⟨n, rfl⟩ : ∃ m, n = m + 1 := ⟨n - 1, by unfold calls at h; omega⟩
    rw [cut_call_succ]
    exact ih _ (Nat.le_of_succ_le_succ h)

/-- A sequence is cut in its first part, or in its second. -/
theorem cut_bind (n : Nat) (p : Prog R α) (f : α → Prog R β) (s : S) :
    cut perform n (p.bind f) s
      = if n ≤ p.calls perform s then cut perform n p s
        else cut perform (n - p.calls perform s) (f (p.run perform s).1)
          (p.run perform s).2 := by
  induction p generalizing n s with
  | ret a =>
    rcases n with _ | n
    · rfl
    · rfl
  | call c k ih =>
    rcases n with _ | n
    · rw [cut_zero, if_pos (Nat.zero_le _)]
      rfl
    · rw [bind_call, cut_call_succ, cut_call_succ, ih]
      simp only [calls, run_call, Nat.add_le_add_iff_right, Nat.add_sub_add_right]

/-! ## Which calls a program makes -/

/-- The calls a run to the end makes, in order. -/
def trace (perform : (c : C) → S → R c × S) : Prog R α → S → List C
  | .ret _, _ => []
  | .call c k, s => c :: (k (perform c s).1).trace perform (perform c s).2

@[simp] theorem trace_ret (a : α) (s : S) : (Prog.ret a : Prog R α).trace perform s = [] := rfl

@[simp] theorem trace_call (c : C) (k : R c → Prog R α) (s : S) :
    (Prog.call c k).trace perform s
      = c :: (k (perform c s).1).trace perform (perform c s).2 := rfl

theorem trace_bind (p : Prog R α) (f : α → Prog R β) (s : S) :
    (p.bind f).trace perform s
      = p.trace perform s ++ (f (p.run perform s).1).trace perform (p.run perform s).2 := by
  induction p generalizing s with
  | ret a => rfl
  | call c k ih => exact congrArg (c :: ·) (ih _ _)

/-- Every call the program can make, whatever it is answered, is in `A`. -/
def Uses (A : C → Prop) : Prog R α → Prop
  | .ret _ => True
  | .call c k => A c ∧ ∀ r, (k r).Uses A

theorem Uses.bind {A : C → Prop} {p : Prog R α} {f : α → Prog R β}
    (hp : p.Uses A) (hf : ∀ a, (f a).Uses A) : (p.bind f).Uses A := by
  induction p with
  | ret a => exact hf a
  | call c k ih => exact ⟨hp.1, fun r => ih r (hp.2 r)⟩

theorem Uses.mono {A B : C → Prop} (hAB : ∀ c, A c → B c) {p : Prog R α}
    (hp : p.Uses A) : p.Uses B := by
  induction p with
  | ret a => trivial
  | call c k ih => exact ⟨hAB c hp.1, fun r => ih r (hp.2 r)⟩

theorem uses_true (p : Prog R α) : p.Uses fun _ => True := by
  induction p with
  | ret a => trivial
  | call c k ih => exact ⟨trivial, ih⟩

/-- The frame rule: what every allowed call preserves, the program preserves. -/
theorem run_inv {A : C → Prop} {I : S → Prop}
    (hcall : ∀ c s, A c → I s → I (perform c s).2)
    {p : Prog R α} (hp : p.Uses A) {s : S} (hs : I s) : I (p.run perform s).2 := by
  induction p generalizing s with
  | ret a => exact hs
  | call c k ih => exact ih _ (hp.2 _) (hcall c s hp.1 hs)

end Prog

end CeStorage.Lib
