import CeStorage.Lib.Program

/-!
# A program among others

A program's calls act on a state that others act on too. `Prog.Amid` is a run of
it with any steps of the others before each of its calls; what a call answers and
does is a relation as well, so it may fail in any way the relation allows.

`Prog.Meets` is the triple that goes with such runs. Its rule for a call
(`meets_call`) is that of rely-guarantee reasoning: the precondition has to be one
that the others keep.
-/

namespace CeStorage.Lib.Prog

variable {C : Type} {R : C → Type} {S α β : Type} {others : S → S → Prop}
  {does : (c : C) → S → R c → S → Prop} {P : S → Prop} {Q : α → S → Prop} {p : Prog R α}

/-- A run to the end: the state it starts in, what it returns, the state it ends
in. -/
inductive Amid (others : S → S → Prop) (does : (c : C) → S → R c → S → Prop) :
    Prog R α → S → α → S → Prop
  | ret (a : α) (s : S) : Amid others does (.ret a) s a s
  | call {c : C} {k : R c → Prog R α} {s t u v : S} {r : R c} {a : α} (before : others s t)
      (now : does c t r u) (rest : Amid others does (k r) u a v) :
      Amid others does (.call c k) s a v

/-- A run of a sequence is a run of its first part and one of its second. -/
theorem Amid.split {f : α → Prog R β} {b : β} {s u : S}
    (h : Amid others does (p.bind f) s b u) :
    ∃ a t, Amid others does p s a t ∧ Amid others does (f a) t b u := by
  induction p generalizing s with
  | ret a => exact ⟨a, s, .ret a s, h⟩
  | call c k ih =>
    cases h with
    | call before now rest =>
      obtain ⟨a, t, hp, hf⟩ := ih _ rest
      exact ⟨a, t, .call before now hp, hf⟩

/-- Fewer steps of the others and fewer outcomes of the calls. -/
theorem Amid.mono {others' : S → S → Prop} {does' : (c : C) → S → R c → S → Prop} {s u : S} {a : α}
    (h : Amid others does p s a u) (hothers : ∀ s t, others s t → others' s t)
    (hdoes : ∀ c s r t, does c s r t → does' c s r t) : Amid others' does' p s a u := by
  induction h with
  | ret a s => exact .ret a s
  | call before now _ ih => exact .call (hothers _ _ before) (hdoes _ _ _ _ now) ih

/-- From a state with `P`, what the run returns and the state it ends in have
`Q`. -/
def Meets (others : S → S → Prop) (does : (c : C) → S → R c → S → Prop) (P : S → Prop)
    (p : Prog R α) (Q : α → S → Prop) : Prop :=
  ∀ s a u, P s → Amid others does p s a u → Q a u

/-- A condition the others keep. -/
def Stable (others : S → S → Prop) (P : S → Prop) : Prop := ∀ s t, P s → others s t → P t

theorem meets_ret {a : α} (h : ∀ s, P s → Q a s) : Meets others does P (.ret a) Q := by
  intro s b u hs hrun
  cases hrun
  exact h s hs

theorem meets_call {c : C} {k : R c → Prog R α} {T : R c → S → Prop} (hP : Stable others P)
    (hstep : ∀ s r u, P s → does c s r u → T r u)
    (hrest : ∀ r, Meets others does (T r) (k r) Q) : Meets others does P (.call c k) Q := by
  intro s a v hs hrun
  cases hrun with
  | call before now rest => exact hrest _ _ _ _ (hstep _ _ _ (hP _ _ hs before) now) rest

end CeStorage.Lib.Prog
