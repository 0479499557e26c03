import CeStorage.Lib.Sections

/-!
# A program logic with a crash condition

`Safe I Q p s` says of a program begun in state `s` that `I` holds of every state
it passes through, the first and the last included, so wherever it is cut (`cut`),
and that `Q` holds of what it returns and of the state it returns in (`run`). The
rules follow the program: a return, a call, one program after another.

A transaction that is safe from every state that meets `I` keeps `I` in the shared
state of any number of processes that run such transactions one at a time and crash
anywhere (`Scheme.SerialInv.safe`).
-/

namespace CeStorage.Lib

namespace Prog

variable {C : Type} {R : C → Type} {α β S : Type} {perform : (c : C) → S → R c × S}
  {I : S → Prop} {Q Q' : α → S → Prop} {s : S}

def Safe (perform : (c : C) → S → R c × S) (I : S → Prop) (Q : α → S → Prop) :
    Prog R α → S → Prop
  | .ret a, s => I s ∧ Q a s
  | .call c k, s => I s ∧ (k (perform c s).1).Safe perform I Q (perform c s).2

@[simp] theorem safe_ret (a : α) :
    (Prog.ret a : Prog R α).Safe perform I Q s ↔ I s ∧ Q a s := Iff.rfl

@[simp] theorem safe_call (c : C) (k : R c → Prog R α) :
    (Prog.call c k).Safe perform I Q s
      ↔ I s ∧ (k (perform c s).1).Safe perform I Q (perform c s).2 := Iff.rfl

theorem Safe.first {p : Prog R α} (h : p.Safe perform I Q s) : I s := by
  cases p <;> exact h.1

theorem Safe.mono {I' : S → Prop} {p : Prog R α} (h : p.Safe perform I Q s)
    (hI : ∀ s, I s → I' s) (hQ : ∀ a s, I s → Q a s → Q' a s) : p.Safe perform I' Q' s := by
  induction p generalizing s with
  | ret a => exact ⟨hI s h.1, hQ a s h.1 h.2⟩
  | call c k ih => exact ⟨hI s h.1, ih _ h.2⟩

/-- The second program has to be safe from wherever the first one returns. -/
theorem Safe.bind {Q : β → S → Prop} {p : Prog R α} {f : α → Prog R β}
    (h : p.Safe perform I (fun a s => (f a).Safe perform I Q s) s) :
    (p.bind f).Safe perform I Q s := by
  induction p generalizing s with
  | ret a => exact h.2
  | call c k ih => exact ⟨h.1, ih _ h.2⟩

/-- What the program returns, and the state it returns in. -/
theorem Safe.run {p : Prog R α} (h : p.Safe perform I Q s) :
    Q (p.run perform s).1 (p.run perform s).2 := by
  induction p generalizing s with
  | ret a => exact h.2
  | call c k ih => exact ih _ h.2

/-- The state a crash leaves. -/
theorem Safe.cut {p : Prog R α} (h : p.Safe perform I Q s) (n : Nat) :
    I (p.cut perform n s) := by
  induction p generalizing s n with
  | ret a =>
    rw [cut_ret]
    exact h.1
  | call c k ih =>
    rcases n with _ | n
    · exact h.1
    · rw [cut_call_succ]
      exact ih _ h.2 n

/-- The state at the end of a run is one of those the program passes through. -/
theorem Safe.last {p : Prog R α} (h : p.Safe perform I Q s) : I (p.run perform s).2 := by
  rw [← cut_of_calls_le (Nat.le_refl _)]
  exact h.cut _

end Prog

namespace Scheme

variable {P T C S L ρ : Type} {R : C → Type} [DecidableEq P] {sch : Scheme T C S L ρ R}
  {I : S → Prop}

/-- Every transaction keeps `I`, wherever it is cut. -/
def Safe (sch : Scheme T C S L ρ R) (I : S → Prop) : Prop :=
  ∀ t l s, I s → (sch.body t l).Safe (sch.perform t) I (fun _ _ => True) s

/-- One turn, complete or cut short. -/
theorem Safe.turn (h : sch.Safe I) (t : Turn P T) {x : S × (P → L)} (hx : I x.1) :
    I (sch.turn t x).1.1 := by
  have hbody := h t.what (x.2 t.who) x.1 hx
  unfold Scheme.turn
  split
  next => exact hbody.last
  next n _ => exact hbody.cut n

theorem Safe.serial (h : sch.Safe I) (ts : List (Turn P T)) {x : S × (P → L)} (hx : I x.1) :
    I (sch.serial ts x).1.1 := by
  induction ts generalizing x with
  | nil => exact hx
  | cons t ts ih => exact ih (h.turn t hx)

/-- In a serial run safe transactions keep `I` in every shared state, whoever is inside. -/
theorem SerialInv.safe {x : S × (P → L)} {c : Config P T C S L ρ R} (hc : SerialInv sch x c)
    (h : sch.Safe I) (hx : I x.1) : I c.shared := by
  have hserial := h.serial (c.log.map Prod.fst) hx
  by_cases hidle : ∀ p, c.inside p = none
  · rw [hc.idle hidle]
    exact hserial
  · -- whoever is inside has made some calls of its transaction from there
    obtain ⟨p, hp⟩ := not_forall.mp hidle
    obtain ⟨seat, hseat⟩ := Option.ne_none_iff_exists'.mp hp
    have hcut := (h seat.what (c.locals p) _ hserial).cut seat.calls
    have hbusy : (sch.body seat.what (c.locals p)).cut (sch.perform seat.what) seat.calls _
        = c.shared := congrArg Prod.snd (hc.busy p seat hseat)
    rwa [hbusy] at hcut

/-- **Safe transactions under exclusion** keep `I` in every state reached. -/
theorem Safe.reach (h : sch.Safe I) {x : S × (P → L)} (hx : I x.1) {c : Config P T C S L ρ R}
    (hc : Reach sch.fire Exclusive (init x) c) : I c.shared := by
  have hserial : SerialInv sch x c :=
    hc.inv (init_serialInv sch x) fun _ _ _ _ hI hex hf => fire_serialInv hI hex hf
  exact hserial.safe h hx

end Scheme

end CeStorage.Lib
