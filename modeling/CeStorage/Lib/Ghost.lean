import CeStorage.Lib.Program

/-!
# Programs and a ghost that watches their calls

A ghost state sees every call a program makes and what it was answered, and
nothing else: `note` is what it makes of one answered call. `Watched note Q p g`
says that `p`, begun while the ghost is `g`, ends with `Q` of what it returns and
of the ghost, whatever its calls are answered. So it holds however the calls of
other programs come between, and of a program that is partly run it still holds
from where the ghost is by then (`watched_call`).
-/

namespace CeStorage.Lib

namespace Prog

variable {C : Type} {R : C → Type} {α β G S : Type} {note : (c : C) → R c → G → G}

def Watched (note : (c : C) → R c → G → G) (Q : α → G → Prop) : Prog R α → G → Prop
  | .ret a, g => Q a g
  | .call c k, g => ∀ r, (k r).Watched note Q (note c r g)

variable {Q Q' : α → G → Prop} {g : G}

@[simp] theorem watched_ret (a : α) : (Prog.ret a : Prog R α).Watched note Q g = Q a g := rfl

@[simp] theorem watched_call (c : C) (k : R c → Prog R α) :
    (Prog.call c k).Watched note Q g = ∀ r, (k r).Watched note Q (note c r g) := rfl

/-- A sequence is watched from the end of its first part. -/
theorem watched_bind {Q : β → G → Prop} (p : Prog R α) (f : α → Prog R β) :
    (p.bind f).Watched note Q g ↔ p.Watched note (fun a g => (f a).Watched note Q g) g := by
  induction p generalizing g with
  | ret a => exact Iff.rfl
  | call c k ih => exact forall_congr' fun r => ih r

theorem Watched.mono {p : Prog R α} (h : p.Watched note Q g) (hQ : ∀ a g, Q a g → Q' a g) :
    p.Watched note Q' g := by
  induction p generalizing g with
  | ret a => exact hQ a g h
  | call c k ih => exact fun r => ih r (h r)

/-- A program that makes no call returns at once what any run of it returns. -/
theorem watched_of_silent {p : Prog R α} (hp : p.Uses fun _ => False)
    (perform : (c : C) → S → R c × S) (s : S) :
    p.Watched note Q g ↔ Q (p.run perform s).1 g := by
  cases p with
  | ret a => exact Iff.rfl
  | call c k => exact hp.1.elim

end Prog

end CeStorage.Lib
