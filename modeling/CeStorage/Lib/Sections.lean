import CeStorage.Lib.Program
import CeStorage.Lib.Runs

/-!
# Sections: interleaved transactions over one shared state

Any number of processes run transactions against one shared state. A
transaction is a program (`Lib.Program`); its calls are executed one at a time,
so the calls of different processes interleave freely, and a process can crash
between any two calls. Nothing here says when a process may start a
transaction: that is decided by whatever lock protocol drives the system.

`Exclusive` is what a lock promises: a process starts only when nobody else is
inside. Under it every step keeps the run serial (`fire_serialInv`): the shared
state, every process's own state and every result are those of running the
recorded turns one after another, a crashed turn being the calls it made before
it crashed.
-/

namespace CeStorage.Lib

/-- How transactions of type `T` run: `body` is the program a process with own
state `L` runs, and `perform` what its calls do to the shared state `S`. -/
structure Scheme (T C S L ρ : Type) (R : C → Type) where
  body : T → L → Prog R (ρ × L)
  perform : T → (c : C) → S → R c × S

/-- A process inside a transaction: what is left to run, and how many calls it
has made. -/
structure Seat (T C L ρ : Type) (R : C → Type) where
  what : T
  rest : Prog R (ρ × L)
  calls : Nat

/-- One turn at the shared state: who, what, and after how many calls it was
cut short (`none`: it ran to its end). -/
structure Turn (P T : Type) where
  who : P
  what : T
  cut : Option Nat

/-- The whole system: the shared state, each process's own state, who is inside
a transaction, and the turns that are over with their results. -/
structure Config (P T C S L ρ : Type) (R : C → Type) where
  shared : S
  locals : P → L
  inside : P → Option (Seat T C L ρ R)
  log : List (Turn P T × Option ρ)

inductive SectionEvent (P T : Type) where
  /-- `p` starts transaction `t`. -/
  | enter (p : P) (t : T)
  /-- The next call of the transaction `p` is in. -/
  | call (p : P)
  /-- `p`'s transaction has returned. -/
  | leave (p : P)
  | crash (p : P)

variable {P T C S L ρ : Type} {R : C → Type} [DecidableEq P]

/-- What an updated table has at `q`: the new entry at `p`, the old one elsewhere. -/
theorem update_eq_some {α : Type} {f : P → Option α} {p q : P} {x : Option α} {a : α} :
    Function.update f p x q = some a ↔ q = p ∧ x = some a ∨ q ≠ p ∧ f q = some a := by
  by_cases hqp : q = p
  · subst hqp
    rw [Function.update_self]
    simp
  · rw [Function.update_of_ne hqp]
    simp [hqp]

namespace Scheme

/-- What one event does; `none` when it cannot happen. -/
def fire (sch : Scheme T C S L ρ R) :
    SectionEvent P T → Config P T C S L ρ R → Option (Config P T C S L ρ R)
  | .enter p t, c =>
    match c.inside p with
    | none => some { c with
        inside := Function.update c.inside p (some ⟨t, sch.body t (c.locals p), 0⟩) }
    | some _ => none
  | .call p, c =>
    match c.inside p with
    | some ⟨t, .call q k, n⟩ => some { c with
        shared := (sch.perform t q c.shared).2
        inside := Function.update c.inside p
          (some ⟨t, k (sch.perform t q c.shared).1, n + 1⟩) }
    | _ => none
  | .leave p, c =>
    match c.inside p with
    | some ⟨t, .ret (r, l), _⟩ => some { c with
        locals := Function.update c.locals p l
        inside := Function.update c.inside p none
        log := c.log ++ [(⟨p, t, none⟩, some r)] }
    | _ => none
  | .crash p, c =>
    match c.inside p with
    | some ⟨t, _, n⟩ => some { c with
        inside := Function.update c.inside p none
        log := c.log ++ [(⟨p, t, some n⟩, none)] }
    | none => none

/-- Only a transaction that returns adds to the log, crashes apart. -/
theorem fire_log {sch : Scheme T C S L ρ R} {c c' : Config P T C S L ρ R} {e : SectionEvent P T}
    (he : ∀ p, e ≠ .crash p) (hf : sch.fire e c = some c') :
    c'.log = c.log ∨ ∃ p t r, c'.log = c.log ++ [(⟨p, t, none⟩, some r)] := by
  cases e with
  | enter p t =>
    simp only [fire] at hf
    split at hf
    · cases hf
      exact .inl rfl
    · exact nomatch hf
  | call p =>
    simp only [fire] at hf
    split at hf
    · cases hf
      exact .inl rfl
    · exact nomatch hf
  | leave p =>
    simp only [fire] at hf
    split at hf
    next t r l n hin =>
      cases hf
      exact .inr ⟨p, t, r, rfl⟩
    next => exact nomatch hf
  | crash p => exact absurd rfl (he p)

/-! ## Serial execution -/

/-- One turn, run on its own. -/
def turn (sch : Scheme T C S L ρ R) (t : Turn P T) (x : S × (P → L)) :
    (S × (P → L)) × Option ρ :=
  match t.cut with
  | none =>
    let y := (sch.body t.what (x.2 t.who)).run (sch.perform t.what) x.1
    ((y.2, Function.update x.2 t.who y.1.2), some y.1.1)
  | some n => (((sch.body t.what (x.2 t.who)).cut (sch.perform t.what) n x.1, x.2), none)

/-- The turns one after another, with the result of each. -/
def serial (sch : Scheme T C S L ρ R) :
    List (Turn P T) → S × (P → L) → (S × (P → L)) × List (Option ρ)
  | [], x => (x, [])
  | t :: ts, x =>
    let y := sch.turn t x
    let z := sch.serial ts y.1
    (z.1, y.2 :: z.2)

theorem serial_append (sch : Scheme T C S L ρ R) (ts us : List (Turn P T))
    (x : S × (P → L)) :
    sch.serial (ts ++ us) x
      = ((sch.serial us (sch.serial ts x).1).1,
          (sch.serial ts x).2 ++ (sch.serial us (sch.serial ts x).1).2) := by
  induction ts generalizing x with
  | nil => rfl
  | cons t ts ih => simp only [List.cons_append, serial, ih]

theorem serial_snoc (sch : Scheme T C S L ρ R) (ts : List (Turn P T)) (t : Turn P T)
    (x : S × (P → L)) :
    sch.serial (ts ++ [t]) x
      = ((sch.turn t (sch.serial ts x).1).1,
          (sch.serial ts x).2 ++ [(sch.turn t (sch.serial ts x).1).2]) := by
  rw [serial_append]
  rfl

/-! ## Exclusive runs are serial -/

/-- A process starts a transaction only when nobody is inside one. -/
def Exclusive (c : Config P T C S L ρ R) : SectionEvent P T → Prop
  | .enter _ _ => ∀ q, c.inside q = none
  | _ => True

instance [Fintype P] (c : Config P T C S L ρ R) (e : SectionEvent P T) :
    Decidable (Exclusive c e) :=
  match e with
  | .enter _ _ => decidable_of_iff (∀ q, (c.inside q).isNone = true)
      (forall_congr' fun _ => Option.isNone_iff_eq_none)
  | .call _ | .leave _ | .crash _ => inferInstanceAs (Decidable True)

/-- The system as it starts: nobody inside, nothing logged. -/
def init (x : S × (P → L)) : Config P T C S L ρ R :=
  { shared := x.1, locals := x.2, inside := fun _ => none, log := [] }

/-- The state `c` is the serial run of its log, and whoever is inside has made
`calls` calls of its transaction from there. -/
structure SerialInv (sch : Scheme T C S L ρ R) (x : S × (P → L))
    (c : Config P T C S L ρ R) : Prop where
  results : (sch.serial (c.log.map Prod.fst) x).2 = c.log.map Prod.snd
  locals_eq : (sch.serial (c.log.map Prod.fst) x).1.2 = c.locals
  idle : (∀ p, c.inside p = none) → c.shared = (sch.serial (c.log.map Prod.fst) x).1.1
  one : ∀ p q, c.inside p ≠ none → c.inside q ≠ none → p = q
  busy : ∀ p seat, c.inside p = some seat →
    (sch.body seat.what (c.locals p)).after (sch.perform seat.what) seat.calls
      (sch.serial (c.log.map Prod.fst) x).1.1 = (seat.rest, c.shared)

theorem init_serialInv (sch : Scheme T C S L ρ R) (x : S × (P → L)) :
    SerialInv sch x (init x) where
  results := rfl
  locals_eq := rfl
  idle _ := rfl
  one _ _ hp := absurd rfl hp
  busy _ _ h := nomatch h

/-- Only the process that is inside matters for who is inside after it moves. -/
private theorem update_inside_one {c : Config P T C S L ρ R} {p : P}
    {x : Option (Seat T C L ρ R)}
    (h : ∀ p q, c.inside p ≠ none → c.inside q ≠ none → p = q) (hp : c.inside p ≠ none) :
    ∀ q r, Function.update c.inside p x q ≠ none → Function.update c.inside p x r ≠ none →
      q = r := by
  have key : ∀ q, Function.update c.inside p x q ≠ none → q = p := by
    intro q hq
    by_cases hqp : q = p
    · exact hqp
    · rw [Function.update_of_ne hqp] at hq
      exact h q p hq hp
  intro q r hq hr
  rw [key q hq, key r hr]

/-- After the process that was inside has left, nobody is. -/
private theorem update_inside_none {c : Config P T C S L ρ R} {p : P}
    (h : ∀ p q, c.inside p ≠ none → c.inside q ≠ none → p = q) (hp : c.inside p ≠ none)
    (q : P) : Function.update c.inside p none q = none := by
  by_contra hq
  by_cases hqp : q = p
  · rw [hqp, Function.update_self] at hq
    exact hq rfl
  · rw [Function.update_of_ne hqp] at hq
    exact hqp (h q p hq hp)

theorem enter_serialInv {sch : Scheme T C S L ρ R} {x : S × (P → L)}
    {c c' : Config P T C S L ρ R} {p : P} {t : T} (hI : SerialInv sch x c)
    (hex : ∀ q, c.inside q = none) (hf : sch.fire (.enter p t) c = some c') :
    SerialInv sch x c' := by
  simp only [fire, hex p, Option.some.injEq] at hf
  subst hf
  have only : ∀ q, Function.update c.inside p (some ⟨t, sch.body t (c.locals p), 0⟩) q ≠ none →
      q = p := by
    intro q hq
    by_contra hqp
    rw [Function.update_of_ne hqp] at hq
    exact hq (hex q)
  refine ⟨hI.results, hI.locals_eq, ?_, ?_, ?_⟩
  · intro hall
    exact absurd (hall p) (by simp)
  · intro q r hq hr
    rw [only q hq, only r hr]
  · intro q seat hq
    dsimp only at hq
    have hqp : q = p := only q (by rw [hq]; simp)
    subst hqp
    rw [Function.update_self] at hq
    cases hq
    show (_, _) = (_, c.shared)
    rw [hI.idle hex]

theorem call_serialInv {sch : Scheme T C S L ρ R} {x : S × (P → L)}
    {c c' : Config P T C S L ρ R} {p : P} (hI : SerialInv sch x c)
    (hf : sch.fire (.call p) c = some c') : SerialInv sch x c' := by
  simp only [fire] at hf
  split at hf
  next t q k n hin =>
    cases hf
    have hp : c.inside p ≠ none := by rw [hin]; simp
    refine ⟨hI.results, hI.locals_eq, ?_, update_inside_one hI.one hp, ?_⟩
    · intro hall
      exact absurd (hall p) (by simp)
    · intro r seat hr
      dsimp only at hr
      have hrp : r = p := by
        by_contra hrp
        rw [Function.update_of_ne hrp] at hr
        exact hrp (hI.one r p (by rw [hr]; simp) hp)
      subst hrp
      rw [Function.update_self] at hr
      cases hr
      have hbusy := hI.busy r _ hin
      dsimp only at hbusy ⊢
      rw [Prog.after_succ, hbusy]
      rfl
  next => exact nomatch hf

/-- Whoever is inside ends its turn, and the serial run of the log goes on with it. -/
theorem SerialInv.log_turn {sch : Scheme T C S L ρ R} {x : S × (P → L)}
    {c : Config P T C S L ρ R} {p : P} {t : Turn P T} {r : Option ρ} {l : P → L}
    (hI : SerialInv sch x c) (hp : c.inside p ≠ none)
    (hser : sch.serial ((c.log ++ [(t, r)]).map Prod.fst) x
      = ((c.shared, l), c.log.map Prod.snd ++ [r])) :
    SerialInv sch x { c with
      locals := l, inside := Function.update c.inside p none, log := c.log ++ [(t, r)] } := by
  have hnone := update_inside_none hI.one hp
  refine ⟨?_, ?_, ?_, ?_, ?_⟩
  · rw [hser, List.map_append]
    rfl
  · rw [hser]
  · intro _
    rw [hser]
  · intro q _ hq
    exact absurd (hnone q) hq
  · intro q seat hq
    exact absurd (hq.symm.trans (hnone q)) (by simp)

theorem leave_serialInv {sch : Scheme T C S L ρ R} {x : S × (P → L)}
    {c c' : Config P T C S L ρ R} {p : P} (hI : SerialInv sch x c)
    (hf : sch.fire (.leave p) c = some c') : SerialInv sch x c' := by
  simp only [fire] at hf
  split at hf
  next t r l n hin =>
    cases hf
    have hrun := Prog.run_of_after_ret (hI.busy p _ hin)
    refine hI.log_turn (by rw [hin]; simp) ?_
    rw [List.map_append, List.map_singleton, serial_snoc, hI.results]
    simp only [turn, hI.locals_eq]
    rw [hrun]
  next => exact nomatch hf

theorem crash_serialInv {sch : Scheme T C S L ρ R} {x : S × (P → L)}
    {c c' : Config P T C S L ρ R} {p : P} (hI : SerialInv sch x c)
    (hf : sch.fire (.crash p) c = some c') : SerialInv sch x c' := by
  simp only [fire] at hf
  split at hf
  next t rest n hin =>
    cases hf
    have hcut : (sch.body t (c.locals p)).cut (sch.perform t) n
        (sch.serial (c.log.map Prod.fst) x).1.1 = c.shared :=
      congrArg Prod.snd (hI.busy p _ hin)
    refine hI.log_turn (by rw [hin]; simp) ?_
    rw [List.map_append, List.map_singleton, serial_snoc, hI.results]
    simp only [turn, hI.locals_eq, hcut]
  next => exact nomatch hf

/-- **Exclusive runs are serial**, step by step: the results so far are those of the
serial run of the log, and when nobody is inside the shared state and every
process's own state are too. -/
theorem fire_serialInv {sch : Scheme T C S L ρ R} {x : S × (P → L)}
    {c c' : Config P T C S L ρ R} {e : SectionEvent P T} (hI : SerialInv sch x c)
    (hex : Exclusive c e) (hf : sch.fire e c = some c') : SerialInv sch x c' := by
  cases e with
  | enter p t => exact enter_serialInv hI hex hf
  | call p => exact call_serialInv hI hf
  | leave p => exact leave_serialInv hI hf
  | crash p => exact crash_serialInv hI hf

end Scheme

end CeStorage.Lib
