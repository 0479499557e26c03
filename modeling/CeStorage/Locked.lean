import CeStorage.Lib.Sections
import CeStorage.Lock

/-!
# Transactions under the file lock

Any number of processes run transactions (`Lib.Sections`) against one shared
state, each inside the lock (`Lock`): a process acquires, enters its transaction
when `acquire` returns, makes its calls one at a time, and drops the lock after
the transaction has returned. Every step of every process interleaves with those
of the others.

While no reclaim removes the lock file of a process that holds the lock, nobody
enters while another is inside (`enter_inv`), so `Scheme.fire_serialInv` applies:
everything is as if the transactions had run one after another, in the order in
which they got the lock (`reach_inv`).
-/

namespace CeStorage

open Lib FileLock

/-- The lock, the transactions, what each process acquires the lock for, and the
transactions that got the lock so far, in that order. -/
structure Guarded (P T C S L ρ : Type) (R : C → Type) where
  lock : LockState P
  sections : Config P T C S L ρ R
  wanted : P → Option T
  order : List (P × T)

inductive GuardedEvent (P T : Type) where
  /-- `p` calls `acquire` for a transaction. -/
  | begin (p : P) (t : T) (ok : Bool)
  /-- A step of `acquire`, or the passing of time. -/
  | lock (e : LockEvent P)
  /-- `acquire` returns, and the transaction begins. -/
  | enter (p : P) (ok : Bool)
  | call (p : P)
  /-- The transaction returns. -/
  | leave (p : P)
  | drop (p : P) (ok : Bool)
  | crash (p : P)

/-- The events of `acquire` between its call and its return. -/
def FileLock.LockEvent.Inner {P : Type} : LockEvent P → Bool
  | .tick _ | .create _ | .deny _ | .refuse _ | .stat _ _ | .remove _ _ | .retry _ => true
  | _ => false

variable {P T C S L ρ : Type} {R : C → Type} [DecidableEq P] {sch : Scheme T C S L ρ R}
  {x₀ : S × (P → L)} {x x' : Guarded P T C S L ρ R}

namespace Guarded

/-- Nobody holds the lock and nothing has run. -/
def start (x₀ : S × (P → L)) : Guarded P T C S L ρ R :=
  { lock := LockState.start P, sections := Scheme.init x₀, wanted := fun _ => none, order := [] }

/-- What one event does; `none` when it cannot happen. -/
def fire (sch : Scheme T C S L ρ R) :
    GuardedEvent P T → Guarded P T C S L ρ R → Option (Guarded P T C S L ρ R)
  | .begin p t ok, x =>
    (FileLock.fire (.begin p ok) x.lock).map fun l =>
      { x with lock := l, wanted := Function.update x.wanted p (some t) }
  | .lock e, x =>
    if e.Inner then (FileLock.fire e x.lock).map fun l => { x with lock := l } else none
  | .enter p ok, x =>
    match x.wanted p, FileLock.fire (.stamp p ok) x.lock with
    | some t, some l =>
      (sch.fire (.enter p t) x.sections).map fun c =>
        { lock := l, sections := c, wanted := Function.update x.wanted p none
          order := x.order ++ [(p, t)] }
    | _, _ => none
  | .call p, x => (sch.fire (.call p) x.sections).map fun c => { x with sections := c }
  | .leave p, x => (sch.fire (.leave p) x.sections).map fun c => { x with sections := c }
  | .drop p ok, x =>
    match x.sections.inside p with
    | none => (FileLock.fire (.drop p ok) x.lock).map fun l => { x with lock := l }
    | some _ => none
  | .crash p, x =>
    (FileLock.fire (.crash p) x.lock).map fun l =>
      { x with lock := l, sections := (sch.fire (.crash p) x.sections).getD x.sections }

/-- What one event does, in the steps of the lock and of the transactions. -/
inductive Step (sch : Scheme T C S L ρ R) (x : Guarded P T C S L ρ R) :
    GuardedEvent P T → Guarded P T C S L ρ R → Prop where
  | begin {p : P} {t : T} {ok : Bool} {l : LockState P}
      (hl : FileLock.fire (.begin p ok) x.lock = some l) :
      Step sch x (.begin p t ok)
        { x with lock := l, wanted := Function.update x.wanted p (some t) }
  | lock {e : LockEvent P} {l : LockState P} (he : e.Inner = true)
      (hl : FileLock.fire e x.lock = some l) : Step sch x (.lock e) { x with lock := l }
  | enter {p : P} {t : T} {ok : Bool} {l : LockState P} {c : Config P T C S L ρ R}
      (ht : x.wanted p = some t) (hl : FileLock.fire (.stamp p ok) x.lock = some l)
      (hc : sch.fire (.enter p t) x.sections = some c) :
      Step sch x (.enter p ok)
        { lock := l, sections := c, wanted := Function.update x.wanted p none
          order := x.order ++ [(p, t)] }
  | call {p : P} {c : Config P T C S L ρ R} (hc : sch.fire (.call p) x.sections = some c) :
      Step sch x (.call p) { x with sections := c }
  | leave {p : P} {c : Config P T C S L ρ R} (hc : sch.fire (.leave p) x.sections = some c) :
      Step sch x (.leave p) { x with sections := c }
  | drop {p : P} {ok : Bool} {l : LockState P} (hin : x.sections.inside p = none)
      (hl : FileLock.fire (.drop p ok) x.lock = some l) : Step sch x (.drop p ok) { x with lock := l }
  | crash {p : P} {l : LockState P} (hl : FileLock.fire (.crash p) x.lock = some l) :
      Step sch x (.crash p)
        { x with lock := l, sections := (sch.fire (.crash p) x.sections).getD x.sections }

/-- Every event that can happen is one of these steps. -/
theorem fire_step {e : GuardedEvent P T} (hf : fire sch e x = some x') : Step sch x e x' := by
  cases e with
  | begin p t ok =>
    obtain ⟨l, hl, rfl⟩ := Option.map_eq_some_iff.mp hf
    exact .begin hl
  | lock e =>
    simp only [fire] at hf
    split at hf
    next he =>
      obtain ⟨l, hl, rfl⟩ := Option.map_eq_some_iff.mp hf
      exact .lock he hl
    next => exact nomatch hf
  | enter p ok =>
    simp only [fire] at hf
    split at hf
    next t l ht hl =>
      obtain ⟨c, hc, rfl⟩ := Option.map_eq_some_iff.mp hf
      exact .enter ht hl hc
    next => exact nomatch hf
  | call p =>
    obtain ⟨c, hc, rfl⟩ := Option.map_eq_some_iff.mp hf
    exact .call hc
  | leave p =>
    obtain ⟨c, hc, rfl⟩ := Option.map_eq_some_iff.mp hf
    exact .leave hc
  | drop p ok =>
    simp only [fire] at hf
    split at hf
    next hin =>
      obtain ⟨l, hl, rfl⟩ := Option.map_eq_some_iff.mp hf
      exact .drop hin hl
    next => exact nomatch hf
  | crash p =>
    obtain ⟨l, hl, rfl⟩ := Option.map_eq_some_iff.mp hf
    exact .crash hl

/-- No reclaim removes the lock file of a process that holds the lock. -/
def Harmless (x : Guarded P T C S L ρ R) : GuardedEvent P T → Prop
  | .lock e => FileLock.Harmless x.lock e
  | _ => True

/-! ## The invariant -/

/-- Whoever is inside a transaction holds the lock, the transactions are serial,
and they got the lock in the order in which they are over, with the one that is
running last. -/
structure Inv (sch : Scheme T C S L ρ R) (x₀ : S × (P → L)) (x : Guarded P T C S L ρ R) :
    Prop where
  owned : Owned x.lock
  holding : ∀ p seat, x.sections.inside p = some seat → ∃ t, x.lock.pc p = .held t
  serial : Scheme.SerialInv sch x₀ x.sections
  idle : (∀ p, x.sections.inside p = none) →
    x.order = x.sections.log.map fun e => (e.1.who, e.1.what)
  busy : ∀ p seat, x.sections.inside p = some seat →
    x.order = x.sections.log.map (fun e => (e.1.who, e.1.what)) ++ [(p, seat.what)]

theorem start_inv : Inv sch x₀ (start x₀) where
  owned := start_owned
  holding _ _ h := nomatch h
  serial := Scheme.init_serialInv sch x₀
  idle _ := rfl
  busy _ _ h := nomatch h

/-- A lock event that is neither a drop nor a crash moves nobody who is inside. -/
theorem Inv.holding_fire {e : LockEvent P} {l : LockState P} (hI : Inv sch x₀ x)
    (hdrop : ∀ p ok, e ≠ .drop p ok) (hcrash : ∀ p, e ≠ .crash p)
    (hf : FileLock.fire e x.lock = some l) :
    ∀ p seat, x.sections.inside p = some seat → ∃ t, l.pc p = .held t := by
  intro p seat hp
  obtain ⟨t, ht⟩ := hI.holding p seat hp
  by_cases hwho : e.who = some p
  · rcases fire_held hf hwho ht with ⟨ok, he⟩ | he
    · exact absurd he (hdrop p ok)
    · exact absurd he (hcrash p)
  · exact ⟨t, (fire_pc hf hwho).trans ht⟩

/-- A lock event that leaves the transactions alone keeps the invariant if it
moves nobody who is inside. -/
theorem Inv.lock {e : LockEvent P} {l : LockState P} {wanted : P → Option T} (hI : Inv sch x₀ x)
    (hs : FileLock.Harmless x.lock e) (hf : FileLock.fire e x.lock = some l)
    (hh : ∀ p seat, x.sections.inside p = some seat → ∃ t, l.pc p = .held t) :
    Inv sch x₀ { x with lock := l, wanted := wanted } where
  owned := fire_owned hI.owned hs hf
  holding := hh
  serial := hI.serial
  idle := hI.idle
  busy := hI.busy

/-- Who holds the lock without being inside is alone. -/
theorem Inv.alone (hI : Inv sch x₀ x) {p : P} (hp : (x.lock.pc p).Holds)
    (hin : x.sections.inside p = none) (q : P) : x.sections.inside q = none := by
  cases hq : x.sections.inside q with
  | none => rfl
  | some seat =>
    obtain ⟨t, ht⟩ := hI.holding q seat hq
    have hqp : q = p := hI.owned.unique ⟨t, by rw [ht]; rfl⟩ hp
    rw [hqp, hin] at hq
    exact nomatch hq

/-- Entering: the process has just got the lock, so nobody is inside. -/
theorem enter_inv {p : P} {ok : Bool} (hI : Inv sch x₀ x)
    (hf : fire sch (.enter p ok) x = some x') : Inv sch x₀ x' := by
  cases fire_step hf with
  | @enter _ t _ l c ht hl hc =>
    have hin : x.sections.inside p = none := by
      cases h : x.sections.inside p with
      | none => rfl
      | some seat =>
        simp only [Scheme.fire, h] at hc
        cases hc
    have hpc : ∃ u, x.lock.pc p = .opened u ∧ l.pc p = .held u := by
      simp only [FileLock.fire] at hl
      split at hl
      next u hu =>
        cases hl
        exact ⟨u, hu, Function.update_self _ _ _⟩
      next => cases hl
    obtain ⟨u, hopened, hheld⟩ := hpc
    have hnone := hI.alone (p := p) ⟨u, by rw [hopened]; rfl⟩ hin
    have hserial := Scheme.fire_serialInv (e := .enter p t) hI.serial hnone hc
    have hinside : c.inside = Function.update x.sections.inside p
        (some ⟨t, sch.body t (x.sections.locals p), 0⟩) ∧ c.log = x.sections.log := by
      simp only [Scheme.fire, hin] at hc
      cases hc
      exact ⟨rfl, rfl⟩
    have only : ∀ q seat, c.inside q = some seat → q = p ∧ seat.what = t := by
      intro q seat hq
      rw [hinside.1] at hq
      rcases update_eq_some.mp hq with ⟨rfl, hseat⟩ | ⟨-, hq⟩
      · cases hseat
        exact ⟨rfl, rfl⟩
      · cases (hnone q).symm.trans hq
    refine ⟨fire_owned (e := .stamp p ok) hI.owned trivial hl, ?_, hserial, ?_, ?_⟩
    · intro q seat hq
      obtain ⟨rfl, -⟩ := only q seat hq
      exact ⟨u, hheld⟩
    · intro hall
      have hp := hall p
      dsimp only at hp
      rw [hinside.1, Function.update_self] at hp
      cases hp
    · intro q seat hq
      obtain ⟨rfl, hw⟩ := only q seat hq
      dsimp only
      rw [hinside.2, hI.idle hnone, hw]

/-- A call goes on with the transaction that the process is in. -/
theorem call_inv {p : P} (hI : Inv sch x₀ x) (hf : fire sch (.call p) x = some x') :
    Inv sch x₀ x' := by
  obtain ⟨c, hc, rfl⟩ := Option.map_eq_some_iff.mp hf
  have hserial := Scheme.fire_serialInv (e := .call p) hI.serial trivial hc
  simp only [Scheme.fire] at hc
  split at hc
  next t q k n hin =>
    cases hc
    have same : ∀ r seat, Function.update x.sections.inside p
        (some ⟨t, k (sch.perform t q x.sections.shared).1, n + 1⟩) r = some seat →
        ∃ seat', x.sections.inside r = some seat' ∧ seat'.what = seat.what := by
      intro r seat hr
      rcases update_eq_some.mp hr with ⟨rfl, hseat⟩ | ⟨-, hr⟩
      · cases hseat
        exact ⟨_, hin, rfl⟩
      · exact ⟨seat, hr, rfl⟩
    refine ⟨hI.owned, ?_, hserial, ?_, ?_⟩
    · intro r seat hr
      obtain ⟨seat', hr', -⟩ := same r seat hr
      exact hI.holding r seat' hr'
    · intro hall
      have hp := hall p
      dsimp only at hp
      rw [Function.update_self] at hp
      cases hp
    · intro r seat hr
      obtain ⟨seat', hr', hw⟩ := same r seat hr
      rw [← hw]
      exact hI.busy r seat' hr'
  next => cases hc

/-- After the process that was inside has left, nobody is inside. -/
theorem Inv.left (hI : Inv sch x₀ x) {p : P} {seat : Seat T C L ρ R}
    (hin : x.sections.inside p = some seat) (q : P) :
    Function.update x.sections.inside p none q = none := by
  by_cases hqp : q = p
  · rw [hqp, Function.update_self]
  · rw [Function.update_of_ne hqp]
    cases hq : x.sections.inside q with
    | none => rfl
    | some seat' => exact absurd (hI.serial.one q p (by rw [hq]; simp) (by rw [hin]; simp)) hqp

/-- The transaction that was running is over: it is the last one that got the lock. -/
theorem Inv.log_turn {p : P} {seat : Seat T C L ρ R} {l : LockState P}
    {c : Config P T C S L ρ R} {cut : Option Nat} {r : Option ρ} (hI : Inv sch x₀ x)
    (hin : x.sections.inside p = some seat) (howned : Owned l)
    (hserial : Scheme.SerialInv sch x₀ c)
    (hinside : c.inside = Function.update x.sections.inside p none)
    (hlog : c.log = x.sections.log ++ [(⟨p, seat.what, cut⟩, r)]) :
    Inv sch x₀ { x with lock := l, sections := c } := by
  have hnone : ∀ q, c.inside q = none := fun q => (congrFun hinside q).trans (hI.left hin q)
  refine ⟨howned, ?_, hserial, ?_, ?_⟩
  · intro q seat hq
    exact nomatch (hnone q).symm.trans hq
  · intro _
    dsimp only
    rw [hI.busy p _ hin, hlog, List.map_append]
    rfl
  · intro q seat hq
    exact nomatch (hnone q).symm.trans hq

theorem leave_inv {p : P} (hI : Inv sch x₀ x) (hf : fire sch (.leave p) x = some x') :
    Inv sch x₀ x' := by
  obtain ⟨c, hc, rfl⟩ := Option.map_eq_some_iff.mp hf
  have hserial := Scheme.fire_serialInv (e := .leave p) hI.serial trivial hc
  simp only [Scheme.fire] at hc
  split at hc
  next t r l n hin =>
    cases hc
    exact hI.log_turn hin hI.owned hserial rfl rfl
  next => cases hc

theorem crash_inv {p : P} (hI : Inv sch x₀ x) (hf : fire sch (.crash p) x = some x') :
    Inv sch x₀ x' := by
  obtain ⟨l, hl, rfl⟩ := Option.map_eq_some_iff.mp hf
  have howned := fire_owned hI.owned (e := .crash p) trivial hl
  cases hin : x.sections.inside p with
  | none =>
    have hc : (sch.fire (.crash p) x.sections).getD x.sections = x.sections := by
      simp only [Scheme.fire, hin]
      rfl
    rw [hc]
    refine ⟨howned, ?_, hI.serial, hI.idle, hI.busy⟩
    intro q seat hq
    obtain ⟨t, ht⟩ := hI.holding q seat hq
    refine ⟨t, (fire_pc hl ?_).trans ht⟩
    intro hqp
    cases hqp
    cases hin.symm.trans hq
  | some seat =>
    obtain ⟨t, rest, n⟩ := seat
    have hc : sch.fire (.crash p) x.sections = some { x.sections with
        inside := Function.update x.sections.inside p none
        log := x.sections.log ++ [(⟨p, t, some n⟩, none)] } := by
      simp only [Scheme.fire, hin]
    have hserial := Scheme.fire_serialInv (e := .crash p) hI.serial trivial hc
    rw [hc]
    exact hI.log_turn hin howned hserial rfl rfl

/-- One harmless event keeps the invariant. -/
theorem fire_inv {e : GuardedEvent P T} (hI : Inv sch x₀ x) (hs : Harmless x e)
    (hf : fire sch e x = some x') : Inv sch x₀ x' := by
  cases fire_step hf with
  | @begin p t ok l hl =>
    exact hI.lock (e := .begin p ok) trivial hl (hI.holding_fire (by simp) (by simp) hl)
  | lock he hl =>
    refine hI.lock hs hl (hI.holding_fire ?_ ?_ hl)
    · rintro p ok rfl
      exact nomatch he
    · rintro p rfl
      exact nomatch he
  | enter => exact enter_inv hI hf
  | call => exact call_inv hI hf
  | leave => exact leave_inv hI hf
  | @drop p ok l hin hl =>
    refine hI.lock (e := .drop p ok) trivial hl ?_
    intro q seat hq
    obtain ⟨t, ht⟩ := hI.holding q seat hq
    refine ⟨t, (fire_pc hl ?_).trans ht⟩
    intro hqp
    -- the one who drops is not inside
    cases hqp
    exact nomatch hin.symm.trans hq
  | crash => exact crash_inv hI hf

/-- **Transactions under the lock are serial**, in every state of every run in
which no reclaim removes a holder's lock file. -/
theorem reach_inv (hx : Reach (fire sch) Harmless (start x₀) x) : Inv sch x₀ x := by
  have hstart : Inv sch x₀ (start x₀) := start_inv
  exact hx.inv hstart fun _ _ _ _ hI hok hf => fire_inv hI hok hf

/-! ## What was called -/

/-- Every transaction that is called is in `A`. -/
def Calls (A : T → Prop) : GuardedEvent P T → Prop
  | .begin _ t _ => A t
  | _ => True

/-- A transaction is wanted once it is called, and got the lock once it was
wanted. -/
theorem wanted_cases {e : GuardedEvent P T} (hf : fire sch e x = some x') :
    (x'.wanted = x.wanted ∧ x'.order = x.order) ∨
    (∃ p t ok, e = .begin p t ok ∧ x'.wanted = Function.update x.wanted p (some t) ∧
      x'.order = x.order) ∨
    ∃ p t, x.wanted p = some t ∧ x'.wanted = Function.update x.wanted p none ∧
      x'.order = x.order ++ [(p, t)] := by
  cases fire_step hf with
  | @begin p t ok => exact .inr (.inl ⟨p, t, ok, rfl, rfl, rfl⟩)
  | @enter p t ok l c ht => exact .inr (.inr ⟨p, t, ht, rfl, rfl⟩)
  | lock | call | leave | drop | crash => exact .inl ⟨rfl, rfl⟩

/-- Only what was called got the lock. -/
theorem reach_order {A : T → Prop} {ok : Guarded P T C S L ρ R → GuardedEvent P T → Prop}
    (hok : ∀ x e, ok x e → Calls A e) (hx : Reach (fire sch) ok (start x₀) x) :
    ∀ a ∈ x.order, A a.2 := by
  have hboth : (∀ p t, x.wanted p = some t → A t) ∧ ∀ a ∈ x.order, A a.2 := by
    refine hx.inv (I := fun y => (∀ p t, y.wanted p = some t → A t) ∧ ∀ a ∈ y.order, A a.2)
      (by simp [start]) fun y e y' _ hI he hf => ?_
    obtain ⟨hwanted, horder⟩ := hI
    rcases wanted_cases hf with ⟨hw, ho⟩ | ⟨p, t, b, rfl, hw, ho⟩ | ⟨p, t, ht, hw, ho⟩
    · rw [hw, ho]
      exact ⟨hwanted, horder⟩
    · rw [hw, ho]
      refine ⟨?_, horder⟩
      intro q u hq
      rcases update_eq_some.mp hq with ⟨rfl, ht⟩ | ⟨-, hq⟩
      · cases ht
        exact hok _ _ he
      · exact hwanted q u hq
    · rw [hw, ho]
      constructor
      · intro q u hq
        rcases update_eq_some.mp hq with ⟨-, hnone⟩ | ⟨-, hq⟩
        · cases hnone
        · exact hwanted q u hq
      · intro a ha
        rcases List.mem_append.mp ha with ha | ha
        · exact horder a ha
        · cases List.mem_singleton.mp ha
          exact hwanted p t ht
  exact hboth.2

/-- The transactions that are over got the lock. -/
theorem Inv.mem_order (hI : Inv sch x₀ x) {e : Turn P T × Option ρ} (he : e ∈ x.sections.log) :
    (e.1.who, e.1.what) ∈ x.order := by
  have hmem : (e.1.who, e.1.what) ∈ x.sections.log.map fun e => (e.1.who, e.1.what) :=
    List.mem_map.mpr ⟨e, he, rfl⟩
  by_cases hidle : ∀ p, x.sections.inside p = none
  · rw [hI.idle hidle]
    exact hmem
  · obtain ⟨p, hp⟩ := not_forall.mp hidle
    obtain ⟨seat, hseat⟩ := Option.ne_none_iff_exists'.mp hp
    rw [hI.busy p seat hseat]
    exact List.mem_append_left _ hmem

/-! ## Runs without crashes and stale files -/

/-- No process crashes, and the lock file is not stale. -/
def Calm (x : Guarded P T C S L ρ R) (e : GuardedEvent P T) : Prop :=
  (∀ p, e ≠ .crash p) ∧ ∀ f, x.lock.file = some f → ¬f.Stale x.lock.now

/-- Nobody reclaims the lock file, and every transaction that is over has
returned. -/
structure CalmInv (sch : Scheme T C S L ρ R) (x₀ : S × (P → L)) (x : Guarded P T C S L ρ R) :
    Prop where
  inv : Inv sch x₀ x
  reclaiming : ∀ p d, x.lock.pc p ≠ .reclaiming d
  returned : ∀ e ∈ x.sections.log, e.1.cut = none ∧ e.2 ≠ none

theorem CalmInv.harmless {e : GuardedEvent P T} (hI : CalmInv sch x₀ x)
    (hf : fire sch e x = some x') : Harmless x e := by
  cases fire_step hf with
  | @lock e l he hl =>
    cases e with
    | remove p ok =>
      -- nobody is there to remove the file
      simp only [FileLock.fire] at hl
      split at hl
      next d hd => exact absurd hd (hI.reclaiming p d)
      next => cases hl
    | _ => trivial
  | _ => trivial

/-- What an event does to the lock is a lock event, or nothing. -/
theorem lock_cases {e : GuardedEvent P T} (hf : fire sch e x = some x') :
    x'.lock = x.lock ∨ ∃ e', FileLock.fire e' x.lock = some x'.lock ∧
      ∀ d, e' = .tick d → e = .lock (.tick d) := by
  cases fire_step hf with
  | begin hl => exact .inr ⟨_, hl, by simp⟩
  | lock he hl => exact .inr ⟨_, hl, by simp⟩
  | enter ht hl hc => exact .inr ⟨_, hl, by simp⟩
  | drop hin hl => exact .inr ⟨_, hl, by simp⟩
  | crash hl => exact .inr ⟨_, hl, by simp⟩
  | call | leave => exact .inl rfl

/-- Only a transaction that returns, or a crash, adds to the log. -/
theorem log_cases {e : GuardedEvent P T} (hcrash : ∀ p, e ≠ .crash p)
    (hf : fire sch e x = some x') :
    x'.sections.log = x.sections.log ∨
      ∃ p t r, x'.sections.log = x.sections.log ++ [(⟨p, t, none⟩, some r)] := by
  cases fire_step hf with
  | begin | lock | drop => exact .inl rfl
  | enter ht hl hc => exact Scheme.fire_log (by simp) hc
  | call hc => exact Scheme.fire_log (by simp) hc
  | leave hc => exact Scheme.fire_log (by simp) hc
  | crash => exact absurd rfl (hcrash _)

theorem fire_calmInv {e : GuardedEvent P T} (hI : CalmInv sch x₀ x) (hc : Calm x e)
    (hf : fire sch e x = some x') : CalmInv sch x₀ x' := by
  refine ⟨fire_inv hI.inv (hI.harmless hf) hf, ?_, ?_⟩
  · intro p d hp
    rcases lock_cases hf with hl | ⟨e', hl, -⟩
    · rw [hl] at hp
      exact hI.reclaiming p d hp
    · rcases fire_reclaiming hl hp with h | ⟨ok, -, hs⟩
      · exact hI.reclaiming p d h
      · -- the file it looked at was not stale
        unfold LockState.isStale at hs
        cases hfile : x.lock.file with
        | none =>
          simp [hfile] at hs
        | some f =>
          rw [hfile] at hs
          simp only [Option.any_some, Bool.and_eq_true, decide_eq_true_eq] at hs
          exact hc.2 f hfile hs.2
  · intro entry he
    rcases log_cases hc.1 hf with hl | ⟨p, t, r, hl⟩
    · rw [hl] at he
      exact hI.returned entry he
    · rw [hl] at he
      rcases List.mem_append.mp he with he | he
      · exact hI.returned entry he
      · cases List.mem_singleton.mp he
        exact ⟨rfl, by simp⟩

theorem reach_calmInv (hx : Reach (fire sch) Calm (start x₀) x) : CalmInv sch x₀ x := by
  have hstart : CalmInv sch x₀ (start x₀) :=
    ⟨start_inv, fun _ _ h => (nomatch h), fun _ h => nomatch h⟩
  exact hx.inv hstart fun _ _ _ _ hI hok hf => fire_calmInv hI hok hf

/-- Nothing gets stale while no time passes. -/
theorem reach_calm_of_play : ∀ (es : List (GuardedEvent P T)) {x x' : Guarded P T C S L ρ R},
    (∀ e ∈ es, (∀ p, e ≠ .crash p) ∧ ∀ d, e ≠ .lock (.tick d)) → x.lock.now ≤ staleAfter →
    play (fire sch) es x = some x' → Reach (fire sch) Calm x x'
  | [], x, x', _, _, h => by
    cases h
    exact .start
  | e :: es, x, x', hes, hnow, h => by
    obtain ⟨y, hf, hp⟩ := Option.bind_eq_some_iff.mp h
    obtain ⟨hcrash, htick⟩ := hes e List.mem_cons_self
    have hy : y.lock.now = x.lock.now := by
      rcases lock_cases hf with hl | ⟨e', hl, he'⟩
      · rw [hl]
      · exact fire_now hl fun d hd => htick d (he' d hd)
    have hcalm : Calm x e := by
      refine ⟨hcrash, ?_⟩
      intro f _ hst
      unfold LockFile.Stale at hst
      omega
    have hone : Reach (fire sch) Calm x y := .next .start hcalm hf
    exact hone.trans (reach_calm_of_play es (fun e' he => hes e' (List.mem_cons_of_mem e he))
      (by omega) hp)

end Guarded

end CeStorage
