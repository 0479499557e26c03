import CeStorage.CeRs
import CeStorage.Locked
import CeStorage.Store.Reload

/-!
# Mutations through many handles

Any number of `Store` handles over one index path, each running mutating calls:
the system of `Locked`, over the calls of `Store.Calls`. Calls under the lock are
serial, and every call reloads what it reads inside the lock (`Store.Reload`), so
a run without crashes and stale lock files comes to the same as its calls one
after another in lock order, on handles that remember nothing.

A call that fails its own check returns before it gets to the lock; running it
alone in its turn, or not at all, is the same.
-/

namespace CeStorage

open Lib FileLock

variable {P : Type} [DecidableEq P] {ce : CeRs} {env : Env} {s : Store} {w : World}

/-- A mutating call together with what its environment answers: the clock, the
upload id, the blob store, and which file operations fail. -/
abbrev Request := StoreCall × Env

/-- What a handle runs once it has the lock. -/
def storeScheme (ce : CeRs) : Scheme Request Call World Store (Except Failure Value) Resp where
  body t self := (t.1.op ce self).prog self
  perform t := perform ce t.2

/-- The handles on one index path. -/
abbrev Handles (P : Type) := Guarded P Request Call World Store (Except Failure Value) Resp

/-! ## One after another -/

/-- The same answers, in an environment that grants the lock. -/
def Env.granted (env : Env) : Env := { env with lock := .ok () }

/-- The calls one after another, each alone and through a handle that remembers
nothing: the world they leave, and what each returns. -/
def serialRun (ce : CeRs) (handles : P → Store) :
    List (P × Request) → World → World × List (Except Failure Value)
  | [], w => (w, [])
  | (p, c, env) :: rest, w =>
    let r := c.exec ce env.granted (handles p).uncached w
    let y := serialRun ce handles rest r.2
    (y.1, r.1.1 :: y.2)

theorem exec_granted {ε α : Type} (x : Act ε α) :
    exec ce env.granted x s w = exec ce env x s w := by
  have h : perform ce env.granted = perform ce env := by
    funext c w
    cases c <;> rfl
  unfold exec
  rw [h]

/-- A call alone is its program, run to the end. -/
theorem exec_alone (c : StoreCall) :
    c.exec ce env.granted s w = exec ce env (c.op ce s).prog s w := by
  unfold StoreCall.exec Op.exec
  cases c.op ce s with
  | refused e => rfl
  | locked busy body => exact exec_granted body

/-- Turns that all run to their end are the calls one after another: what the
handles remember of the turns before makes no difference. -/
theorem serial_eq_serialRun (ce : CeRs) (handles : P → Store) (ts : List (Turn P Request))
    (hts : ∀ t ∈ ts, t.cut = none) (x : World × (P → Store))
    (hx : ∀ p, (x.2 p).uncached = (handles p).uncached) :
    ((storeScheme ce).serial ts x).1.1
        = (serialRun ce handles (ts.map fun t => (t.who, t.what)) x.1).1 ∧
      ((storeScheme ce).serial ts x).2
        = (serialRun ce handles (ts.map fun t => (t.who, t.what)) x.1).2.map some := by
  induction ts generalizing x with
  | nil => exact ⟨rfl, rfl⟩
  | cons t ts ih =>
    obtain ⟨p, ⟨c, env⟩, cut⟩ := t
    obtain rfl : cut = none := hts _ List.mem_cons_self
    -- the handle of the turn has what the run on uncached handles has, but for its index
    have hone : Alike (x.2 p) (exec ce env (c.op ce (x.2 p)).prog (x.2 p) x.1)
        (c.exec ce env.granted (handles p).uncached x.1) := by
      rw [exec_alone, ← hx p]
      exact exec_alike ce env c (x.2 p) x.1
    have hnext := ih (fun t ht => hts t (List.mem_cons_of_mem _ ht))
      ((storeScheme ce).turn ⟨p, (c, env), none⟩ x).1 (fun q => by
        show (Function.update x.2 p _ q).uncached = _
        by_cases hq : q = p
        · subst hq
          rw [Function.update_self]
          exact hone.handle.trans (hx q)
        · rw [Function.update_of_ne hq]
          exact hx q)
    have hworld : ((storeScheme ce).turn ⟨p, (c, env), none⟩ x).1.1
        = (c.exec ce env.granted (handles p).uncached x.1).2 := hone.world
    have hresult : ((storeScheme ce).turn ⟨p, (c, env), none⟩ x).2
        = some (c.exec ce env.granted (handles p).uncached x.1).1.1 := congrArg some hone.result
    rw [hworld] at hnext
    refine ⟨hnext.1, ?_⟩
    show _ :: _ = _ :: _
    rw [hresult]
    exact congrArg _ hnext.2

/-! ## Serializability -/

/-- What each call that has returned was, and what it returned. -/
def Handles.completed (x : Handles P) : List (P × Request × Option (Except Failure Value)) :=
  x.sections.log.map fun e => (e.1.who, e.1.what, e.2)

omit [DecidableEq P] in
/-- A log whose results are `rs` pairs each call with its result. -/
theorem completed_eq (log : List (Turn P Request × Option (Except Failure Value)))
    (rs : List (Except Failure Value)) (h : log.map Prod.snd = rs.map some) :
    (log.map fun e => (e.1.who, e.1.what, e.2))
      = List.zipWith (fun a r => (a.1, a.2, some r)) (log.map fun e => (e.1.who, e.1.what)) rs := by
  induction log generalizing rs with
  | nil =>
    cases rs with
    | nil => rfl
    | cons r rs => exact nomatch h
  | cons e log ih =>
    cases rs with
    | nil => exact nomatch h
    | cons r rs =>
      obtain ⟨he, hlog⟩ := List.cons_eq_cons.mp h
      rw [List.map_cons, List.map_cons, List.zipWith_cons_cons, ih rs hlog, he]

/-- **No lost update.** In every state of every run without crashes and stale
lock files, the calls that have returned are the first that got the lock, all
but at most one. Running them one after another from the start, in the order in
which they got the lock, returns the same results; and it leaves the same files
when no call is in progress. -/
theorem mutations_serializable (ce : CeRs) (w₀ : World) (handles : P → Store) (x : Handles P)
    (hx : Reach (Guarded.fire (storeScheme ce)) Guarded.Calm (Guarded.start (w₀, handles)) x) :
    ∃ done rest : List (P × Request), x.order = done ++ rest ∧ rest.length ≤ 1 ∧
      done.length = (serialRun ce handles done w₀).2.length ∧
      x.completed = List.zipWith (fun a r => (a.1, a.2, some r)) done
        (serialRun ce handles done w₀).2 ∧
      ((∀ p, x.sections.inside p = none) →
        rest = [] ∧ x.sections.shared = (serialRun ce handles x.order w₀).1) := by
  have hI := Guarded.reach_calmInv hx
  have hserial := hI.inv.serial
  -- the serial order is that of the log
  let done := x.sections.log.map fun e => (e.1.who, e.1.what)
  obtain ⟨hworld, hturns⟩ := serial_eq_serialRun ce handles (x.sections.log.map Prod.fst)
    (fun t ht => by
      obtain ⟨e, he, rfl⟩ := List.mem_map.mp ht
      exact (hI.returned e he).1) (w₀, handles) fun _ => rfl
  rw [List.map_map] at hworld hturns
  have hresults : x.sections.log.map Prod.snd = (serialRun ce handles done w₀).2.map some :=
    hserial.results.symm.trans hturns
  have hlength : done.length = (serialRun ce handles done w₀).2.length := by
    have h := congrArg List.length hresults
    rw [List.length_map, List.length_map] at h
    rw [List.length_map]
    exact h
  by_cases hidle : ∀ p, x.sections.inside p = none
  · have horder := hI.inv.idle hidle
    refine ⟨done, [], by rw [List.append_nil]; exact horder, by simp, hlength,
      completed_eq _ _ hresults, fun _ => ⟨rfl, ?_⟩⟩
    rw [hserial.idle hidle, horder]
    exact hworld
  · -- the one call in progress is the last that got the lock
    obtain ⟨p, hp⟩ := not_forall.mp hidle
    obtain ⟨seat, hseat⟩ := Option.ne_none_iff_exists'.mp hp
    exact ⟨done, [(p, seat.what)], hI.inv.busy p seat hseat, by simp, hlength,
      completed_eq _ _ hresults, fun h => absurd h hidle⟩

/-! Two handles: the second finds the lock taken, waits, and gets it when the
first has dropped it. -/

/-- The handle that begins first in the runs on two handles. -/
def early : Fin 2 := 0

/-- The handle that comes later. -/
def late : Fin 2 := 1

private def twoCalls : List (GuardedEvent (Fin 2) Request) :=
  [.begin early (.makeBucket "photos", Env.calm CeRs.plain 1 "u") true, .lock (.create early),
    .enter early true, .call early, .call early,
    .begin late (.makeBucket "videos", Env.calm CeRs.plain 2 "u") true, .lock (.create late),
    .lock (.stat late true), .call early, .call early, .call early, .call early, .call early,
    .leave early, .drop early true, .lock (.retry late), .lock (.create late), .enter late true,
    .call late, .call late, .call late, .call late, .call late, .call late, .call late,
    .leave late, .drop late true]

private def atStart : Handles (Fin 2) := Guarded.start (World.blank, fun _ => Store.fresh 1)

private def bothCalled : Handles (Fin 2) :=
  (play (Guarded.fire (storeScheme CeRs.plain)) twoCalls atStart).getD atStart

private theorem bothCalled_reach :
    Reach (Guarded.fire (storeScheme CeRs.plain)) Guarded.Calm atStart bothCalled :=
  Guarded.reach_calm_of_play twoCalls (by simp [twoCalls]) (Nat.zero_le _) rfl

theorem mutations_serializable_twoCalls :
    ∃ done rest : List (Fin 2 × Request), bothCalled.order = done ++ rest ∧ rest.length ≤ 1 ∧
      done.length = (serialRun CeRs.plain (fun _ => Store.fresh 1) done World.blank).2.length ∧
      bothCalled.completed = List.zipWith (fun a r => (a.1, a.2, some r)) done
        (serialRun CeRs.plain (fun _ => Store.fresh 1) done World.blank).2 ∧
      ((∀ p, bothCalled.sections.inside p = none) →
        rest = [] ∧ bothCalled.sections.shared
          = (serialRun CeRs.plain (fun _ => Store.fresh 1) bothCalled.order World.blank).1) :=
  mutations_serializable CeRs.plain World.blank (fun _ => Store.fresh 1) bothCalled
    bothCalled_reach

end CeStorage
