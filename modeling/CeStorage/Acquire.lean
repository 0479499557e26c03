import CeStorage.Lock

/-!
# Whether `acquire` returns (`lock.rs`)

The loop of `FileLock::acquire` against every sequence of answers of the file
system. A pass that finds the lock file stale starts the next one at once, without
a look at the deadline and whatever the removal answered. So once the deadline has
passed the loop ends with the first pass that is not contended or finds the file not
stale, and not before (`acquire_ends_iff`): a stale lock file that cannot be removed
keeps it going forever (`stale_spins`).

`pass_events` connects a pass to the steps of the lock's protocol.
-/

namespace CeStorage

open Lib

namespace FileLock

/-! ## The loop -/

/-- What `create_new` answers. -/
inductive Created where
  | ok
  | alreadyExists
  | permissionDenied
  | other
  deriving DecidableEq

/-- The answers during one pass: of `create_new`, `is_stale` and `remove_file`, and
the time at which the deadline is looked at. Not every pass asks for all of them. -/
structure Pass where
  create : Created
  stale : Bool
  removed : Bool
  now : Nat

/-- Someone else has the lock, as far as `create_new` tells. -/
def Pass.Contended (o : Pass) : Prop := o.create = .alreadyExists ∨ o.create = .permissionDenied

instance (o : Pass) : Decidable o.Contended := inferInstanceAs (Decidable (_ ∨ _))

/-- One pass of the loop: what `acquire` returns, or `none` if it goes on. -/
def pass (path : String) (deadline : Nat) (o : Pass) : Option (Except String Unit) :=
  match o.create with
  | .ok => some (.ok ())
  | .alreadyExists | .permissionDenied =>
    -- the answer of the removal is dropped
    if o.stale then none
    else if deadline ≤ o.now then
      some (.error s!"timed out acquiring index lock {path} (held by another process)")
    else none
  | .other => some (.error s!"opening lock file {path}")

/-- At most `fuel` passes of the loop, from the `n`-th on. The sleep between two of them
lets time pass, and nothing else. -/
def acquireLoop (path : String) (deadline : Nat) (env : Nat → Pass) :
    Nat → Nat → Option (Except String Unit)
  | 0, _ => none
  | fuel + 1, n =>
    match pass path deadline (env n) with
    | some r => some r
    | none => acquireLoop path deadline env fuel (n + 1)

/-- `FileLock::acquire` at time `start`, for at most `fuel` passes; `dirOk` is the answer of
`create_dir_all`. -/
def acquire (target : String) (dirOk : Bool) (start : Nat) (env : Nat → Pass) (fuel : Nat) :
    Option (Except String Unit) :=
  if dirOk then acquireLoop (target ++ ".lock") (start + acquireTimeout) env fuel 0
  else some (.error "creating lock directory")

variable {path : String} {deadline : Nat} {env : Nat → Pass}

/-! ## When it ends -/

theorem pass_eq_none {o : Pass} :
    pass path deadline o = none ↔ o.Contended ∧ (o.now < deadline ∨ o.stale = true) := by
  obtain ⟨create, stale, removed, now⟩ := o
  cases create <;> cases stale <;> simp [pass, Pass.Contended]

/-- The loop goes on as long as every pass does. -/
theorem acquireLoop_eq_none {fuel n : Nat} :
    acquireLoop path deadline env fuel n = none ↔
      ∀ m < fuel, pass path deadline (env (n + m)) = none := by
  induction fuel generalizing n with
  | zero => simp [acquireLoop]
  | succ fuel ih =>
    rw [Nat.forall_lt_succ_left]
    unfold acquireLoop
    cases hpass : pass path deadline (env n) with
    | some r => simp
    | none =>
      simp only [ih, true_and]
      exact forall_congr' fun m => by rw [Nat.add_right_comm, Nat.add_assoc]

/-- Pass `n` is the first one that would find the deadline passed. -/
def Overdue (deadline : Nat) (env : Nat → Pass) (n : Nat) : Prop :=
  deadline ≤ (env n).now ∧ ∀ m < n, (env m).now < deadline

/-- A clock that goes on reaches every deadline. -/
theorem exists_overdue (hclock : StrictMono fun n => (env n).now) :
    ∃ n, Overdue deadline env n := by
  have hreached : ∃ n, deadline ≤ (env n).now := ⟨deadline, hclock.le_apply⟩
  exact ⟨Nat.find hreached, Nat.find_spec hreached, fun m hm =>
    Nat.lt_of_not_le (Nat.find_min hreached hm)⟩

/-- The loop has ended by pass `n`, the first one past the deadline, unless all passes so
far were contended and this one found the file stale. -/
theorem acquireLoop_overdue {n : Nat} (hn : Overdue deadline env n) :
    acquireLoop path deadline env (n + 1) 0 = none ↔
      (∀ m ≤ n, (env m).Contended) ∧ (env n).stale = true := by
  rw [acquireLoop_eq_none]
  constructor
  · intro hall
    refine ⟨fun m hm => ?_, ?_⟩
    · have hpass := pass_eq_none.mp (hall m (Nat.lt_succ_of_le hm))
      exact Nat.zero_add m ▸ hpass.1
    · have hpass := pass_eq_none.mp (hall n (Nat.lt_succ_self n))
      rw [Nat.zero_add] at hpass
      exact hpass.2.resolve_left (Nat.not_lt_of_le hn.1)
  · rintro ⟨hcontended, hstale⟩ m hm
    rw [Nat.zero_add]
    refine pass_eq_none.mpr ⟨hcontended m (Nat.le_of_lt_succ hm), ?_⟩
    rcases Nat.lt_succ_iff_lt_or_eq.mp hm with hlt | rfl
    · exact .inl (hn.2 m hlt)
    · exact .inr hstale

/-- The loop never ends if all passes are contended and all past the deadline find the
file stale. -/
theorem acquireLoop_forever : (∀ fuel, acquireLoop path deadline env fuel 0 = none) ↔
    ∀ n, (env n).Contended ∧ ((env n).now < deadline ∨ (env n).stale = true) := by
  constructor
  · intro hall n
    have hpass := acquireLoop_eq_none.mp (hall (n + 1)) n (Nat.lt_succ_self n)
    rw [Nat.zero_add] at hpass
    exact pass_eq_none.mp hpass
  · intro hall fuel
    rw [acquireLoop_eq_none]
    exact fun m _ => pass_eq_none.mpr (hall (0 + m))

/-- **With a clock that goes on there is a first pass past the deadline, and `acquire`
has returned by then exactly when one of the passes till then was not contended, or this
one did not find the file stale. It returns at all exactly when some pass is not
contended, or some pass past the deadline does not find the file stale.** -/
theorem acquire_ends_iff (target : String) (start : Nat) (env : Nat → Pass)
    (hclock : StrictMono fun n => (env n).now) :
    (∃ n, Overdue (start + acquireTimeout) env n ∧
      ((∃ r, acquire target true start env (n + 1) = some r) ↔
        (∃ m ≤ n, ¬ (env m).Contended) ∨ (env n).stale = false)) ∧
    ((∃ fuel r, acquire target true start env fuel = some r) ↔
      ∃ n, ¬ (env n).Contended ∨
        start + acquireTimeout ≤ (env n).now ∧ (env n).stale = false) := by
  obtain ⟨n, hn⟩ : ∃ n, Overdue (start + acquireTimeout) env n := exists_overdue hclock
  have hloop : ∀ fuel, acquire target true start env fuel
      = acquireLoop (target ++ ".lock") (start + acquireTimeout) env fuel 0 := fun _ => rfl
  refine ⟨⟨n, hn, ?_⟩, ?_⟩
  · rw [← Option.isSome_iff_exists, Option.isSome_iff_ne_none, hloop, ne_eq,
      acquireLoop_overdue hn, not_and_or, Bool.not_eq_true]
    refine or_congr_left ?_
    simp only [not_forall, exists_prop]
  · have hforever : (¬∀ fuel,
        acquireLoop (target ++ ".lock") (start + acquireTimeout) env fuel 0 = none) ↔ _ :=
      not_congr acquireLoop_forever
    simp only [not_forall, ← ne_eq, ← Option.isSome_iff_ne_none, Option.isSome_iff_exists]
      at hforever
    simp only [hloop, hforever, not_and_or, not_or, Nat.not_lt, Bool.not_eq_true]

/-- It finds the lock file stale in every pass, and cannot remove it. -/
def undeletable (n : Nat) : Pass :=
  { create := .alreadyExists, stale := true, removed := false, now := n }

/-- Past every deadline, it still goes on. -/
theorem stale_spins : (StrictMono fun n => (undeletable n).now) ∧
    ∀ fuel, acquire "index.json" true 0 undeletable fuel = none :=
  ⟨strictMono_id, acquireLoop_forever.mpr fun _ => ⟨.inl rfl, .inr rfl⟩⟩

/-- The lock of a live holder: contended, and never stale. -/
def heldByAnother (n : Nat) : Pass := { undeletable n with stale := false }

/-- The theorem there: it has timed out by the first pass past the deadline. -/
theorem acquire_ends_iff_held :
    ∃ n, Overdue acquireTimeout heldByAnother n ∧
      ∃ r, acquire "index.json" true 0 heldByAnother (n + 1) = some r := by
  obtain ⟨⟨n, hn, hends⟩, -⟩ := acquire_ends_iff "index.json" 0 heldByAnother strictMono_id
  rw [Nat.zero_add] at hn
  exact ⟨n, hn, hends.mpr (.inr rfl)⟩

/-! ## A pass, in the protocol -/

section
variable {P : Type} [DecidableEq P] {x : LockState P} {p : P}

/-- The answers of a pass are those of the lock file, which `is_stale` can read or not. -/
structure Pass.Of (x : LockState P) (readable : Bool) (o : Pass) : Prop where
  now : o.now = x.now
  stale : o.stale = x.isStale readable
  free : o.create = .ok → x.file = none
  taken : o.create = .alreadyExists → x.file ≠ none

/-- The steps of process `p` in a pass. -/
def passEvents (p : P) (readable : Bool) (o : Pass) : List (LockEvent P) :=
  let wait := [.stat p readable, if o.stale then .remove p o.removed else .retry p]
  match o.create with
  | .ok => [.create p, .stamp p true]
  | .alreadyExists => .create p :: wait
  | .permissionDenied => .deny p :: wait
  | .other => [.refuse p]

theorem goto_pc (x : LockState P) (p : P) (c : Pc) : (x.goto p c).pc p = c :=
  Function.update_self _ _ _

/-- Where a pass of `acquire` takes its process: around again, into the lock, or out. -/
def Pc.afterPass (deadline now : Nat) : Option (Except String Unit) → Pc
  | none => .trying deadline
  | some (.ok ()) => .held now
  | some (.error _) => .out

/-- The second part of a contended pass: the look at the age of the file, and what follows. -/
theorem contended_events {readable : Bool} {o : Pass} (hpc : x.pc p = .contended deadline)
    (ho : o.Of x readable) (hc : o.Contended) :
    ∃ x', play fire [.stat p readable, if o.stale then .remove p o.removed else .retry p] x
        = some x' ∧ x'.pc p = .afterPass deadline x.now (pass path deadline o) := by
  obtain ⟨create, stale, removed, now⟩ := o
  obtain ⟨rfl, rfl, -, -⟩ := ho
  have hpass : pass path deadline ⟨create, x.isStale readable, removed, x.now⟩
      = pass path deadline ⟨.alreadyExists, x.isStale readable, removed, x.now⟩ := by
    rcases hc with rfl | rfl <;> rfl
  rw [hpass]
  cases hstale : x.isStale readable with
  | true =>
    refine ⟨((x.goto p (.reclaiming deadline)).unlink removed).goto p (.trying deadline), ?_,
      goto_pc _ _ _⟩
    simp [play, fire, hpc, hstale, goto_pc]
  | false =>
    refine ⟨(x.goto p (.waiting deadline)).goto p
      (if deadline ≤ x.now then .out else .trying deadline), ?_, ?_⟩
    · simp only [play, fire, hpc, hstale, goto_pc, Option.bind_some, Bool.false_eq_true, if_false]
      rfl
    · rw [goto_pc]
      by_cases hpast : deadline ≤ x.now <;> simp [pass, hpast, Pc.afterPass]

/-- A pass that nothing comes between takes its process where `pass` says. -/
theorem pass_events {readable : Bool} {o : Pass} (hpc : x.pc p = .trying deadline)
    (ho : o.Of x readable) : ∃ x', play fire (passEvents p readable o) x = some x' ∧
      x'.pc p = .afterPass deadline x.now (pass path deadline o) := by
  -- after a contended `create_new` the file is as it was
  have hwait : o.Contended → ∃ x', play fire
      [.stat p readable, if o.stale then .remove p o.removed else .retry p]
        (x.goto p (.contended deadline)) = some x' ∧
      x'.pc p = .afterPass deadline x.now (pass path deadline o) :=
    contended_events (goto_pc x p _) ⟨ho.now, ho.stale, ho.free, ho.taken⟩
  unfold passEvents
  cases hcreate : o.create with
  | ok =>
    have hfile : x.file = none := ho.free hcreate
    refine ⟨(({ x.goto p (.opened x.now) with file := some ⟨x.now, p⟩ } : LockState P).touch p).goto
      p (.held x.now), ?_, ?_⟩
    · have hopened : (x.goto p (.opened x.now)).pc p = .opened x.now := goto_pc _ _ _
      simp [play, fire, hpc, hfile, hopened]
    · rw [goto_pc, pass, hcreate]
      rfl
  | alreadyExists =>
    obtain ⟨f, hfile⟩ := Option.ne_none_iff_exists'.mp (ho.taken hcreate)
    have hfire : fire (.create p) x = some (x.goto p (.contended deadline)) := by
      simp [fire, hpc, hfile]
    obtain ⟨x', hplay, hx'⟩ := hwait (.inl hcreate)
    refine ⟨x', ?_, hx'⟩
    show (fire (.create p) x).bind _ = some x'
    rw [hfire]
    exact hplay
  | permissionDenied =>
    have hfire : fire (.deny p) x = some (x.goto p (.contended deadline)) := by
      simp [fire, hpc]
    obtain ⟨x', hplay, hx'⟩ := hwait (.inr hcreate)
    refine ⟨x', ?_, hx'⟩
    show (fire (.deny p) x).bind _ = some x'
    rw [hfire]
    exact hplay
  | other =>
    refine ⟨x.goto p .out, ?_, ?_⟩
    · simp [play, fire, hpc]
    · rw [goto_pc, pass, hcreate]
      rfl

end

end FileLock

end CeStorage
