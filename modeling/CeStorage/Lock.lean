import CeStorage.Lib.Runs

/-!
# The index lock (`lock.rs`)

`FileLock::acquire` and `Drop`, as a step relation over any number of processes.
Each file-system call is one event: `create` (`create_new`), `stamp` (the write
of pid and time into the new file), `stat` (`is_stale`), `remove` (the reclaim
of a stale file) and `drop`. Between events time passes (`tick`) and processes
crash.

A reclaim removes whatever file it finds under the lock's path, which need not be
the one it found stale. While no reclaim is of the file of a process that still
holds the lock (`Harmless`), the file of every holder is there (`Owned`), so there
is one holder. In a timely run (`Fresh`) it is enough that the file is still stale
when it is removed (`Spares`). A reclaim that does not meet this makes its process
a second holder by its very next step (`reclaim_breaks`).
-/

namespace CeStorage

open Lib

namespace FileLock

/-- `ACQUIRE_TIMEOUT`, in milliseconds. -/
def acquireTimeout : Nat := 30000

/-- `STALE_AFTER`, in milliseconds. -/
def staleAfter : Nat := 120000

/-- Where a process is in `acquire`, or whether it holds the lock. -/
inductive Pc where
  /-- Not acquiring, not holding. -/
  | out
  /-- About to create the lock file. -/
  | trying (deadline : Nat)
  /-- The file was there; about to look at its age. -/
  | contended (deadline : Nat)
  /-- The file was stale; about to remove it. -/
  | reclaiming (deadline : Nat)
  /-- The file was not stale; about to look at the deadline. -/
  | waiting (deadline : Nat)
  /-- Created the file at `since`; about to write into it. -/
  | opened (since : Nat)
  /-- `acquire` has returned. -/
  | held (since : Nat)
  | dead
  deriving DecidableEq

/-- The process has created the lock file and not given it up. -/
def Pc.HoldsSince (t : Nat) : Pc → Prop
  | opened since | held since => since = t
  | _ => False

def Pc.Holds (c : Pc) : Prop := ∃ t, c.HoldsSince t

/-- The lock file: its modification time, and the process that created it. -/
structure LockFile (P : Type) where
  mtime : Nat
  owner : P
  deriving DecidableEq

structure LockState (P : Type) where
  now : Nat
  file : Option (LockFile P)
  pc : P → Pc

inductive LockEvent (P : Type) where
  | tick (d : Nat)
  /-- A call of `acquire`; `ok` is the answer of `create_dir_all`. -/
  | begin (p : P) (ok : Bool)
  /-- `create_new`: it succeeds, or the file already exists. -/
  | create (p : P)
  /-- `create_new` answers `PermissionDenied`. -/
  | deny (p : P)
  /-- `create_new` answers another error. -/
  | refuse (p : P)
  /-- The write into the new file. -/
  | stamp (p : P) (ok : Bool)
  /-- `is_stale`; `ok` is whether the modification time can be read. -/
  | stat (p : P) (ok : Bool)
  | remove (p : P) (ok : Bool)
  /-- The look at the deadline: give up, or try again. -/
  | retry (p : P)
  | drop (p : P) (ok : Bool)
  | crash (p : P)

variable {P : Type} {x x' : LockState P} {p q : P}

/-- The process whose step an event is. -/
def LockEvent.who : LockEvent P → Option P
  | tick _ => none
  | begin p _ | create p | deny p | refuse p | stamp p _ | stat p _ | remove p _ | retry p
  | drop p _ | crash p => some p

/-- The file is older than `STALE_AFTER`. -/
def LockFile.Stale (now : Nat) (f : LockFile P) : Prop := staleAfter < now - f.mtime

instance (now : Nat) (f : LockFile P) : Decidable (f.Stale now) :=
  inferInstanceAs (Decidable (staleAfter < now - f.mtime))

section
variable [DecidableEq P]

namespace LockState

def start (P : Type) : LockState P := { now := 0, file := none, pc := fun _ => .out }

/-- Process `p` goes on to `c`. -/
def goto (x : LockState P) (p : P) (c : Pc) : LockState P :=
  { x with pc := Function.update x.pc p c }

/-- The lock file is removed, if the call succeeds. -/
def unlink (x : LockState P) (ok : Bool) : LockState P := if ok then { x with file := none } else x

/-- A write by the process that created the file. -/
def touch (x : LockState P) (p : P) : LockState P :=
  { x with file := x.file.map fun f => if f.owner = p then { f with mtime := x.now } else f }

/-- `is_stale`: a file that is not there, or cannot be read, is not stale. -/
def isStale (x : LockState P) (ok : Bool) : Bool :=
  ok && x.file.any fun f => decide (f.Stale x.now)

end LockState

/-- What one event does; `none` when it cannot happen. -/
def fire : LockEvent P → LockState P → Option (LockState P)
  | .tick d, x => some { x with now := x.now + d }
  | .begin p ok, x =>
    match x.pc p with
    | .out => some (x.goto p (if ok then .trying (x.now + acquireTimeout) else .out))
    | _ => none
  -- one process makes the file; the others find it there
  | .create p, x =>
    match x.pc p, x.file with
    | .trying _, none => some { x.goto p (.opened x.now) with file := some ⟨x.now, p⟩ }
    | .trying d, some _ => some (x.goto p (.contended d))
    | _, _ => none
  | .deny p, x =>
    match x.pc p with
    | .trying d => some (x.goto p (.contended d))
    | _ => none
  | .refuse p, x =>
    match x.pc p with
    | .trying _ => some (x.goto p .out)
    | _ => none
  -- the result of the write is dropped: the lock is held either way
  | .stamp p ok, x =>
    match x.pc p with
    | .opened t => some ((if ok then x.touch p else x).goto p (.held t))
    | _ => none
  | .stat p ok, x =>
    match x.pc p with
    | .contended d => some (x.goto p (if x.isStale ok then .reclaiming d else .waiting d))
    | _ => none
  -- whatever file has the path by now goes, and the loop starts over
  | .remove p ok, x =>
    match x.pc p with
    | .reclaiming d => some ((x.unlink ok).goto p (.trying d))
    | _ => none
  -- the deadline is looked at only here, not after a reclaim
  | .retry p, x =>
    match x.pc p with
    | .waiting d => some (x.goto p (if d ≤ x.now then .out else .trying d))
    | _ => none
  -- again by path: the file need not be the one this process made
  | .drop p ok, x =>
    match x.pc p with
    | .held _ => some ((x.unlink ok).goto p .out)
    | _ => none
  | .crash p, x =>
    match x.pc p with
    | .dead => none
    | _ => some (x.goto p .dead)

/-- Everything an event can do: let time pass, move one process that does not
come to hold the lock by it, take the lock, write into the file, or remove
it. -/
inductive Step (x : LockState P) : LockEvent P → LockState P → Prop where
  | tick (d : Nat) : Step x (.tick d) { x with now := x.now + d }
  /-- A process comes to reclaim only a file that it found stale. -/
  | idle {e : LockEvent P} {p : P} {c : Pc} (he : e.who = some p) (hc : ¬c.Holds)
      (hs : ∀ d, c = .reclaiming d → ∃ ok, e = .stat p ok ∧ x.isStale ok = true) :
      Step x e (x.goto p c)
  | create {p : P} (hf : x.file = none) :
      Step x (.create p) { x.goto p (.opened x.now) with file := some ⟨x.now, p⟩ }
  | stamp {p : P} {t : Nat} (ok : Bool) (hpc : x.pc p = .opened t) :
      Step x (.stamp p ok) ((if ok then x.touch p else x).goto p (.held t))
  | remove {p : P} {d : Nat} (hpc : x.pc p = .reclaiming d) :
      Step x (.remove p true) ({ x with file := none }.goto p (.trying d))
  | drop {p : P} {t : Nat} (hpc : x.pc p = .held t) :
      Step x (.drop p true) ({ x with file := none }.goto p .out)

/-- A step to where a process neither holds the lock nor is about to reclaim. -/
theorem Step.rest {e : LockEvent P} {c : Pc} (he : e.who = some p) (hc : ¬c.Holds)
    (hs : ∀ d, c ≠ .reclaiming d) : Step x e (x.goto p c) :=
  .idle he hc fun d hd => absurd hd (hs d)

theorem not_holds_out : ¬Pc.out.Holds := fun ⟨_, h⟩ => h

theorem not_holds_trying (d : Nat) : ¬(Pc.trying d).Holds := fun ⟨_, h⟩ => h

theorem not_holds_contended (d : Nat) : ¬(Pc.contended d).Holds := fun ⟨_, h⟩ => h

/-- Every event that can happen is one of these steps. -/
theorem fire_step {e : LockEvent P} (h : fire e x = some x') : Step x e x' := by
  cases e with
  | tick d =>
    cases h
    exact .tick d
  | begin p ok =>
    simp only [fire] at h
    split at h
    · cases h
      cases ok with
      | true => exact .rest rfl (not_holds_trying _) nofun
      | false => exact .rest rfl not_holds_out nofun
    · exact nomatch h
  | create p =>
    simp only [fire] at h
    split at h
    next hf =>
      cases h
      exact .create hf
    next =>
      cases h
      exact .rest rfl (not_holds_contended _) nofun
    · exact nomatch h
  | deny p =>
    simp only [fire] at h
    split at h
    · cases h
      exact .rest rfl (not_holds_contended _) nofun
    · exact nomatch h
  | refuse p =>
    simp only [fire] at h
    split at h
    · cases h
      exact .rest rfl not_holds_out nofun
    · exact nomatch h
  | stamp p ok =>
    simp only [fire] at h
    split at h
    next t ht =>
      cases h
      exact .stamp ok ht
    · exact nomatch h
  | stat p ok =>
    simp only [fire] at h
    split at h
    · cases h
      by_cases hs : x.isStale ok = true
      · rw [if_pos hs]
        exact .idle rfl (fun ⟨_, h⟩ => h) fun _ _ => ⟨ok, rfl, hs⟩
      · rw [if_neg hs]
        exact .rest rfl (fun ⟨_, h⟩ => h) nofun
    · exact nomatch h
  | remove p ok =>
    simp only [fire] at h
    split at h
    next d hd =>
      cases h
      cases ok with
      | true => exact .remove hd
      | false => exact .rest rfl (not_holds_trying d) nofun
    · exact nomatch h
  | retry p =>
    simp only [fire] at h
    split at h
    next d _ =>
      cases h
      by_cases hd : d ≤ x.now
      · rw [if_pos hd]
        exact .rest rfl not_holds_out nofun
      · rw [if_neg hd]
        exact .rest rfl (not_holds_trying d) nofun
    · exact nomatch h
  | drop p ok =>
    simp only [fire] at h
    split at h
    next t ht =>
      cases h
      cases ok with
      | true => exact .drop ht
      | false => exact .rest rfl not_holds_out nofun
    · exact nomatch h
  | crash p =>
    simp only [fire] at h
    split at h
    · exact nomatch h
    · cases h
      exact .rest rfl (fun ⟨_, h⟩ => h) nofun

end

/-! ## Who moves -/

section
variable [DecidableEq P]

/-- An event moves the process whose step it is, and no other. -/
theorem fire_pc {e : LockEvent P} (h : fire e x = some x') (he : e.who ≠ some p) :
    x'.pc p = x.pc p := by
  have other : ∀ (q : P) (c : Pc) (y : LockState P), y.pc = x.pc → some q ≠ some p →
      (y.goto q c).pc p = x.pc p := by
    intro q c y hy hq
    rw [← hy]
    exact Function.update_of_ne (fun hp => hq (congrArg some hp.symm)) _ _
  cases fire_step h with
  | tick d => rfl
  | idle hq => exact other _ _ x rfl (hq ▸ he)
  | create => exact other _ _ x rfl he
  | stamp ok => exact other _ _ _ (by cases ok <;> rfl) he
  | remove => exact other _ _ _ rfl he
  | drop => exact other _ _ _ rfl he

/-- Time passes by itself only. -/
theorem fire_now {e : LockEvent P} (h : fire e x = some x') (he : ∀ d, e ≠ .tick d) :
    x'.now = x.now := by
  cases fire_step h with
  | tick d => exact absurd rfl (he d)
  | stamp ok => cases ok <;> rfl
  | idle | create | remove | drop => rfl

/-- A process that has the lock can only drop it or crash. -/
theorem fire_held {e : LockEvent P} {t : Nat} (h : fire e x = some x') (he : e.who = some p)
    (hp : x.pc p = .held t) : (∃ ok, e = .drop p ok) ∨ e = .crash p := by
  cases e with
  | tick d => exact nomatch he
  | drop q ok =>
    cases he
    exact .inl ⟨ok, rfl⟩
  | crash q =>
    cases he
    exact .inr rfl
  | begin q ok | create q | deny q | refuse q | stamp q ok | stat q ok | remove q ok | retry q =>
    cases he
    simp only [fire, hp] at h
    exact nomatch h

/-- A process comes to reclaim only a file that it found stale. -/
theorem fire_reclaiming {e : LockEvent P} {d : Nat} (h : fire e x = some x')
    (hp : x'.pc p = .reclaiming d) :
    x.pc p = .reclaiming d ∨ ∃ ok, e = .stat p ok ∧ x.isStale ok = true := by
  by_cases he : e.who = some p
  · have self : ∀ (c : Pc) (y : LockState P), (y.goto p c).pc p = c :=
      fun c y => Function.update_self _ _ _
    cases fire_step h with
    | tick d => exact nomatch he
    | idle hq hc hs =>
      cases hq.symm.trans he
      exact .inr (hs d ((self _ x).symm.trans hp))
    | create =>
      cases he
      exact nomatch (self _ x).symm.trans hp
    | stamp | remove | drop =>
      cases he
      exact nomatch (self _ _).symm.trans hp
  · rw [fire_pc h he] at hp
    exact .inl hp

end

/-! ## Exclusion -/

/-- The lock file of every holder is there. -/
def Owned (x : LockState P) : Prop :=
  ∀ p, (x.pc p).Holds → ∃ f, x.file = some f ∧ f.owner = p

/-- A reclaim does not remove the file of a process that holds the lock. -/
def Harmless (x : LockState P) : LockEvent P → Prop
  | .remove _ true => ∀ f, x.file = some f → ¬(x.pc f.owner).Holds
  | _ => True

theorem start_owned : Owned (LockState.start P) := by
  rintro p ⟨t, ht⟩
  exact ht.elim

/-- There is one lock file, so there is one holder. -/
theorem Owned.unique (h : Owned x) (hp : (x.pc p).Holds) (hq : (x.pc q).Holds) : p = q := by
  obtain ⟨f, hf, rfl⟩ := h p hp
  obtain ⟨g, hg, rfl⟩ := h q hq
  cases hf.symm.trans hg
  rfl

section
variable [DecidableEq P]

theorem holdsSince_goto {c : Pc} {t : Nat} (h : ((x.goto p c).pc q).HoldsSince t) :
    (q = p ∧ c.HoldsSince t) ∨ (q ≠ p ∧ (x.pc q).HoldsSince t) := by
  unfold LockState.goto at h
  dsimp only at h
  by_cases hqp : q = p
  · subst hqp
    rw [Function.update_self] at h
    exact .inl ⟨rfl, h⟩
  · rw [Function.update_of_ne hqp] at h
    exact .inr ⟨hqp, h⟩

/-- A process that does not hold the lock afterwards makes nobody hold it. -/
theorem holdsSince_of_idle {c : Pc} {t : Nat} (hc : ¬c.Holds)
    (h : ((x.goto p c).pc q).HoldsSince t) : q ≠ p ∧ (x.pc q).HoldsSince t := by
  rcases holdsSince_goto h with ⟨-, h⟩ | h
  · exact absurd ⟨t, h⟩ hc
  · exact h

/-- A write into the file changes neither its owner nor that it is there. -/
theorem touch_file {f : LockFile P} (hf : x.file = some f) (r : P) :
    (x.touch r).file = some (if f.owner = r then { f with mtime := x.now } else f) := by
  unfold LockState.touch
  rw [hf]
  rfl

theorem touch_file_none (hf : x.file = none) (r : P) : (x.touch r).file = none := by
  unfold LockState.touch
  rw [hf]
  rfl

/-- While no reclaim removes the file of a holder, every holder's file stays. -/
theorem fire_owned {e : LockEvent P} (hI : Owned x) (hs : Harmless x e)
    (hfire : fire e x = some x') : Owned x' := by
  cases fire_step hfire with
  | tick d => exact hI
  | idle _ hc =>
    -- the holders are as before, and so is the file
    rintro q ⟨u, hu⟩
    exact hI q ⟨u, (holdsSince_of_idle hc hu).2⟩
  | create hnone =>
    -- whoever held the lock before would have its file there
    rintro q ⟨u, hu⟩
    rcases holdsSince_goto hu with ⟨rfl, -⟩ | ⟨-, hu⟩
    · exact ⟨_, rfl, rfl⟩
    · obtain ⟨f, hf, -⟩ := hI q ⟨u, hu⟩
      exact nomatch hnone.symm.trans hf
  | @stamp p t ok hpc =>
    -- a write into the file leaves it its owner
    rintro q ⟨u, hu⟩
    have hq : (x.pc q).Holds := by
      rcases holdsSince_goto hu with ⟨rfl, -⟩ | ⟨-, hu⟩
      · exact ⟨t, by rw [hpc]; rfl⟩
      · exact ⟨u, by cases ok <;> exact hu⟩
    obtain ⟨f, hf, howner⟩ := hI q hq
    cases ok with
    | false => exact ⟨f, hf, howner⟩
    | true =>
      refine ⟨_, touch_file hf p, ?_⟩
      split
      · exact howner
      · exact howner
  | remove hpc =>
    -- the file it removes is no holder's
    rintro q ⟨u, hu⟩
    rcases holdsSince_goto hu with ⟨-, hu⟩ | ⟨-, hu⟩
    · exact hu.elim
    · obtain ⟨f, hf, rfl⟩ := hI q ⟨u, hu⟩
      exact absurd ⟨u, hu⟩ (hs f hf)
  | @drop p t hpc =>
    -- the process that drops was the one holder
    rintro q ⟨u, hu⟩
    rcases holdsSince_goto hu with ⟨-, hu⟩ | ⟨hqp, hu⟩
    · exact hu.elim
    · have hp : (x.pc p).Holds := ⟨t, by rw [hpc]; rfl⟩
      exact absurd (hI.unique ⟨u, hu⟩ hp) hqp

end

/-! ## Time -/

/-- A process that does not crash drops its lock within `STALE_AFTER` of creating
it: time does not pass that limit while it holds the lock. -/
def Timely (x : LockState P) : LockEvent P → Prop
  | .tick d => ∀ p t, (x.pc p).HoldsSince t → x.now + d ≤ t + staleAfter
  | _ => True

/-- Nobody has held the lock for longer than `STALE_AFTER`, and no holder's file
was modified before it was created. -/
structure Fresh (x : LockState P) : Prop where
  past : ∀ p t, (x.pc p).HoldsSince t → t ≤ x.now
  recent : ∀ p t, (x.pc p).HoldsSince t → x.now ≤ t + staleAfter
  mtime : ∀ f t, x.file = some f → (x.pc f.owner).HoldsSince t → t ≤ f.mtime

theorem start_fresh : Fresh (LockState.start P) where
  past _ _ h := h.elim
  recent _ _ h := h.elim
  mtime _ _ h := nomatch h

/-- The file of a live holder is not stale. -/
theorem Fresh.not_stale (h : Fresh x) {f : LockFile P} (hf : x.file = some f)
    (hh : (x.pc f.owner).Holds) : ¬f.Stale x.now := by
  obtain ⟨t, ht⟩ := hh
  have hnow := h.recent _ t ht
  have hmtime := h.mtime f t hf ht
  unfold LockFile.Stale
  omega

/-- A step at which nobody comes to hold the lock. -/
theorem Fresh.keep (h : Fresh x) (hnow : x'.now = x.now)
    (hback : ∀ q t, (x'.pc q).HoldsSince t → (x.pc q).HoldsSince t)
    (hmtime : ∀ f t, x'.file = some f → (x.pc f.owner).HoldsSince t → t ≤ f.mtime) :
    Fresh x' := by
  refine ⟨?_, ?_, ?_⟩
  · intro q t hq
    rw [hnow]
    exact h.past q t (hback q t hq)
  · intro q t hq
    rw [hnow]
    exact h.recent q t (hback q t hq)
  · intro f t hfile hq
    exact hmtime f t hfile (hback _ t hq)

section
variable [DecidableEq P]

theorem holdsSince_back {c : Pc} (hc : ∀ t, c.HoldsSince t → (x.pc p).HoldsSince t) (q : P)
    (t : Nat) (h : ((x.goto p c).pc q).HoldsSince t) : (x.pc q).HoldsSince t := by
  rcases holdsSince_goto h with ⟨rfl, hq⟩ | ⟨-, hq⟩
  · exact hc t hq
  · exact hq

/-- A write into the file makes it no older than its owner's time. -/
theorem touch_mtime (h : Fresh x) (p : P) {f : LockFile P} {t : Nat}
    (hfile : (x.touch p).file = some f) (hf : (x.pc f.owner).HoldsSince t) : t ≤ f.mtime := by
  cases hx : x.file with
  | none => exact nomatch (touch_file_none hx p).symm.trans hfile
  | some g =>
    cases (touch_file hx p).symm.trans hfile
    by_cases hg : g.owner = p
    · rw [if_pos hg] at hf ⊢
      exact h.past _ t hf
    · rw [if_neg hg] at hf ⊢
      exact h.mtime g t hx hf

/-- A new file is created and modified now. -/
theorem create_fresh (h : Fresh x) (p : P) :
    Fresh { x.goto p (.opened x.now) with file := some ⟨x.now, p⟩ } := by
  refine ⟨?_, ?_, ?_⟩
  · intro q t hq
    rcases holdsSince_goto hq with ⟨-, hq⟩ | ⟨-, hq⟩
    · exact Nat.le_of_eq hq.symm
    · exact h.past q t hq
  · intro q t hq
    rcases holdsSince_goto hq with ⟨-, hq⟩ | ⟨-, hq⟩
    · have hnow : x.now = t := hq
      show x.now ≤ t + staleAfter
      omega
    · exact h.recent q t hq
  · intro f t hfile hq
    cases hfile
    rcases holdsSince_goto hq with ⟨-, hq⟩ | ⟨hne, -⟩
    · exact Nat.le_of_eq hq.symm
    · exact absurd rfl hne

/-- The file is modified now, its owner's time stays. -/
theorem stamp_fresh (h : Fresh x) {t : Nat} (ok : Bool) (hpc : x.pc p = .opened t) :
    Fresh ((if ok then x.touch p else x).goto p (.held t)) := by
  have hopened : ∀ u, (Pc.held t).HoldsSince u → (x.pc p).HoldsSince u := by
    intro u hu
    rw [hpc]
    exact hu
  cases ok with
  | false => exact h.keep rfl (holdsSince_back hopened) h.mtime
  | true => exact h.keep rfl (holdsSince_back (x := x) hopened) fun f u => touch_mtime h p

theorem fire_fresh {e : LockEvent P} (hI : Fresh x) (ht : Timely x e)
    (hfire : fire e x = some x') : Fresh x' := by
  cases fire_step hfire with
  | tick d =>
    -- time passes, within the limit of every holder
    refine ⟨?_, ht, hI.mtime⟩
    intro p t h
    have hpast := hI.past p t h
    show t ≤ x.now + d
    omega
  | @idle e p c _ hc =>
    exact hI.keep rfl (holdsSince_back fun t h => absurd ⟨t, h⟩ hc) hI.mtime
  | @create p => exact create_fresh hI p
  | stamp ok hpc => exact stamp_fresh hI ok hpc
  | remove =>
    -- a reclaim leaves no file behind
    exact hI.keep rfl (holdsSince_back (x := x) fun t h => h.elim) fun f u hfile _ => nomatch hfile
  | drop =>
    exact hI.keep rfl (holdsSince_back (x := x) fun t h => h.elim) fun f u hfile _ => nomatch hfile

end

/-! ## Reclaims -/

/-- At most one process holds the lock. -/
def Exclusive (x : LockState P) : Prop := ∀ p q, (x.pc p).Holds → (x.pc q).Holds → p = q

/-- A reclaim that removes a lock file finds one that is still stale, or whose
creator holds the lock no more. -/
def Spares (x : LockState P) : LockEvent P → Prop
  | .remove _ true => ∀ f, x.file = some f → f.Stale x.now ∨ ¬(x.pc f.owner).Holds
  | _ => True

/-- In a timely run, sparing live files is sparing files that are not stale. -/
theorem Fresh.harmless (hI : Fresh x) {e : LockEvent P} (h : Spares x e) : Harmless x e := by
  cases e with
  | remove p ok =>
    cases ok with
    | true =>
      intro f hf hh
      rcases h f hf with hst | hn
      · exact hI.not_stale hf hh hst
      · exact hn hh
    | false => trivial
  | _ => trivial

section
variable [DecidableEq P]

/-- Without the file of a live holder removed under it, the lock is exclusive. -/
theorem exclusive_of_harmless (hx : Reach fire Harmless (LockState.start P) x) :
    Exclusive x := by
  have howned : Owned x := hx.inv start_owned fun _ _ _ _ hI hok hf => fire_owned hI hok hf
  exact fun p q hp hq => howned.unique hp hq

theorem fire_create {d : Nat} (hpc : x.pc p = .trying d) (hf : x.file = none) :
    fire (.create p) x = some { x.goto p (.opened x.now) with file := some ⟨x.now, p⟩ } := by
  simp only [fire, hpc, hf]

/-- After a reclaim of a live holder's file, the reclaimer's next step makes it a
second holder. -/
theorem reclaim_breaks (hfire : fire (.remove p true) x = some x')
    (h : ¬Spares x (.remove p true)) :
    ∃ x'' q, fire (.create p) x' = some x'' ∧ q ≠ p ∧ (x''.pc p).Holds ∧ (x''.pc q).Holds := by
  simp only [Spares, not_forall, not_or, not_not] at h
  obtain ⟨f, -, -, hholds⟩ := h
  simp only [fire] at hfire
  split at hfire
  next d hpc =>
    cases hfire
    -- a process that reclaims does not hold the lock
    have hne : f.owner ≠ p := by
      intro heq
      rw [heq, hpc] at hholds
      obtain ⟨t, ht⟩ := hholds
      exact ht.elim
    have hpc' : ((x.unlink true).goto p (.trying d)).pc p = .trying d :=
      Function.update_self _ _ _
    -- the file is gone, so `create_new` succeeds
    refine ⟨_, f.owner, fire_create hpc' rfl, hne, ⟨x.now, ?_⟩, ?_⟩
    · simp only [LockState.goto, Function.update_self]
      rfl
    · simp only [LockState.goto, Function.update_of_ne hne]
      exact hholds
  next => exact nomatch hfire

/-- **Exclusion under crash recovery.** A timely run in which every reclaim finds
the file still stale, or left by a process that holds the lock no more, has at
most one holder at any time; and a reclaim that finds another file makes a
second one. -/
theorem exclusive_of_spares (x : LockState P)
    (hx : Reach fire (fun x e => Timely x e ∧ Spares x e) (LockState.start P) x) :
    Exclusive x ∧ ∀ p x', fire (.remove p true) x = some x' → ¬Spares x (.remove p true) →
      ∃ x'' q, fire (.create p) x' = some x'' ∧ q ≠ p ∧ (x''.pc p).Holds ∧
        (x''.pc q).Holds := by
  have hboth : Owned x ∧ Fresh x := by
    refine hx.inv (I := fun y => Owned y ∧ Fresh y) ⟨start_owned, start_fresh⟩
      fun y e y' _ hI hok hf => ?_
    exact ⟨fire_owned hI.1 (hI.2.harmless hok.2) hf, fire_fresh hI.2 hok.1 hf⟩
  exact ⟨fun p q hp hq => hboth.1.unique hp hq, fun p x' hf h => reclaim_breaks hf h⟩

end

/-! A process crashes while it holds the lock. Two others find the file stale;
the first reclaims it and takes the lock, and the second then removes the first
one's file and takes the lock too. -/

private def crashing : List (LockEvent (Fin 3)) := [.begin 0 true, .create 0, .crash 0]

private def racing : List (LockEvent (Fin 3)) :=
  [.begin 1 true, .create 1, .stat 1 true, .begin 2 true, .create 2, .stat 2 true,
    .remove 1 true, .create 1, .remove 2 true, .create 2]

private def afterCrash : LockState (Fin 3) :=
  (play fire crashing (LockState.start (Fin 3))).getD (LockState.start (Fin 3))

private def onceStale : LockState (Fin 3) := { afterCrash with now := staleAfter + 1 }

private def afterRace : LockState (Fin 3) := (play fire racing onceStale).getD onceStale

private theorem tick_timely : Timely afterCrash (.tick (staleAfter + 1)) := by
  intro p t h
  match p, h with
  | 0, h => exact h.elim
  | 1, h => exact h.elim
  | 2, h => exact h.elim

private theorem race_reach : Reach fire Timely (LockState.start (Fin 3)) afterRace := by
  have hcrash : Reach fire Timely (LockState.start (Fin 3)) afterCrash :=
    reach_of_play crashing (along_of_forall _ _ (by simp [crashing, Timely])) rfl
  have hstale : Reach fire Timely (LockState.start (Fin 3)) onceStale :=
    .next hcrash tick_timely rfl
  exact hstale.trans (reach_of_play racing (along_of_forall _ _ (by simp [racing, Timely])) rfl)

theorem reclaim_race_two_holders :
    ¬ ∀ (P : Type) [DecidableEq P] (x : LockState P), Reach fire Timely (LockState.start P) x →
      Exclusive x := by
  intro h
  have heq := h (Fin 3) afterRace race_reach 1 2 ⟨staleAfter + 1, rfl⟩ ⟨staleAfter + 1, rfl⟩
  exact absurd heq (by decide)

/-! After the same crash one process finds the file stale, removes it while it
still is, and takes the lock. -/

private def noticing : List (LockEvent (Fin 3)) := [.begin 1 true, .create 1, .stat 1 true]

private def taking : List (LockEvent (Fin 3)) := [.create 1, .stamp 1 true]

private def beforeReclaim : LockState (Fin 3) := (play fire noticing onceStale).getD onceStale

private def afterReclaim : LockState (Fin 3) :=
  (play fire (.remove 1 true :: taking) beforeReclaim).getD onceStale

private theorem reclaim_reach :
    Reach fire (fun x e => Timely x e ∧ Spares x e) (LockState.start (Fin 3)) afterReclaim := by
  have hcrash : Reach fire (fun x e => Timely x e ∧ Spares x e) (LockState.start (Fin 3))
      afterCrash :=
    reach_of_play crashing (along_of_forall _ _ (by simp [crashing, Timely, Spares])) rfl
  have hstale : Reach fire (fun x e => Timely x e ∧ Spares x e) (LockState.start (Fin 3))
      onceStale :=
    .next (e := .tick (staleAfter + 1)) hcrash ⟨tick_timely, trivial⟩ rfl
  have hbefore : Reach fire (fun x e => Timely x e ∧ Spares x e) (LockState.start (Fin 3))
      beforeReclaim :=
    hstale.trans (reach_of_play noticing
      (along_of_forall _ _ (by simp [noticing, Timely, Spares])) rfl)
  have hlast : Along fire (fun x e => Timely x e ∧ Spares x e) (.remove 1 true :: taking)
      beforeReclaim := by
    refine ⟨⟨trivial, ?_⟩, fun s _ => along_of_forall _ _ (by simp [taking, Timely, Spares])⟩
    intro f hf
    cases hf
    exact .inl (by decide)
  exact hbefore.trans (reach_of_play _ hlast rfl)

theorem exclusive_of_spares_reclaim : Exclusive afterReclaim ∧
    ∀ p x', fire (.remove p true) afterReclaim = some x' →
      ¬Spares afterReclaim (.remove p true) →
      ∃ x'' q, fire (.create p) x' = some x'' ∧ q ≠ p ∧ (x''.pc p).Holds ∧ (x''.pc q).Holds :=
  exclusive_of_spares afterReclaim reclaim_reach

end FileLock

end CeStorage
