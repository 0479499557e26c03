import CeStorage.Replicated.Steps

/-!
# Records that a save loses

`Saved` is what the handles have written for good: the CID of the last `put_object` of a key
that returned `Ok`, and the last policy that was set for a bucket. The replica index file is
`UpToDate` if it has all of it.

A handle loads the replica index when it is opened and writes the whole of it at the end of
every operation. So what another handle has saved in between is lost: where every save
succeeds, a run keeps the file up to date exactly when no handle saves after another one has
saved something that it has not seen (`upToDate_iff`). It does when no two handles are open
at a time (`upToDate_of_alone`).
-/

namespace CeStorage

open Lib

/-- What was written for good. -/
structure Saved where
  /-- The CID of the last put of a key. -/
  records : String → String → Option String
  policies : String → Option BucketPolicy

namespace Saved

def none : Saved := { records := fun _ _ => Option.none, policies := fun _ => Option.none }

def put (s : Saved) (bucket key cid : String) : Saved :=
  { s with records := fun b k => if bucket = b ∧ key = k then some cid else s.records b k }

def setPolicy (s : Saved) (bucket : String) (policy : BucketPolicy) : Saved :=
  { s with policies := fun b => if bucket = b then some policy else s.policies b }

end Saved

/-- What is saved after an event. -/
def Saved.note {P : Type} (ce : CeRs) (e : NodeEvent P) (x : Node P) (s : Saved) : Saved :=
  match e with
  | .save p true =>
    match x.handles p with
    | some (_, .putSave a _) => s.put a.bucket a.key a.cid
    | _ => s
  | .setPolicy p bucket factor true =>
    match x.handles p with
    | some (_, .idle) => s.setPolicy bucket (.withFactor factor)
    | _ => s
  | .makeBucket p bucket (some factor) env true =>
    match x.handles p with
    | some (self, .idle) =>
      if x.Makes ce self bucket env then s.setPolicy bucket (.withFactor factor) else s
    | _ => s
  | _ => s

/-- What was saved, and what of it each handle has seen: what there was when it was opened,
and what it has saved itself since. -/
structure History (P : Type) where
  saved : Saved
  seen : P → Saved

namespace History

variable {P : Type}

def none : History P := { saved := .none, seen := fun _ => .none }

def note [DecidableEq P] (ce : CeRs) (e : NodeEvent P) (x : Node P) (g : History P) : History P :=
  match e with
  | .open p _ _ _ => { g with seen := Function.update g.seen p g.saved }
  | .makeBucket p _ _ _ _ | .setPolicy p _ _ _ | .save p _ =>
    { saved := g.saved.note ce e x
      seen := Function.update g.seen p ((g.seen p).note ce e x) }
  | _ => g

end History

/-! ## The property, and the condition -/

/-- The index has what was saved, the records of `key` and the policies of `bucket` apart. -/
structure ReplicaIndex.UpToDate (s : Saved) (key : String → String → Prop) (bucket : String → Prop)
    (i : ReplicaIndex) : Prop where
  records : ∀ b k cid, ¬key b k → s.records b k = some cid →
    (i.getRecord b k).map (·.cid) = some cid
  policies : ∀ b policy, ¬bucket b → s.policies b = some policy → i.policies[b]? = some policy

abbrev ReplicaIndex.Current (s : Saved) (i : ReplicaIndex) : Prop :=
  i.UpToDate s (fun _ _ => False) fun _ => False

/-- The replica index file has everything that was saved. -/
def Node.UpToDate {P : Type} (x : Node P) (s : Saved) : Prop :=
  (ReplicaIndex.loadFrom x.replicas).Current s

/-- What was saved was seen, the records of `key` and the policies of `bucket` apart. -/
structure Saved.SeenIn (s seen : Saved) (key : String → String → Prop) (bucket : String → Prop) :
    Prop where
  records : ∀ b k cid, ¬key b k → s.records b k = some cid → seen.records b k = some cid
  policies : ∀ b policy, ¬bucket b → s.policies b = some policy → seen.policies b = some policy

/-- Where the event writes a replica index over the file, `C` holds of the handle that does,
with the key that it puts and the bucket whose policy it sets. -/
def Node.AtWrite {P : Type} (ce : CeRs) (x : Node P) (e : NodeEvent P)
    (C : P → ReplicatedStore → (String → String → Prop) → (String → Prop) → Prop) : Prop :=
  match e with
  | .save p true =>
    match x.handles p with
    | some (self, .putSave a _) => C p self (fun b k => a.bucket = b ∧ a.key = k) fun _ => False
    | some (self, .maintainSave _) => C p self (fun _ _ => False) fun _ => False
    | _ => True
  | .setPolicy p bucket _ true =>
    match x.handles p with
    | some (self, .idle) => C p self (fun _ _ => False) (bucket = ·)
    | _ => True
  | .makeBucket p bucket (some _) env true =>
    match x.handles p with
    | some (self, .idle) =>
      x.Makes ce self bucket env → C p self (fun _ _ => False) (bucket = ·)
    | _ => True
  | _ => True

/-- A handle that writes its index has seen everything that was saved, but for what the
operation itself writes. -/
def Node.Undisturbed {P : Type} (ce : CeRs) (x : Node P × History P) (e : NodeEvent P) : Prop :=
  x.1.AtWrite ce e fun p _ key bucket => x.2.saved.SeenIn (x.2.seen p) key bucket

/-- The save that the event makes, if it makes one, succeeds. -/
def NodeEvent.Saves {P : Type} : NodeEvent P → Prop
  | .makeBucket _ _ _ _ saved | .setPolicy _ _ _ saved | .save _ saved => saved = true
  | _ => True

instance {P : Type} (e : NodeEvent P) : Decidable e.Saves :=
  match e with
  | .makeBucket _ _ _ _ saved | .setPolicy _ _ _ saved | .save _ saved =>
    inferInstanceAs (Decidable (saved = true))
  | .core .. | .open .. | .close _ | .put .. | .maintain _ | .resume .. =>
    inferInstanceAs (Decidable True)

/-! ## One step -/

variable {s : Saved} {i : ReplicaIndex} {bucket key cid : String} {policy : BucketPolicy}

/-- Writing an index that has the record of the put. -/
theorem ReplicaIndex.current_put (h : (i.getRecord bucket key).map (·.cid) = some cid) :
    i.Current (s.put bucket key cid)
      ↔ i.UpToDate s (fun b k => bucket = b ∧ key = k) fun _ => False := by
  constructor
  · intro hi
    refine ⟨fun b k c hne hc => hi.records b k c not_false ?_, hi.policies⟩
    exact (if_neg hne).trans hc
  · intro hi
    refine ⟨fun b k c _ hc => ?_, hi.policies⟩
    dsimp only [Saved.put] at hc
    split at hc
    next hbk =>
      cases hc
      rw [← hbk.1, ← hbk.2, h]
    next hne => exact hi.records b k c hne hc

/-- Writing an index with the policy set. -/
theorem ReplicaIndex.current_setPolicy :
    (i.setPolicy bucket policy).Current (s.setPolicy bucket policy)
      ↔ i.UpToDate s (fun _ _ => False) (bucket = ·) := by
  constructor
  · intro hi
    refine ⟨hi.records, fun b pol hne hp => ?_⟩
    have := hi.policies b pol not_false ((if_neg hne).trans hp)
    rwa [policies_setPolicy, if_neg hne] at this
  · intro hi
    refine ⟨hi.records, fun b pol _ hp => ?_⟩
    rw [policies_setPolicy]
    dsimp only [Saved.setPolicy] at hp
    split at hp
    next hb => rw [if_pos hb, hp]
    next hb =>
      rw [if_neg hb]
      exact hi.policies b pol hb hp

/-- The record of a put is in the index that is about to be saved. -/
def Recorded (h : ReplicatedStore × Task) : Prop :=
  ∀ a hosts, h.2 = .putSave a hosts →
    (h.1.index.getRecord a.bucket a.key).map (·.cid) = some a.cid

section
variable {P : Type} [DecidableEq P] {ce : CeRs} {repairPlan : RepairPlanner} {x x' : Node P}

theorem resumed_recorded {self : ReplicatedStore} {w : Wait} {task : Task}
    {h : ReplicatedStore × Task} (hr : Resumed repairPlan self w task h) : Recorded h := by
  cases hr with
  | on _ _ _ _ hsave _ => exact fun a hosts ha => absurd ha (hsave a hosts)
  | @bind a expiryHeight _ _ =>
    rintro _ _ ⟨⟩
    rw [getRecord_bindRecord, if_pos ⟨rfl, rfl⟩]
    rfl
  | @back pass pass' a _ _ _ _ =>
    intro b hosts hb
    unfold ReplicatedStore.writeBack at hb
    split at hb
    · exact nomatch hb
    · split at hb <;> exact nomatch hb

theorem fire_recorded {e : NodeEvent P} (hx : ∀ p h, x.handles p = some h → Recorded h)
    (hf : Node.fire ce repairPlan e x = some x') : ∀ p h, x'.handles p = some h → Recorded h := by
  refine Node.fire_handles ?_ (fun _ _ _ _ _ => resumed_recorded) hx hf
  rintro self task ht a hosts rfl
  exact ht.elim

omit [DecidableEq P] in
/-- A `make_bucket` that sets no policy. -/
theorem note_makeBucket_of_not {p : P} {self : ReplicatedStore} {b : String} {factor : Option Nat}
    {env : Env} {saved : Bool} (hp : x.handles p = some (self, .idle))
    (hno : ∀ f, factor = some f → ¬x.Makes ce self b env) :
    s.note ce (.makeBucket p b factor env saved) x = s := by
  rcases factor with _ | f
  · rfl
  · cases saved with
    | false => rfl
    | true =>
      simp only [Saved.note, hp]
      exact if_neg (hno f rfl)

omit [DecidableEq P] in
theorem note_makeBucket {p : P} {self : ReplicatedStore} {b : String} {f : Nat} {env : Env}
    (hp : x.handles p = some (self, .idle)) (hmade : x.Makes ce self b env) :
    s.note ce (.makeBucket p b (some f) env true) x = s.setPolicy b (.withFactor f) := by
  simp only [Saved.note, hp]
  exact if_pos hmade

/-- What one event does to the file: it stays up to date if the index that is written has
everything. -/
theorem fire_upToDate {e : NodeEvent P} (hrec : ∀ p h, x.handles p = some h → Recorded h)
    (hx : x.UpToDate s) (hf : Node.fire ce repairPlan e x = some x') :
    x'.UpToDate (s.note ce e x)
      ↔ x.AtWrite ce e fun _ self key bucket => self.index.UpToDate s key bucket := by
  cases Node.fire_step hf with
  | core | «open» | close | put | maintain | resume => exact iff_of_true hx trivial
  | @makeBucket p b factor env saved self r hp hmade hno =>
    rw [note_makeBucket_of_not hp hno]
    refine iff_of_true hx ?_
    rcases factor with _ | f
    · trivial
    · cases saved with
      | false => trivial
      | true =>
        simp only [Node.AtWrite, hp]
        exact fun h => absurd h (hno f rfl)
  | @makeBucketPolicy p b factor env saved self r hp hr hmade =>
    cases saved with
    | false => exact iff_of_true hx trivial
    | true =>
      rw [note_makeBucket hp hmade]
      simp only [Node.AtWrite, hp]
      exact ReplicaIndex.current_setPolicy.trans ⟨fun h _ => h, fun h => h hmade⟩
  | @setPolicy p b factor saved self hp =>
    cases saved with
    | false => exact iff_of_true hx trivial
    | true =>
      simp only [Saved.note, Node.AtWrite, hp]
      exact ReplicaIndex.current_setPolicy
  | @savePut p saved self a hosts hp =>
    cases saved with
    | false => exact iff_of_true hx trivial
    | true =>
      simp only [Saved.note, Node.AtWrite, hp]
      exact ReplicaIndex.current_put (hrec p _ hp a hosts rfl)
  | @saveMaintain p saved self pass hp =>
    cases saved with
    | false => exact iff_of_true hx trivial
    | true =>
      simp only [Saved.note, Node.AtWrite, hp]
      exact Iff.rfl

/-- An event that cannot happen writes nothing. -/
theorem atWrite_of_none {e : NodeEvent P}
    {C : P → ReplicatedStore → (String → String → Prop) → (String → Prop) → Prop}
    (hf : Node.fire ce repairPlan e x = none) : x.AtWrite ce e C := by
  unfold Node.AtWrite
  cases e with
  | makeBucket p b factor env saved =>
    rcases factor with _ | f
    · trivial
    cases saved with
    | false => trivial
    | true =>
      dsimp only
      split
      next self hp =>
        intro hok
        unfold Node.Makes at hok
        simp only [Node.fire, hp, hok] at hf
        cases hf
      next => trivial
  | setPolicy p b factor saved =>
    cases saved with
    | false => trivial
    | true =>
      dsimp only
      split
      next self hp =>
        simp only [Node.fire, hp] at hf
        cases hf
      next => trivial
  | save p saved =>
    cases saved with
    | false => trivial
    | true =>
      dsimp only
      split
      next self a hosts hp =>
        simp only [Node.fire, hp] at hf
        cases hf
      next self pass hp =>
        simp only [Node.fire, hp] at hf
        cases hf
      next => trivial
  | _ => trivial


/-- The record that is yet to be saved. -/
def Task.Saving : Task → String → String → Prop
  | .putSave a _, b, k => a.bucket = b ∧ a.key = k
  | _, _, _ => False

omit [DecidableEq P] in
/-- The condition of a write may be read through what is known of the handle. -/
theorem atWrite_congr {e : NodeEvent P}
    {C C' : P → ReplicatedStore → (String → String → Prop) → (String → Prop) → Prop}
    (h : ∀ p self task key bucket, x.handles p = some (self, task) →
      (∀ b k, task.Saving b k → key b k) → (C p self key bucket ↔ C' p self key bucket)) :
    x.AtWrite ce e C ↔ x.AtWrite ce e C' := by
  unfold Node.AtWrite
  split
  · split
    next self a hosts hp => exact h _ _ _ _ _ hp fun _ _ => id
    next self pass hp => exact h _ _ _ _ _ hp fun _ _ => id
    next => exact Iff.rfl
  · split
    next self hp => exact h _ _ _ _ _ hp fun _ _ => id
    next => exact Iff.rfl
  · split
    next self hp => exact imp_congr_right fun _ => h _ _ _ _ _ hp fun _ _ => id
    next => exact Iff.rfl
  · exact Iff.rfl

end

/-! ## What a handle has in memory -/

/-- The index has what is in `t` and nothing else, the records of `key` apart. -/
structure ReplicaIndex.Mirrors (t : Saved) (key : String → String → Prop) (i : ReplicaIndex) :
    Prop where
  records : ∀ b k, ¬key b k → (i.getRecord b k).map (·.cid) = t.records b k
  policies : ∀ b, i.policies[b]? = t.policies b

/-- Every key and every bucket in `t` is in `s`. -/
structure Saved.Covers (s t : Saved) : Prop where
  records : ∀ b k, s.records b k = Option.none → t.records b k = Option.none
  policies : ∀ b, s.policies b = Option.none → t.policies b = Option.none

section
variable {t : Saved} {key₁ key₂ : String → String → Prop} {bucket₁ : String → Prop}

theorem ReplicaIndex.Mirrors.mono (h : i.Mirrors t key₁) (hk : ∀ b k, key₁ b k → key₂ b k) :
    i.Mirrors t key₂ where
  records b k hne := h.records b k fun h₁ => hne (hk b k h₁)
  policies := h.policies

/-- An index that mirrors what its handle has seen is up to date if that is. -/
theorem ReplicaIndex.Mirrors.seenIn_iff (h : i.Mirrors t key₁)
    (hk : ∀ b k, key₁ b k → key₂ b k) : i.UpToDate s key₂ bucket₁ ↔ s.SeenIn t key₂ bucket₁ := by
  have hrec : ∀ b k, ¬key₂ b k → (i.getRecord b k).map (·.cid) = t.records b k :=
    fun b k hne => h.records b k fun h₁ => hne (hk b k h₁)
  constructor
  · intro hi
    refine ⟨fun b k c hne hc => ?_, fun b p hne hp => ?_⟩
    · rw [← hrec b k hne]
      exact hi.records b k c hne hc
    · rw [← h.policies]
      exact hi.policies b p hne hp
  · intro hs
    refine ⟨fun b k c hne hc => ?_, fun b p hne hp => ?_⟩
    · rw [hrec b k hne]
      exact hs.records b k c hne hc
    · rw [h.policies]
      exact hs.policies b p hne hp

/-- An index that has everything that was saved, and no other keys, has just that. -/
theorem ReplicaIndex.Mirrors.of_current (h : i.Mirrors t fun _ _ => False) (hc : s.Covers t)
    (hi : i.Current s) : i.Mirrors s fun _ _ => False where
  records b k hne := by
    cases hb : s.records b k with
    | none => exact (h.records b k hne).trans (hc.records b k hb)
    | some c => exact hi.records b k c hne hb
  policies b := by
    cases hb : s.policies b with
    | none => exact (h.policies b).trans (hc.policies b hb)
    | some p => exact hi.policies b p not_false hb

theorem ReplicaIndex.Mirrors.put (h : i.Mirrors t fun b k => bucket = b ∧ key = k)
    (hrec : (i.getRecord bucket key).map (·.cid) = some cid) :
    i.Mirrors (t.put bucket key cid) fun _ _ => False where
  records b k _ := by
    unfold Saved.put
    dsimp only
    split
    next hbk => rw [← hbk.1, ← hbk.2, hrec]
    next hne => exact h.records b k hne
  policies := h.policies

theorem ReplicaIndex.Mirrors.setPolicy (h : i.Mirrors t key₁) :
    (i.setPolicy bucket policy).Mirrors (t.setPolicy bucket policy) key₁ where
  records := h.records
  policies b := by
    rw [policies_setPolicy, h.policies]
    rfl

namespace Saved.Covers

theorem refl (s : Saved) : s.Covers s := ⟨fun _ _ => id, fun _ => id⟩

theorem put (h : s.Covers t) : (s.put bucket key cid).Covers t where
  records b k hb := by
    unfold Saved.put at hb
    dsimp only at hb
    split at hb
    · cases hb
    · exact h.records b k hb
  policies := h.policies

theorem setPolicy (h : s.Covers t) : (s.setPolicy bucket policy).Covers t where
  records := h.records
  policies b hb := by
    unfold Saved.setPolicy at hb
    dsimp only at hb
    split at hb
    · cases hb
    · exact h.policies b hb

theorem put_put (h : s.Covers t) :
    (s.put bucket key cid).Covers (t.put bucket key cid) where
  records b k hb := by
    unfold Saved.put at hb ⊢
    dsimp only at hb ⊢
    split at hb
    · cases hb
    next hne =>
      rw [if_neg hne]
      exact h.records b k hb
  policies := h.policies

theorem setPolicy_setPolicy (h : s.Covers t) :
    (s.setPolicy bucket policy).Covers (t.setPolicy bucket policy) where
  records := h.records
  policies b hb := by
    unfold Saved.setPolicy at hb ⊢
    dsimp only at hb ⊢
    split at hb
    · cases hb
    next hne =>
      rw [if_neg hne]
      exact h.policies b hb

end Saved.Covers

end

/-! ## Runs -/

/-- Each handle has in memory what it has seen, the record it is saving apart, and the file has
what was saved. -/
structure Node.Mirrored {P : Type} (x : Node P × History P) : Prop where
  memory : ∀ p h, x.1.handles p = some h → h.1.index.Mirrors (x.2.seen p) h.2.Saving
  file : (ReplicaIndex.loadFrom x.1.replicas).Mirrors x.2.saved fun _ _ => False

structure HistoryInv {P : Type} (x : Node P × History P) : Prop extends Node.Mirrored x where
  recorded : ∀ p h, x.1.handles p = some h → Recorded h
  covers : ∀ p, x.2.saved.Covers (x.2.seen p)

section
variable {P : Type} [DecidableEq P] {ce : CeRs} {repairPlan : RepairPlanner} {x x' y : Node P}
  {g : History P} {t : Saved}

omit [DecidableEq P] in
theorem covers_note {e : NodeEvent P} (h : s.Covers t) :
    (s.note ce e x).Covers t ∧ (s.note ce e x).Covers (t.note ce e x) := by
  unfold Saved.note
  split
  · split
    · exact ⟨h.put, h.put_put⟩
    · exact ⟨h, h⟩
  · split
    · exact ⟨h.setPolicy, h.setPolicy_setPolicy⟩
    · exact ⟨h, h⟩
  · split
    · split
      · exact ⟨h.setPolicy, h.setPolicy_setPolicy⟩
      · exact ⟨h, h⟩
    · exact ⟨h, h⟩
  · exact ⟨h, h⟩

/-- What was seen stays covered. -/
theorem history_covers {e : NodeEvent P} (h : ∀ p, g.saved.Covers (g.seen p)) :
    ∀ p, (g.note ce e x).saved.Covers ((g.note ce e x).seen p) := by
  have wrote : ∀ p q, (g.saved.note ce e x).Covers
      (Function.update g.seen p ((g.seen p).note ce e x) q) := by
    intro p q
    by_cases hq : q = p
    · rw [hq, Function.update_self]
      exact (covers_note (h p)).2
    · rw [Function.update_of_ne hq]
      exact (covers_note (h q)).1
  cases e with
  | «open» p options env readable =>
    intro q
    show g.saved.Covers (Function.update g.seen p g.saved q)
    by_cases hq : q = p
    · rw [hq, Function.update_self]
      exact .refl _
    · rw [Function.update_of_ne hq]
      exact h q
  | makeBucket p | setPolicy p | save p => exact wrote p
  | core | close | put | maintain | resume => exact h

theorem History.saved_note (e : NodeEvent P) : (g.note ce e x).saved = g.saved.note ce e x := by
  cases e <;> rfl

/-- A handle goes on without a write. -/
theorem mirrored_goto {p : P} {h : ReplicatedStore × Task} (hm : Node.Mirrored (x, g))
    (hy : y.handles = x.handles) (hfile : y.replicas = x.replicas)
    (hh : h.1.index.Mirrors (g.seen p) h.2.Saving) : Node.Mirrored (y.goto p h, g) where
  memory := by
    refine Node.forall_goto.mpr ⟨hh, fun q h' _ hq => hm.memory q h' ?_⟩
    rw [← hy]
    exact hq
  file := by
    show (ReplicaIndex.loadFrom y.replicas).Mirrors _ _
    rw [hfile]
    exact hm.file

/-- A handle ends a call with a write of its index. -/
theorem mirrored_write {p : P} {self : ReplicatedStore} {s' t' : Saved}
    (hm : Node.Mirrored (x, g)) (hy : y.handles = x.handles)
    (ht : self.index.Mirrors t' fun _ _ => False) (hc : s'.Covers t')
    (hcur : self.index.Current s') :
    Node.Mirrored ((y.goto p (self, .idle)).write self.index true,
      ⟨s', Function.update g.seen p t'⟩) where
  memory := by
    rw [Node.handles_write]
    refine Node.forall_goto.mpr ⟨?_, fun q h' hqp hq => ?_⟩
    · dsimp only
      rw [Function.update_self]
      exact ht
    · dsimp only
      rw [Function.update_of_ne hqp]
      exact hm.memory q h' (hy ▸ hq)
  file := ht.of_current hc hcur

/-- From one wait to the next only the record of a put changes its CID. -/
theorem resumed_mirrors {self : ReplicatedStore} {w : Wait} {task : Task}
    {h : ReplicatedStore × Task} (hm : self.index.Mirrors t task.Saving)
    (hr : Resumed repairPlan self w task h) : h.1.index.Mirrors t h.2.Saving := by
  cases hr with
  | on _ _ _ hfrom _ _ =>
    refine hm.mono fun b k hs => ?_
    cases task with
    | putSave a hosts => exact absurd rfl (hfrom a hosts)
    | _ => exact hs.elim
  | @bind a expiryHeight hput _ =>
    have hfrom : ∀ b k, ¬task.Saving b k := by
      cases task <;> first | exact fun _ _ h => h | exact nomatch hput
    refine ⟨fun b k hne => ?_, hm.policies⟩
    have hother : ¬(a.bucket = b ∧ a.key = k) := hne
    rw [getRecord_bindRecord, if_neg hother]
    exact hm.records b k (hfrom b k)
  | @back pass pass' a hobject _ _ _ =>
    have hfrom : ∀ b k, ¬task.Saving b k := by
      cases task <;> first | exact fun _ _ h => h | exact nomatch hobject
    refine ⟨fun b k _ => ?_, fun b => ?_⟩
    · rw [cid_writeBack]
      exact hm.records b k (hfrom b k)
    · rw [policies_writeBack]
      exact hm.policies b

/-- One event keeps memory and file what they should be, where the save succeeds and loses
nothing. -/
theorem fire_mirrored {e : NodeEvent P} (hI : HistoryInv (x, g)) (hsaves : e.Saves)
    (hf : Node.fire ce repairPlan e x = some x') (hQ : x'.UpToDate (g.note ce e x).saved) :
    Node.Mirrored (x', g.note ce e x) := by
  have hm := hI.toMirrored
  have hcovers : ∀ p, (g.note ce e x).saved.Covers ((g.note ce e x).seen p) :=
    history_covers hI.covers
  cases Node.fire_step hf with
  | core => exact ⟨hm.memory, hm.file⟩
  | @«open» p options env readable self hp hs =>
    refine ⟨Node.forall_goto.mpr ⟨?_, fun q h hqp hq => ?_⟩, hm.file⟩
    · rw [Node.index_openAt hs]
      show (ReplicaIndex.loadFrom x.replicas).Mirrors (Function.update g.seen p g.saved p) _
      rw [Function.update_self]
      exact hm.file
    · show h.1.index.Mirrors (Function.update g.seen p g.saved q) _
      rw [Function.update_of_ne hqp]
      exact hm.memory q h hq
  | close p =>
    refine ⟨fun q h hq => ?_, hm.file⟩
    rcases update_eq_some.mp hq with ⟨_, hh⟩ | ⟨_, hh⟩
    · exact nomatch hh
    · exact hm.memory q h hh
  | @makeBucket p b factor env saved self r hp hr hno =>
    have hnote : g.note ce (.makeBucket p b factor env saved) x = g := by
      unfold History.note
      dsimp only
      rw [note_makeBucket_of_not hp hno, note_makeBucket_of_not hp hno, Function.update_eq_self]
    have hseen := hm.memory p _ hp
    rw [hnote]
    exact mirrored_goto hm rfl rfl hseen
  | @makeBucketPolicy p b f env saved self r hp hr hmade =>
    obtain rfl := hsaves
    have hnote : g.note ce (.makeBucket p b (some f) env true) x
        = ⟨g.saved.setPolicy b (.withFactor f),
            Function.update g.seen p ((g.seen p).setPolicy b (.withFactor f))⟩ := by
      unfold History.note
      dsimp only
      rw [note_makeBucket hp hmade, note_makeBucket hp hmade]
    rw [hnote] at hQ ⊢
    exact mirrored_write hm rfl (hm.memory p _ hp).setPolicy (hI.covers p).setPolicy_setPolicy hQ
  | @setPolicy p b f saved self hp =>
    obtain rfl := hsaves
    have hnote : g.note ce (.setPolicy p b f true) x
        = ⟨g.saved.setPolicy b (.withFactor f),
            Function.update g.seen p ((g.seen p).setPolicy b (.withFactor f))⟩ := by
      simp only [History.note, Saved.note, hp]
    rw [hnote] at hQ ⊢
    exact mirrored_write hm rfl (hm.memory p _ hp).setPolicy (hI.covers p).setPolicy_setPolicy hQ
  | @put p bucket key bytes contentType f env self task r hp hr ht =>
    have hseen := hm.memory p _ hp
    refine mirrored_goto hm rfl rfl ?_
    rcases ht with ⟨_, _, rfl⟩ | ⟨_, _, _, rfl, _⟩
    · exact hseen
    · exact hseen.mono fun _ _ => id
  | @maintain p self hp => exact mirrored_goto hm rfl rfl ((hm.memory p _ hp).mono fun _ _ => id)
  | @resume p w self task h hp hr =>
    exact mirrored_goto hm rfl rfl (resumed_mirrors (hm.memory p _ hp) hr)
  | @savePut p saved self a hosts hp =>
    obtain rfl := hsaves
    have hnote : g.note ce (.save p true) x = ⟨g.saved.put a.bucket a.key a.cid,
        Function.update g.seen p ((g.seen p).put a.bucket a.key a.cid)⟩ := by
      simp only [History.note, Saved.note, hp]
    rw [hnote] at hQ ⊢
    have hseen := (hm.memory p _ hp).put (hI.recorded p _ hp a hosts rfl)
    exact mirrored_write hm rfl hseen (hI.covers p).put_put hQ
  | @saveMaintain p saved self pass hp =>
    obtain rfl := hsaves
    have hnote : g.note ce (.save p true) x = ⟨g.saved, Function.update g.seen p (g.seen p)⟩ := by
      simp only [History.note, Saved.note, hp]
    rw [hnote] at hQ ⊢
    exact mirrored_write hm rfl (hm.memory p _ hp) (hI.covers p) hQ

theorem fire_history {e : NodeEvent P} (hI : HistoryInv (x, g)) (hsaves : e.Saves)
    (hf : Node.fire ce repairPlan e x = some x') (hQ : x'.UpToDate (g.note ce e x).saved) :
    HistoryInv (x', g.note ce e x) where
  toMirrored := fire_mirrored hI hsaves hf hQ
  recorded := fire_recorded hI.recorded hf
  covers := history_covers hI.covers

omit [DecidableEq P] in
theorem start_history (w : World) : HistoryInv ((Node.start w : Node P), History.none) where
  memory _ _ h := nomatch h
  file := ⟨fun _ _ _ => rfl, fun _ => rfl⟩
  recorded _ _ h := nomatch h
  covers _ := .refl _

omit [DecidableEq P] in
theorem start_upToDate (w : World) : (Node.start w : Node P).UpToDate Saved.none where
  records _ _ _ _ h := nomatch h
  policies _ _ _ h := nomatch h

omit [DecidableEq P] in
/-- What is written is up to date if the handle has seen everything. -/
theorem undisturbed_iff {e : NodeEvent P} (hI : HistoryInv (x, g)) :
    (x.AtWrite ce e fun _ self key bucket => self.index.UpToDate g.saved key bucket)
      ↔ Node.Undisturbed ce (x, g) e :=
  atWrite_congr fun p self task _ _ hp hk => (hI.memory p (self, task) hp).seenIn_iff hk

/-- **No lost record.** However the operations of the handles interleave, each at its network
waits and its saves, where every save succeeds: the replica index file has the record of every
put that returned `Ok`, with the CID of the last one, and the last policy of every bucket, in
every state of the run, if and only if no handle saves its index after another handle has
saved something that it has not seen, what it writes itself apart. -/
theorem upToDate_iff (ce : CeRs) (repairPlan : RepairPlanner) (w : World)
    (es : List (NodeEvent P)) (hsaves : ∀ e ∈ es, e.Saves) :
    Throughout (withGhost (Node.fire ce repairPlan) (History.note ce))
        (fun x => x.1.UpToDate x.2.saved) es (Node.start w, History.none)
      ↔ Along (withGhost (Node.fire ce repairPlan) (History.note ce)) (Node.Undisturbed ce) es
        (Node.start w, History.none) := by
  have hok : Along (withGhost (Node.fire ce repairPlan) (History.note ce)) (fun _ e => e.Saves) es
      (Node.start w, History.none) := along_of_forall _ _ fun e he _ => hsaves e he
  have hstart := start_history (P := P) w
  refine throughout_iff_along_inv (J := HistoryInv) ?_ ?_ ?_ hstart (start_upToDate w) hok
  · intro x e hnone
    exact atWrite_of_none (Option.map_eq_none_iff.mp hnone)
  · intro x e x' hI he hf _ hQ'
    obtain ⟨hfire, hnote⟩ := withGhost_eq_some.mp hf
    rw [← hnote] at hQ'
    rw [← Prod.eta x', ← hnote]
    exact fire_history hI he hfire hQ'
  · intro x e x' hI _ hf hx
    obtain ⟨hfire, hnote⟩ := withGhost_eq_some.mp hf
    rw [← hnote, History.saved_note]
    exact (fire_upToDate hI.recorded hx hfire).trans (undisturbed_iff hI)

end

/-! ## One handle at a time -/

/-- A handle is opened only when no other is, and every save succeeds. -/
def Node.OneAtATime {P : Type} (x : Node P × History P) (e : NodeEvent P) : Prop :=
  e.Saves ∧ match e with
    | .open _ _ _ _ => ∀ q, x.1.handles q = none
    | _ => True

/-- The handle that is open has seen everything. -/
structure AloneInv {P : Type} (x : Node P × History P) : Prop extends HistoryInv x where
  upToDate : x.1.UpToDate x.2.saved
  one : ∀ p q, x.1.handles p ≠ none → x.1.handles q ≠ none → p = q
  seen : ∀ p, x.1.handles p ≠ none → x.2.seen p = x.2.saved

section
variable {P : Type} [DecidableEq P] {ce : CeRs} {repairPlan : RepairPlanner} {x x' : Node P}
  {g : History P}

theorem opened_of_fire {e : NodeEvent P} (hf : Node.fire ce repairPlan e x = some x') :
    ∀ q h, x'.handles q = some h →
      x.handles q ≠ none ∨ ∃ options env readable, e = .open q options env readable := by
  have still : ∀ (p q : P) h, q ≠ p → x.handles q = some h → x.handles q ≠ none ∨
      ∃ options env readable, e = .open q options env readable :=
    fun _ q h _ hq => .inl (hq ▸ Option.some_ne_none h)
  cases Node.fire_step hf with
  | core => exact fun q h hq => .inl (hq ▸ Option.some_ne_none h)
  | @«open» p options env readable self hp hs =>
    exact Node.forall_goto.mpr ⟨.inr ⟨options, env, readable, rfl⟩, still p⟩
  | close p =>
    intro q h hq
    rcases update_eq_some.mp hq with ⟨_, hh⟩ | ⟨hqp, hh⟩
    · exact nomatch hh
    · exact still p q h hqp hh
  | makeBucket hp | put hp | maintain hp | resume hp =>
    have hopen := hp ▸ Option.some_ne_none _
    exact Node.forall_goto.mpr ⟨.inl hopen, still _⟩
  | makeBucketPolicy hp | setPolicy hp | savePut hp | saveMaintain hp =>
    have hopen := hp ▸ Option.some_ne_none _
    rw [Node.handles_write]
    exact Node.forall_goto.mpr ⟨.inl hopen, still _⟩

omit [DecidableEq P] in
/-- A write is by a handle that is open. -/
theorem atWrite_of_open {e : NodeEvent P}
    {C : P → ReplicatedStore → (String → String → Prop) → (String → Prop) → Prop}
    (h : ∀ p self key bucket, x.handles p ≠ none → C p self key bucket) : x.AtWrite ce e C := by
  have opened : ∀ {p : P} {h : ReplicatedStore × Task}, x.handles p = some h →
      x.handles p ≠ none := fun hp => hp ▸ Option.some_ne_none _
  unfold Node.AtWrite
  split
  · split
    next hp => exact h _ _ _ _ (opened hp)
    next hp => exact h _ _ _ _ (opened hp)
    next => trivial
  · split
    next hp => exact h _ _ _ _ (opened hp)
    next => trivial
  · split
    next hp => exact fun _ => h _ _ _ _ (opened hp)
    next => trivial
  · trivial

/-- One event keeps the handle that is open alone, and what it has seen complete. -/
theorem fire_alone {e : NodeEvent P} (hI : AloneInv (x, g)) (hok : Node.OneAtATime (x, g) e)
    (hf : Node.fire ce repairPlan e x = some x') : AloneInv (x', g.note ce e x) := by
  have hseen : Node.Undisturbed ce (x, g) e := by
    refine atWrite_of_open fun p _ key bucket hp => ?_
    dsimp only
    rw [hI.seen p hp]
    exact ⟨fun _ _ _ _ => id, fun _ _ _ => id⟩
  have hQ : x'.UpToDate (g.note ce e x).saved := by
    rw [History.saved_note]
    exact (fire_upToDate hI.recorded hI.upToDate hf).mpr
      ((undisturbed_iff hI.toHistoryInv).mpr hseen)
  have opened : ∀ q, x'.handles q ≠ none → x.handles q ≠ none ∨
      ∃ options env readable, e = .open q options env readable := by
    intro q hq
    obtain ⟨h, hh⟩ := Option.ne_none_iff_exists'.mp hq
    exact opened_of_fire hf q h hh
  have hnone : ∀ q options env readable, e = .open q options env readable →
      ∀ p, x.handles p = none := by
    rintro q options env readable rfl
    exact hok.2
  refine { toHistoryInv := fire_history hI.toHistoryInv hok.1 hf hQ, upToDate := hQ
           one := fun p q hp hq => ?_, seen := fun q hq => ?_ }
  · rcases opened p hp with hp | ⟨o, env, r, he⟩
    · rcases opened q hq with hq | ⟨o, env, r, he⟩
      · exact hI.one p q hp hq
      · exact absurd (hnone _ _ _ _ he p) hp
    · rcases opened q hq with hq | ⟨_, _, _, he'⟩
      · exact absurd (hnone _ _ _ _ he q) hq
      · cases he.symm.trans he'
        rfl
  · rcases opened q hq with hopen | ⟨o, env, r, rfl⟩
    · cases e with
      | «open» p options env readable => exact absurd (hok.2 q) hopen
      | makeBucket p | setPolicy p | save p =>
        -- the handle that writes is the one that is open
        have hp : x.handles p ≠ none := by
          intro hp
          simp only [Node.fire, hp] at hf
          cases hf
        obtain rfl := hI.one q p hopen hp
        unfold History.note
        dsimp only
        rw [Function.update_self, hI.seen q hopen]
      | core | close | put | maintain | resume => exact hI.seen q hopen
    · exact Function.update_self _ _ _

/-- **One handle at a time.** When every handle is closed before the next is opened and every
save succeeds, no record and no policy is lost. -/
theorem upToDate_of_alone (ce : CeRs) (repairPlan : RepairPlanner) (w : World)
    (x : Node P × History P)
    (hx : Reach (withGhost (Node.fire ce repairPlan) (History.note ce)) Node.OneAtATime
      (Node.start w, History.none) x) : x.1.UpToDate x.2.saved := by
  have hI : AloneInv x := by
    refine hx.inv ?_ ?_
    · exact { toHistoryInv := start_history w, upToDate := start_upToDate w
              one := fun _ _ h => absurd rfl h, seen := fun _ _ => rfl }
    · intro x e x' _ hI hok hf
      obtain ⟨hfire, hnote⟩ := withGhost_eq_some.mp hf
      rw [← Prod.eta x', ← hnote]
      exact fire_alone hI hok hfire
  exact hI.upToDate

end

/-! Two handles are opened, and each puts a key. The second has not seen the first one's
record, and its save drops it. -/

private def bothPut : List (NodeEvent Bool) :=
  let env := Env.calm CeRs.plain 1 "u"
  let options : OpenOptions := ⟨"caps", 1, "0", 10, 100, 7⟩
  [.open false options env true, .open true options env true,
    .makeBucket false "photos" none env true,
    .put false "photos" "cat" [1] "" none env, .resume false (.tip none),
    .resume false (.candidates (.error "timeout")), .save false true,
    .put true "photos" "dog" [2] "" none env, .resume true (.tip none),
    .resume true (.candidates (.error "timeout")), .save true true]

private def unput : Node Bool × History Bool := (Node.start World.blank, History.none)

private def noRepair : RepairPlanner := fun _ _ _ => { toPlace := 0, exclude := [] }

theorem upToDate_iff_bothPut :
    Throughout (withGhost (Node.fire CeRs.plain noRepair) (History.note CeRs.plain))
        (fun x => x.1.UpToDate x.2.saved) bothPut unput
      ↔ Along (withGhost (Node.fire CeRs.plain noRepair) (History.note CeRs.plain))
        (Node.Undisturbed CeRs.plain) bothPut unput :=
  upToDate_iff CeRs.plain noRepair World.blank bothPut (by decide)

private def catLost : Node Bool × History Bool :=
  (play (fireIf (withGhost (Node.fire CeRs.plain noRepair) (History.note CeRs.plain))
    fun _ e => e.Saves) bothPut unput).getD unput

private theorem catLost_record :
    (catLost.2.saved.records "photos" "cat").isSome = true ∧
      (ReplicaIndex.loadFrom catLost.1.replicas).getRecord "photos" "cat" = none ∧
      ∀ p, (catLost.1.handles p).all (·.2.isIdle) = true := by
  decide +kernel

theorem stale_save_loses_record : ¬∀ x : Node Bool × History Bool,
    Reach (withGhost (Node.fire CeRs.plain noRepair) (History.note CeRs.plain))
      (fun _ e => e.Saves) unput x →
      (∀ p, (x.1.handles p).all (·.2.isIdle) = true) → x.1.UpToDate x.2.saved := by
  intro h
  have hreach : Reach (withGhost (Node.fire CeRs.plain noRepair) (History.note CeRs.plain))
      (fun _ e => e.Saves) unput catLost := reach_getD (by decide +kernel)
  obtain ⟨hsome, hlost, hidle⟩ := catLost_record
  obtain ⟨cid, hcid⟩ := Option.isSome_iff_exists.mp hsome
  have hfound := (h catLost hreach hidle).records "photos" "cat" cid not_false hcid
  rw [hlost] at hfound
  exact nomatch hfound

end CeStorage
