import CeStorage.Replicated.Store

/-!
# What a step of the replicated store does

`resume_cases` says what a wait can lead to and `Node.fire_step` what an event can: the
replica index of a handle changes when a put is recorded, when a pass is done with an
object whose holders are others now, and by a policy; the file changes when a handle writes
its index over it. What holds of every reachable state is proved from these two.
-/

namespace CeStorage

open Lib

/-! ## Between two waits -/

/-- The holders that accepted, where that is what was waited for. -/
def Wait.accepted : Wait → List String
  | .replicate answer => answer.toOption.getD []
  | _ => []

/-- The put that has yet to be recorded. -/
def Task.putting : Task → Option Putting
  | .putTip a | .putCandidates a _ | .putReplicate a _ _ => some a
  | _ => none

/-- The object a pass is at. -/
def Task.object : Task → Option (Pass × Audit)
  | .audit pass a | .repairCandidates pass a _ | .repairReplicate pass a _ _ => some (pass, a)
  | _ => none

/-- No wait of the call that the handle is in has been answered yet. -/
def Task.Fresh : Task → Prop
  | .idle | .putTip _ | .maintainTip _ => True
  | _ => False

/-- Nothing is under way. -/
def Task.isIdle : Task → Bool
  | .idle => true
  | _ => false

theorem Task.eq_idle {task : Task} (h : task.isIdle = true) : task = .idle := by
  cases task with
  | idle => rfl
  | _ => exact nomatch h

/-- The wait is the last one for the object that the pass is at. -/
def Task.Ends (repairPlan : RepairPlanner) : Wait → Task → Prop
  | .next, .audit _ a =>
    a.left = [] ∧ (repairPlan a.replicas a.healthy a.record.replicationFactor).toPlace = 0
  | .candidates answer, .repairCandidates _ _ _ => answer.toOption.getD [] = []
  | .replicate _, .repairReplicate _ _ _ _ => True
  | _, _ => False

/-- What a wait can lead to: the function goes on, a put is recorded, or the pass is done
with an object. -/
inductive Resumed (repairPlan : RepairPlanner) (self : ReplicatedStore) (w : Wait) (task : Task) :
    ReplicatedStore × Task → Prop where
  | on {task' : Task} (hw : w.accepted = []) (hput : task'.putting = task.putting)
      (hends : ¬task.Ends repairPlan w)
      (hfrom : ∀ a hosts, task ≠ .putSave a hosts) (hsave : ∀ a hosts, task' ≠ .putSave a hosts)
      (hobject : ∀ pass a, task'.object = some (pass, a) →
        self.index.getRecord a.bucket a.key = some a.record ∨
          ∃ pass₀ a₀, task.object = some (pass₀, a₀) ∧ a.bucket = a₀.bucket ∧ a.key = a₀.key ∧
            a.record = a₀.record) :
      Resumed repairPlan self w task (self, task')
  | bind {a : Putting} (expiryHeight : Nat) (hput : task.putting = some a)
      (hcall : w.accepted = [] ∨ ∃ call, task.replicateCall self = some call ∧
        call.cid = a.cid ∧ call.expiryHeight = expiryHeight) :
      Resumed repairPlan self w task (self.bindRecord a expiryHeight w.accepted)
  | back {pass pass' : Pass} {a : Audit} (hobject : task.object = some (pass, a))
      (hends : task.Ends repairPlan w) (hpass : pass'.expiryHeight = pass.expiryHeight)
      (hcall : w.accepted = [] ∨ ∃ call, task.replicateCall self = some call ∧
        call.cid = a.record.cid ∧ call.expiryHeight = pass.expiryHeight) :
      Resumed repairPlan self w task (self.writeBack pass' a w.accepted)

theorem resume_cases {repairPlan : RepairPlanner} {self : ReplicatedStore} {w : Wait} {task : Task}
    {h : ReplicatedStore × Task} (hr : self.resume repairPlan w task = some h) :
    Resumed repairPlan self w task h := by
  cases task with
  | idle | putSave a hosts | maintainSave pass => cases w <;> exact nomatch hr
  | putTip a =>
    cases w with
    | tip height =>
      simp only [ReplicatedStore.resume] at hr
      split at hr
      · cases hr
        exact .bind (w := .tip height) _ rfl (.inl rfl)
      · cases hr
        exact .on rfl rfl (fun h => h) nofun nofun nofun
    | _ => exact nomatch hr
  | putCandidates a expiryHeight =>
    cases w with
    | candidates answer =>
      rcases answer with e | _ | ⟨c, cs⟩
      · cases hr
        exact .bind (w := .candidates (.error e)) _ rfl (.inl rfl)
      · cases hr
        exact .bind (w := .candidates (.ok [])) _ rfl (.inl rfl)
      · cases hr
        exact .on rfl rfl (fun h => h) nofun nofun nofun
    | _ => exact nomatch hr
  | putReplicate a expiryHeight candidates =>
    cases w with
    | replicate answer =>
      cases hr
      exact .bind (w := .replicate answer) _ rfl (.inr ⟨_, rfl, rfl, rfl⟩)
    | _ => exact nomatch hr
  | maintainTip targets =>
    cases w with
    | tip height =>
      cases hr
      exact .on rfl rfl (fun h => h) nofun nofun nofun
    | _ => exact nomatch hr
  | each pass =>
    cases w with
    | next =>
      simp only [ReplicatedStore.resume] at hr
      split at hr
      · cases hr
        refine .on rfl ?_ (fun h => h) nofun ?_ ?_
        · split <;> rfl
        · split <;> exact nofun
        · split <;> exact nofun
      · split at hr
        · cases hr
          exact .on rfl rfl (fun h => h) nofun nofun nofun
        next record hrec =>
          cases hr
          refine .on rfl rfl (fun h => h) nofun nofun ?_
          rintro _ _ ⟨⟩
          exact .inl hrec
    | _ => exact nomatch hr
  | audit pass a =>
    cases w with
    | audit answer =>
      simp only [ReplicatedStore.resume] at hr
      split at hr
      · exact nomatch hr
      · split at hr
        all_goals
          cases hr
          refine .on rfl rfl (fun h => h) nofun nofun ?_
          rintro _ _ ⟨⟩
          exact .inr ⟨_, _, rfl, rfl, rfl, rfl⟩
    | next =>
      simp only [ReplicatedStore.resume] at hr
      split at hr
      · exact nomatch hr
      next hleft =>
        split at hr
        next hplan =>
          cases hr
          refine .on rfl rfl (fun h => ?_) nofun nofun ?_
          · exact absurd h.2 (Nat.ne_of_gt hplan)
          · rintro _ _ ⟨⟩
            exact .inr ⟨_, _, rfl, rfl, rfl, rfl⟩
        next hplan =>
          cases hr
          exact .back (w := .next) rfl ⟨hleft, Nat.eq_zero_of_not_pos hplan⟩ rfl (.inl rfl)
    | _ => exact nomatch hr
  | repairCandidates pass a plan =>
    cases w with
    | candidates answer =>
      rcases answer with e | _ | ⟨c, cs⟩
      · cases hr
        exact .back (w := .candidates (.error e)) rfl rfl rfl (.inl rfl)
      · cases hr
        exact .back (w := .candidates (.ok [])) rfl rfl rfl (.inl rfl)
      · cases hr
        refine .on rfl rfl (fun h => nomatch h) nofun nofun ?_
        rintro _ _ ⟨⟩
        exact .inr ⟨_, _, rfl, rfl, rfl, rfl⟩
    | _ => exact nomatch hr
  | repairReplicate pass a plan candidates =>
    cases w with
    | replicate answer =>
      cases hr
      exact .back (w := .replicate answer) rfl trivial rfl (.inr ⟨_, rfl, rfl, rfl⟩)
    | _ => exact nomatch hr

/-- A wait that cannot be answered so is no answer to `replicate`, and ends nothing. -/
theorem not_ends_of_none {repairPlan : RepairPlanner} {self : ReplicatedStore} {w : Wait}
    {task : Task} (hr : self.resume repairPlan w task = none) :
    (w.accepted = [] ∨ task.replicateCall self = none) ∧ ¬task.Ends repairPlan w := by
  cases task with
  | putReplicate a expiryHeight candidates =>
    cases w with
    | replicate answer => exact nomatch hr
    | _ => exact ⟨.inl rfl, fun h => h⟩
  | audit pass a =>
    refine ⟨.inr rfl, fun hends => ?_⟩
    cases w with
    | next =>
      obtain ⟨hleft, hplan⟩ := hends
      simp only [ReplicatedStore.resume, hleft] at hr
      rw [if_neg (by omega)] at hr
      exact nomatch hr
    | _ => exact hends
  | repairCandidates pass a plan =>
    refine ⟨.inr rfl, fun hends => ?_⟩
    cases w with
    | candidates answer =>
      rcases answer with e | _ | ⟨c, cs⟩
      · exact nomatch hr
      · exact nomatch hr
      · exact nomatch hends
    | _ => exact hends
  | repairReplicate pass a plan candidates =>
    cases w with
    | replicate answer => exact nomatch hr
    | _ => exact ⟨.inl rfl, fun h => h⟩
  | _ => exact ⟨.inr rfl, by cases w <;> exact fun h => h⟩

theorem getRecord_bindRecord (self : ReplicatedStore) (a : Putting) (expiryHeight : Nat)
    (replicaHosts : List String) (b k : String) :
    (self.bindRecord a expiryHeight replicaHosts).1.index.getRecord b k
      = if a.bucket = b ∧ a.key = k then some (a.entry replicaHosts expiryHeight)
        else self.index.getRecord b k :=
  ReplicaIndex.getRecord_putRecord

theorem writeBack_of_eq {self : ReplicatedStore} {pass : Pass} {a : Audit} {newHosts : List String}
    (h : a.updated newHosts = a.record.replicaHosts) :
    self.writeBack pass a newHosts = (self, .each pass) := if_pos h

theorem writeBack_of_ne {self : ReplicatedStore} {pass : Pass} {a : Audit} {newHosts : List String}
    (hrec : self.index.getRecord a.bucket a.key = some a.record)
    (h : a.updated newHosts ≠ a.record.replicaHosts) :
    self.writeBack pass a newHosts = ({ self with
      index := self.index.modifyRecord a.bucket a.key fun e =>
        { e with replicaHosts := a.updated newHosts, expiryHeight := pass.expiryHeight } },
      .each { pass with dirty := true }) := by
  unfold ReplicatedStore.writeBack
  rw [if_neg h, hrec]

/-- The record with the new holders, and the height of the pass. -/
theorem getRecord_writeBack {self : ReplicatedStore} (pass : Pass) {a : Audit}
    {newHosts : List String} (hrec : self.index.getRecord a.bucket a.key = some a.record)
    (h : a.updated newHosts ≠ a.record.replicaHosts) (b k : String) :
    (self.writeBack pass a newHosts).1.index.getRecord b k
      = if a.bucket = b ∧ a.key = k then some
          { a.record with
            replicaHosts := a.updated newHosts, expiryHeight := pass.expiryHeight }
        else self.index.getRecord b k := by
  rw [writeBack_of_ne hrec h, ReplicaIndex.getRecord_modifyRecord]
  split
  next hbk =>
    rw [← hbk.1, ← hbk.2, hrec]
    rfl
  next => rfl

/-- A pass never changes what object a record is of. -/
theorem cid_writeBack (self : ReplicatedStore) (pass : Pass) (a : Audit) (newHosts : List String)
    (b k : String) :
    ((self.writeBack pass a newHosts).1.index.getRecord b k).map (·.cid)
      = (self.index.getRecord b k).map (·.cid) := by
  unfold ReplicatedStore.writeBack
  split
  · rfl
  · split
    · rfl
    · dsimp only
      rw [ReplicaIndex.getRecord_modifyRecord]
      split
      · rw [Option.map_map]
        rfl
      · rfl

theorem policies_writeBack (self : ReplicatedStore) (pass : Pass) (a : Audit)
    (newHosts : List String) :
    (self.writeBack pass a newHosts).1.index.policies = self.index.policies := by
  unfold ReplicatedStore.writeBack
  split
  · rfl
  · split
    · rfl
    · exact ReplicaIndex.policies_modifyRecord

/-! ## One event -/

/-- The bucket is made; its policy is set only then. -/
def Node.Makes {P : Type} (ce : CeRs) (x : Node P) (self : ReplicatedStore) (bucket : String)
    (env : Env) : Prop :=
  ((Store.makeBucket bucket).exec ce env self.store x.world).1.1 = .ok ()

instance {P : Type} (ce : CeRs) (x : Node P) (self : ReplicatedStore) (bucket : String)
    (env : Env) : Decidable (x.Makes ce self bucket env) :=
  match h : ((Store.makeBucket bucket).exec ce env self.store x.world).1.1 with
  | .ok () => .isTrue h
  | .error _ => .isFalse fun hok => nomatch h.symm.trans hok

namespace Node

variable {P : Type} [DecidableEq P] {ce : CeRs} {repairPlan : RepairPlanner} {x x' : Node P}

@[simp] theorem world_goto (p : P) (h : ReplicatedStore × Task) : (x.goto p h).world = x.world :=
  rfl

@[simp] theorem replicas_goto (p : P) (h : ReplicatedStore × Task) :
    (x.goto p h).replicas = x.replicas := rfl

omit [DecidableEq P] in
@[simp] theorem handles_write (i : ReplicaIndex) (saved : Bool) :
    (x.write i saved).handles = x.handles := by
  unfold write
  split <;> rfl

omit [DecidableEq P] in
@[simp] theorem world_write (i : ReplicaIndex) (saved : Bool) :
    (x.write i saved).world = x.world := by
  unfold write
  split <;> rfl

omit [DecidableEq P] in
/-- A handle is opened with the replica index that is on file. -/
theorem index_openAt {options : OpenOptions} {env : Env} {readable : Bool} {self : ReplicatedStore}
    (h : x.openAt options env readable = some self) :
    self.index = ReplicaIndex.loadFrom x.replicas := by
  unfold openAt at h
  split at h
  · exact nomatch h
  · split at h
    · cases h
      rfl
    · exact nomatch h

/-- What holds of every handle, after one of them has moved. -/
theorem forall_goto {p : P} {h : ReplicatedStore × Task} {Φ : P → ReplicatedStore × Task → Prop} :
    (∀ q h', (x.goto p h).handles q = some h' → Φ q h')
      ↔ Φ p h ∧ ∀ q h', q ≠ p → x.handles q = some h' → Φ q h' := by
  unfold goto
  constructor
  · intro hall
    refine ⟨hall p h (Function.update_self _ _ _), fun q h' hq hh => hall q h' ?_⟩
    dsimp only
    rw [Function.update_of_ne hq, hh]
  · rintro ⟨hp, hrest⟩ q h' hq
    rcases update_eq_some.mp hq with ⟨rfl, hh⟩ | ⟨hqp, hh⟩
    · cases hh
      exact hp
    · exact hrest q h' hqp hh

/-- What an event does. -/
inductive Step (ce : CeRs) (repairPlan : RepairPlanner) (x : Node P) :
    NodeEvent P → Node P → Prop where
  | core (s : Store) (c : StoreCall) (env : Env) :
      Step ce repairPlan x (.core s c env) { x with world := (c.exec ce env s x.world).2 }
  | «open» {p : P} {options : OpenOptions} {env : Env} {readable : Bool} {self : ReplicatedStore}
      (hp : x.handles p = none) (hs : x.openAt options env readable = some self) :
      Step ce repairPlan x (.open p options env readable) (x.goto p (self, .idle))
  | close (p : P) :
      Step ce repairPlan x (.close p) { x with handles := Function.update x.handles p none }
  | makeBucket {p : P} {bucket : String} {factor : Option Nat} {env : Env} {saved : Bool}
      {self : ReplicatedStore} {r : (Except String Unit × Store) × World}
      (hp : x.handles p = some (self, .idle))
      (hr : r = (Store.makeBucket bucket).exec ce env self.store x.world)
      (hno : ∀ f, factor = some f → ¬x.Makes ce self bucket env) :
      Step ce repairPlan x (.makeBucket p bucket factor env saved)
        ({ x with world := r.2 }.goto p ({ self with store := r.1.2 }, .idle))
  | makeBucketPolicy {p : P} {bucket : String} {factor : Nat} {env : Env} {saved : Bool}
      {self : ReplicatedStore} {r : (Except String Unit × Store) × World}
      (hp : x.handles p = some (self, .idle))
      (hr : r = (Store.makeBucket bucket).exec ce env self.store x.world)
      (hmade : x.Makes ce self bucket env) :
      Step ce repairPlan x (.makeBucket p bucket (some factor) env saved)
        (({ x with world := r.2 }.goto p
          ({ self with
              store := r.1.2
              index := self.index.setPolicy bucket (.withFactor factor) }, .idle)).write
          (self.index.setPolicy bucket (.withFactor factor)) saved)
  | setPolicy {p : P} {bucket : String} {factor : Nat} {saved : Bool} {self : ReplicatedStore}
      (hp : x.handles p = some (self, .idle)) :
      Step ce repairPlan x (.setPolicy p bucket factor saved)
        ((x.goto p
          ({ self with index := self.index.setPolicy bucket (.withFactor factor) }, .idle)).write
          (self.index.setPolicy bucket (.withFactor factor)) saved)
  /-- The store refuses the put, or binds the key. -/
  | put {p : P} {bucket key : String} {bytes : Bytes} {contentType : String} {f : Option Nat}
      {env : Env} {self : ReplicatedStore} {task : Task}
      {r : (Except StorageError ObjectMeta × Store) × World}
      (hp : x.handles p = some (self, .idle))
      (hr : r = (self.store.putObject bucket key bytes contentType).exec ce env self.store x.world)
      (ht : (∃ e, r.1.1 = .error e ∧ task = .idle) ∨
        ∃ m a, r.1.1 = .ok m ∧ task = .putTip a ∧ a.bucket = bucket ∧ a.key = key ∧ a.cid = m.cid) :
      Step ce repairPlan x (.put p bucket key bytes contentType f env)
        ({ x with world := r.2 }.goto p ({ self with store := r.1.2 }, task))
  | maintain {p : P} {self : ReplicatedStore} (hp : x.handles p = some (self, .idle)) :
      Step ce repairPlan x (.maintain p) (x.goto p (self, .maintainTip self.index.allRecords))
  | resume {p : P} {w : Wait} {self : ReplicatedStore} {task : Task} {h : ReplicatedStore × Task}
      (hp : x.handles p = some (self, task)) (hr : Resumed repairPlan self w task h) :
      Step ce repairPlan x (.resume p w) (x.goto p h)
  | savePut {p : P} {saved : Bool} {self : ReplicatedStore} {a : Putting} {hosts : List String}
      (hp : x.handles p = some (self, .putSave a hosts)) :
      Step ce repairPlan x (.save p saved) ((x.goto p (self, .idle)).write self.index saved)
  | saveMaintain {p : P} {saved : Bool} {self : ReplicatedStore} {pass : Pass}
      (hp : x.handles p = some (self, .maintainSave pass)) :
      Step ce repairPlan x (.save p saved) ((x.goto p (self, .idle)).write self.index saved)

theorem fire_step {e : NodeEvent P} (hf : fire ce repairPlan e x = some x') :
    Step ce repairPlan x e x' := by
  cases e with
  | core s c env =>
    cases hf
    exact .core s c env
  | «open» p options env readable =>
    simp only [fire] at hf
    split at hf
    next self hp hs =>
      cases hf
      exact .open hp hs
    next => exact nomatch hf
  | close p =>
    simp only [fire] at hf
    split at hf
    · cases hf
      exact .close p
    · exact nomatch hf
  | makeBucket p bucket factor env saved =>
    simp only [fire] at hf
    split at hf
    next self hp =>
      split at hf
      next f hok =>
        cases hf
        exact .makeBucketPolicy hp rfl hok
      next hno =>
        cases hf
        refine .makeBucket hp rfl ?_
        rintro f rfl hmade
        exact hno f hmade rfl
    next => exact nomatch hf
  | setPolicy p bucket factor saved =>
    simp only [fire] at hf
    split at hf
    next self hp =>
      cases hf
      exact .setPolicy hp
    next => exact nomatch hf
  | put p bucket key bytes contentType f env =>
    simp only [fire] at hf
    split at hf
    next self hp =>
      split at hf
      next e he =>
        cases hf
        exact .put hp rfl (.inl ⟨e, he, rfl⟩)
      next m hm =>
        cases hf
        exact .put hp rfl (.inr ⟨m, _, hm, rfl, rfl, rfl, rfl⟩)
    next => exact nomatch hf
  | maintain p =>
    simp only [fire] at hf
    split at hf
    next self hp =>
      cases hf
      exact .maintain hp
    next => exact nomatch hf
  | resume p w =>
    simp only [fire] at hf
    split at hf
    next self task hp =>
      obtain ⟨h, hr, rfl⟩ := Option.map_eq_some_iff.mp hf
      exact .resume hp (resume_cases hr)
    next => exact nomatch hf
  | save p saved =>
    simp only [fire] at hf
    split at hf
    next self a hosts hp =>
      cases hf
      exact .savePut hp
    next self pass hp =>
      cases hf
      exact .saveMaintain hp
    next => exact nomatch hf

/-! ## What holds of every handle -/

/-- What holds of a handle at the ends of its calls and from one wait to the next, it keeps. -/
theorem fire_handles {Φ : ReplicatedStore × Task → Prop} {e : NodeEvent P}
    (hfresh : ∀ self task, task.Fresh → Φ (self, task))
    (hresume : ∀ self task w h, Φ (self, task) → Resumed repairPlan self w task h → Φ h)
    (hx : ∀ p h, x.handles p = some h → Φ h) (hf : fire ce repairPlan e x = some x') :
    ∀ p h, x'.handles p = some h → Φ h := by
  have others : ∀ p q h, q ≠ p → x.handles q = some h → Φ h := fun _ q h _ hq => hx q h hq
  have idle : ∀ self, Φ (self, .idle) := fun self => hfresh self .idle trivial
  cases fire_step hf with
  | core => exact hx
  | «open» => exact forall_goto.mpr ⟨idle _, others _⟩
  | close p =>
    intro q h hq
    rcases update_eq_some.mp hq with ⟨_, hh⟩ | ⟨_, hh⟩
    · exact nomatch hh
    · exact hx q h hh
  | makeBucket => exact forall_goto.mpr ⟨idle _, others _⟩
  | makeBucketPolicy | setPolicy | savePut | saveMaintain =>
    rw [handles_write]
    exact forall_goto.mpr ⟨idle _, others _⟩
  | put _ _ ht =>
    refine forall_goto.mpr ⟨?_, others _⟩
    rcases ht with ⟨_, _, rfl⟩ | ⟨_, _, _, rfl, _⟩
    · exact idle _
    · exact hfresh _ _ trivial
  | maintain => exact forall_goto.mpr ⟨hfresh _ _ trivial, others _⟩
  | resume hp hr => exact forall_goto.mpr ⟨hresume _ _ _ _ (hx _ _ hp) hr, others _⟩

/-! ### The object that a pass is at -/

/-- The record that a pass looks at is the one in the index of its handle. -/
def Held (h : ReplicatedStore × Task) : Prop :=
  ∀ pass a, h.2.object = some (pass, a) →
    h.1.index.getRecord a.bucket a.key = some a.record

theorem object_writeBack (self : ReplicatedStore) (pass : Pass) (a : Audit)
    (newHosts : List String) : (self.writeBack pass a newHosts).2.object = none := by
  unfold ReplicatedStore.writeBack
  split
  · rfl
  · split <;> rfl

theorem held_of_none {h : ReplicatedStore × Task} (hn : h.2.object = none) : Held h :=
  fun _ _ hobject => nomatch hn.symm.trans hobject

theorem resumed_held {self : ReplicatedStore} {w : Wait} {task : Task} {h : ReplicatedStore × Task}
    (hheld : Held (self, task)) (hr : Resumed repairPlan self w task h) : Held h := by
  cases hr with
  | on _ _ _ _ _ hobject =>
    intro pass a ha
    rcases hobject pass a ha with hrec | ⟨pass₀, a₀, h₀, hb, hk, hrec⟩
    · exact hrec
    · rw [hb, hk, hrec]
      exact hheld pass₀ a₀ h₀
  | bind => exact held_of_none rfl
  | back => exact held_of_none (object_writeBack _ _ _ _)

theorem fire_held {e : NodeEvent P} (hx : ∀ p h, x.handles p = some h → Held h)
    (hf : fire ce repairPlan e x = some x') : ∀ p h, x'.handles p = some h → Held h := by
  refine fire_handles (fun self task ht => held_of_none ?_) (fun _ _ _ _ => resumed_held) hx hf
  cases task <;> first | rfl | exact ht.elim

end Node

end CeStorage
