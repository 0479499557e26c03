import CeStorage.Replicated.Leases

/-!
# One maintain pass (`replicated/store.rs`)

A pass of `maintain` against every assignment of answers: of the audits of each
holder, of the candidates for each object, and of each `replicate`. The pass goes
through the audits of one record after the other, so what it makes of a record
depends on that record only (`maintained`), and the report is the sum of what each
record adds to it (`tally`).

Under what `ce_pin` promises, `maintain_repairs` says what that is: the holders that
passed, in their old order, and the new ones, none of them twice.
-/

namespace CeStorage

open Lib
open Std (ExtTreeMap)

/-! ## All records -/

namespace ReplicaIndex

variable {i : ReplicaIndex} {b k : String}

theorem mem_allRecords : (b, k) ∈ i.allRecords ↔ ∃ r, i.getRecord b k = some r := by
  unfold allRecords getRecord
  simp only [List.mem_flatMap, List.mem_map, Prod.mk.injEq, Option.bind_eq_some_iff]
  constructor
  · rintro ⟨⟨b', m⟩, hm, k', hk, rfl, rfl⟩
    have hin : k' ∈ m := ExtTreeMap.mem_keys.mp hk
    exact ⟨m[k'], m, ExtTreeMap.mem_toList_iff_getElem?_eq_some.mp hm,
      ExtTreeMap.getElem?_eq_some_getElem hin⟩
  · rintro ⟨r, m, hm, hr⟩
    refine ⟨(b, m), ExtTreeMap.mem_toList_iff_getElem?_eq_some.mpr hm, k, ?_, rfl, rfl⟩
    rw [ExtTreeMap.mem_keys, ExtTreeMap.mem_iff_isSome_getElem?, hr]
    rfl

theorem nodup_allRecords (i : ReplicaIndex) : i.allRecords.Nodup := by
  unfold allRecords
  refine List.nodup_flatMap.mpr ⟨?_, ?_⟩
  · rintro ⟨b, m⟩ -
    exact ExtTreeMap.nodup_keys.map fun _ _ h => (Prod.mk.inj h).2
  · refine ExtTreeMap.distinct_keys_toList.imp fun {p q} hpq => ?_
    rw [Std.LawfulEqOrd.compare_eq_iff_eq] at hpq
    rintro ⟨b, k⟩ hp hq
    obtain ⟨_, -, hpb⟩ := List.mem_map.mp hp
    obtain ⟨_, -, hqb⟩ := List.mem_map.mp hq
    exact hpq ((Prod.mk.inj hpb).1.trans (Prod.mk.inj hqb).1.symm)

/-- The sum of what `f` counts for each record. -/
def total (i : ReplicaIndex) (f : String → String → RecordEntry → Nat) : Nat :=
  (i.allRecords.map fun t => ((i.getRecord t.1 t.2).map (f t.1 t.2)).getD 0).sum

end ReplicaIndex

/-! ## The answers during a pass -/

/-- The height of the chain, and what is answered for each bucket, key and holder. -/
structure MaintainEnv where
  tip : Option Nat
  audit : String → String → String → Except String Bool
  candidates : String → String → Except String (List String)
  replicate : String → String → ReplicateCall → Except String (List String)

instance : Zero MaintainReport := ⟨{}⟩

instance : Add MaintainReport where
  add x y :=
    { objectsChecked := x.objectsChecked + y.objectsChecked
      objectsRepaired := x.objectsRepaired + y.objectsRepaired
      replicasAdded := x.replicasAdded + y.replicasAdded
      replicasUnhealthy := x.replicasUnhealthy + y.replicasUnhealthy }

/-- What `repair_plan` says of an object whose holders have been audited. -/
def Audit.plan (repairPlan : RepairPlanner) (a : Audit) : RepairPlan :=
  repairPlan a.replicas a.healthy a.record.replicationFactor

namespace MaintainEnv

/-- The answer to the wait that a handle is in. -/
def answer (env : MaintainEnv) (self : ReplicatedStore) : Task → Wait
  | .maintainTip _ => .tip env.tip
  | .audit _ a =>
    match a.left with
    | [] => .next
    | holder :: _ => .audit (env.audit a.bucket a.key holder)
  | .repairCandidates _ a _ => .candidates (env.candidates a.bucket a.key)
  | .repairReplicate pass a plan candidates =>
    ((Task.repairReplicate pass a plan candidates).replicateCall self).elim .next fun call =>
      .replicate (env.replicate a.bucket a.key call)
  | _ => .next

/-- A handle goes on with the answer to its wait. -/
def fire (env : MaintainEnv) (repairPlan : RepairPlanner) (_ : Unit) (h : ReplicatedStore × Task) :
    Option (ReplicatedStore × Task) := h.1.resume repairPlan (env.answer h.1 h.2) h.2

/-! ### What a pass makes of one record -/

/-- The holder passes its audit; one that cannot be asked does not. -/
def passes (env : MaintainEnv) (b k holder : String) : Bool :=
  (env.audit b k holder).toOption.getD false

/-- The object when its holders have been audited. -/
def audited (env : MaintainEnv) (b k : String) (r : RecordEntry) : Audit :=
  { bucket := b, key := k, record := r, left := []
    healthy := r.replicaHosts.filter (env.passes b k) }

/-- The hosts newly placed for it. -/
def placed (env : MaintainEnv) (repairPlan : RepairPlanner) (self : ReplicatedStore)
    (expiryHeight : Nat) (b k : String) (r : RecordEntry) : List String :=
  let plan := (env.audited b k r).plan repairPlan
  if 0 < plan.toPlace then
    match env.candidates b k with
    | .error _ | .ok [] => []
    | .ok (c :: cs) =>
      (env.replicate b k
        { cid := r.cid, bytesLen := r.bytesLen, rentPerGbHour := self.rentPerGbHour, expiryHeight
          n := plan.toPlace, caps := self.caps, candidates := c :: cs
          exclude := plan.exclude }).toOption.getD []
  else []

/-- The record after the pass. -/
def maintained (env : MaintainEnv) (repairPlan : RepairPlanner) (self : ReplicatedStore)
    (expiryHeight : Nat) (b k : String) (r : RecordEntry) : RecordEntry :=
  let updated := (env.audited b k r).updated (env.placed repairPlan self expiryHeight b k r)
  if updated = r.replicaHosts then r else { r with replicaHosts := updated, expiryHeight }

/-- What the record adds to the report. -/
def tally (env : MaintainEnv) (repairPlan : RepairPlanner) (self : ReplicatedStore)
    (expiryHeight : Nat) (b k : String) (r : RecordEntry) : MaintainReport :=
  { objectsChecked := 1
    objectsRepaired := if 0 < ((env.audited b k r).plan repairPlan).toPlace then 1 else 0
    replicasAdded := (env.placed repairPlan self expiryHeight b k r).length
    replicasUnhealthy := (r.replicaHosts.filter fun h => !env.passes b k h).length }

end MaintainEnv

namespace MaintainReport

theorem add_assoc (x y z : MaintainReport) : x + y + z = x + (y + z) := by
  show MaintainReport.mk _ _ _ _ = MaintainReport.mk _ _ _ _
  congr 1 <;> exact Nat.add_assoc _ _ _

theorem zero_add (x : MaintainReport) : {} + x = x := by
  show MaintainReport.mk _ _ _ _ = _
  cases x
  congr 1 <;> exact Nat.zero_add _

/-- A counter of a sum is the sum of the counters. -/
theorem sum_counter {α : Type} (counter : MaintainReport → Nat) (hzero : counter 0 = 0)
    (hadd : ∀ x y, counter (x + y) = counter x + counter y) (f : α → MaintainReport)
    (l : List α) : counter (l.map f).sum = (l.map fun a => counter (f a)).sum := by
  induction l with
  | nil => exact hzero
  | cons a l ih => rw [List.map_cons, List.sum_cons, hadd, ih, List.map_cons, List.sum_cons]

end MaintainReport

/-! ## One object -/

section
variable {env : MaintainEnv} {repairPlan : RepairPlanner} {self : ReplicatedStore} {pass : Pass}

/-- A pass gets there by itself, with these answers. -/
abbrev MaintainEnv.Goes (env : MaintainEnv) (repairPlan : RepairPlanner) :
    ReplicatedStore × Task → ReplicatedStore × Task → Prop :=
  Reach (env.fire repairPlan) (fun _ _ => True)

theorem goes_one {h h' : ReplicatedStore × Task} (hf : env.fire repairPlan () h = some h') :
    env.Goes repairPlan h h' := .next .start trivial hf

variable (env repairPlan self pass)

/-- One holder is audited. -/
theorem fire_audit {a : Audit} {holder : String} {left : List String}
    (ha : a.left = holder :: left) :
    env.fire repairPlan () (self, .audit pass a) = some
      (if env.passes a.bucket a.key holder then
        (self, .audit pass { a with left, healthy := a.healthy ++ [holder] })
      else (self, .audit { pass with report := pass.report + { replicasUnhealthy := 1 } }
        { a with left })) := by
  unfold MaintainEnv.fire MaintainEnv.passes
  simp only [MaintainEnv.answer, ha]
  cases hanswer : env.audit a.bucket a.key holder with
  | error e => simp [ReplicatedStore.resume, ha]; rfl
  | ok passed => cases passed <;> simp [ReplicatedStore.resume, ha] <;> rfl

theorem unhealthy_add_one (n : Nat) :
    ({ replicasUnhealthy := 1 } + { replicasUnhealthy := n } : MaintainReport)
      = { replicasUnhealthy := n + 1 } :=
  congrArg (fun u : Nat => ({ replicasUnhealthy := u } : MaintainReport)) (Nat.add_comm 1 n)

/-- The holders of an object are audited one after the other. -/
theorem goes_audits (b k : String) (r : RecordEntry) (left healthy : List String) :
    env.Goes repairPlan
      (self, .audit pass { bucket := b, key := k, record := r, left, healthy })
      (self, .audit
        { pass with report := pass.report +
            { replicasUnhealthy := (left.filter fun h => !env.passes b k h).length } }
        { bucket := b, key := k, record := r, left := []
          healthy := healthy ++ left.filter (env.passes b k) }) := by
  induction left generalizing pass healthy with
  | nil =>
    rw [List.filter_nil, List.filter_nil, List.append_nil]
    exact .start
  | cons holder left ih =>
    have hfire := fire_audit env repairPlan self pass
      (a := { bucket := b, key := k, record := r, left := holder :: left, healthy }) rfl
    refine (goes_one hfire).trans ?_
    by_cases hpass : env.passes b k holder = true
    · rw [if_pos hpass, List.filter_cons_of_pos hpass, List.filter_cons_of_neg (by simp [hpass])]
      have hrest := ih pass (healthy ++ [holder])
      rwa [List.append_assoc] at hrest
    · rw [if_neg hpass, List.filter_cons_of_neg hpass, List.filter_cons_of_pos (by simp [hpass])]
      have hrest := ih { pass with report := pass.report + { replicasUnhealthy := 1 } } healthy
      rwa [MaintainReport.add_assoc, unhealthy_add_one] at hrest

/-- The candidates for an object come in. -/
theorem fire_candidates {a : Audit} (plan : RepairPlan) :
    env.fire repairPlan () (self, .repairCandidates pass a plan)
      = match env.candidates a.bucket a.key with
        | .error _ | .ok [] => some (self.writeBack pass a [])
        | .ok (c :: cs) => some (self, .repairReplicate pass a plan (c :: cs)) := rfl

/-- The rest of the work on an object: the plan, the placement, and the record. -/
theorem goes_repair (b k : String) (r : RecordEntry) :
    env.Goes repairPlan (self, .audit pass (env.audited b k r))
      (self.writeBack
        { pass with report := pass.report +
            { env.tally repairPlan self pass.expiryHeight b k r with
              objectsChecked := 0, replicasUnhealthy := 0 } }
        (env.audited b k r) (env.placed repairPlan self pass.expiryHeight b k r)) := by
  by_cases hplan : 0 < ((env.audited b k r).plan repairPlan).toPlace
  · have hcall : env.fire repairPlan () (self, .audit pass (env.audited b k r)) = some
        (self, .repairCandidates
          { pass with report := pass.report + { objectsRepaired := 1 } } (env.audited b k r)
          ((env.audited b k r).plan repairPlan)) := if_pos hplan
    refine (goes_one hcall).trans ?_
    unfold MaintainEnv.tally MaintainEnv.placed
    simp only [if_pos hplan]
    have hanswered := fire_candidates env repairPlan self
      { pass with report := pass.report + { objectsRepaired := 1 } }
      (a := env.audited b k r) ((env.audited b k r).plan repairPlan)
    rw [show (env.audited b k r).bucket = b from rfl, show (env.audited b k r).key = k from rfl]
      at hanswered
    rcases hcandidates : env.candidates b k with e | _ | ⟨c, cs⟩
    · rw [hcandidates] at hanswered
      exact goes_one hanswered
    · rw [hcandidates] at hanswered
      exact goes_one hanswered
    · rw [hcandidates] at hanswered
      exact (goes_one hanswered).trans (goes_one rfl)
  · have hdone : env.fire repairPlan () (self, .audit pass (env.audited b k r)) = some
        (self.writeBack pass (env.audited b k r) []) := if_neg hplan
    have hplaced : env.placed repairPlan self pass.expiryHeight b k r = [] := if_neg hplan
    rw [hplaced]
    unfold MaintainEnv.tally
    rw [hplaced, if_neg hplan]
    exact goes_one hdone

/-- A pass takes an object from the loop over the objects back to it. -/
theorem goes_object {b k : String} {r : RecordEntry} {targets : List (String × String)}
    (hrec : self.index.getRecord b k = some r) (htargets : pass.targets = (b, k) :: targets) :
    env.Goes repairPlan (self, .each pass)
      (self.writeBack
        { pass with
          targets, report := pass.report + env.tally repairPlan self pass.expiryHeight b k r }
        (env.audited b k r) (env.placed repairPlan self pass.expiryHeight b k r)) := by
  have hbegin : env.fire repairPlan () (self, .each pass) = some (self, .audit
      { pass with targets, report := pass.report + { objectsChecked := 1 } }
      { bucket := b, key := k, record := r, left := r.replicaHosts, healthy := [] }) := by
    unfold MaintainEnv.fire
    simp only [MaintainEnv.answer, ReplicatedStore.resume, htargets, hrec]
    rfl
  exact (goes_one hbegin).trans ((goes_audits env repairPlan self _ b k r r.replicaHosts []).trans
    (goes_repair env repairPlan self _ b k r))

/-- The record is written back as `maintained` has it, and nothing else changes; the index
is to be saved if that is a change. -/
theorem writeBack_maintained {b k : String} {r : RecordEntry}
    (hrec : self.index.getRecord b k = some r) :
    ∃ (index : ReplicaIndex) (dirty : Bool),
      self.writeBack pass (env.audited b k r) (env.placed repairPlan self pass.expiryHeight b k r)
        = ({ self with index }, .each { pass with dirty }) ∧
      (dirty = true ↔
        pass.dirty = true ∨ env.maintained repairPlan self pass.expiryHeight b k r ≠ r) ∧
      index.policies = self.index.policies ∧
      ∀ b' k', index.getRecord b' k' = if b = b' ∧ k = k' then
          some (env.maintained repairPlan self pass.expiryHeight b k r)
        else self.index.getRecord b' k' := by
  by_cases hsame : (env.audited b k r).updated (env.placed repairPlan self pass.expiryHeight b k r)
      = r.replicaHosts
  · have hkept : env.maintained repairPlan self pass.expiryHeight b k r = r := if_pos hsame
    refine ⟨self.index, pass.dirty, writeBack_of_eq hsame, ?_, rfl, fun b' k' => ?_⟩
    · rw [hkept]
      simp
    rw [hkept, ← hrec]
    split
    next hbk => rw [hbk.1, hbk.2]
    next => rfl
  · have hchanged : env.maintained repairPlan self pass.expiryHeight b k r
        = { r with
            replicaHosts := (env.audited b k r).updated
              (env.placed repairPlan self pass.expiryHeight b k r)
            expiryHeight := pass.expiryHeight } := if_neg hsame
    have hne : env.maintained repairPlan self pass.expiryHeight b k r ≠ r := by
      rw [hchanged]
      exact fun heq => hsame (congrArg RecordEntry.replicaHosts heq)
    have hwritten : self.writeBack pass (env.audited b k r) _ = _ := writeBack_of_ne hrec hsame
    rw [hchanged] at hne ⊢
    refine ⟨_, true, hwritten, iff_of_true rfl (.inr hne), ReplicaIndex.policies_modifyRecord,
      fun b' k' => ?_⟩
    have hrecord := getRecord_writeBack pass (a := env.audited b k r) hrec hsame b' k'
    rwa [hwritten] at hrecord

/-! ## The whole pass -/

/-- What is at a target adds to the report. -/
def MaintainEnv.tallyAt (env : MaintainEnv) (repairPlan : RepairPlanner) (self : ReplicatedStore)
    (expiryHeight : Nat) (t : String × String) : MaintainReport :=
  ((self.index.getRecord t.1 t.2).map (env.tally repairPlan self expiryHeight t.1 t.2)).getD 0

/-- What the targets add is the first one's part and that of the others, whose records
are as they were. -/
theorem sum_tallyAt_cons {b k : String} {r : RecordEntry} {targets : List (String × String)}
    {index : ReplicaIndex} (height : Nat) (hrec : self.index.getRecord b k = some r)
    (hother : ∀ t ∈ targets, index.getRecord t.1 t.2 = self.index.getRecord t.1 t.2) :
    (((b, k) :: targets).map (env.tallyAt repairPlan self height)).sum
      = env.tally repairPlan self height b k r
        + (targets.map (env.tallyAt repairPlan { self with index } height)).sum := by
  have hhead : env.tallyAt repairPlan self height (b, k)
      = env.tally repairPlan self height b k r := by
    unfold MaintainEnv.tallyAt
    rw [hrec]
    rfl
  have hrest : ∀ t ∈ targets, env.tallyAt repairPlan self height t
      = env.tallyAt repairPlan { self with index } height t := by
    intro t ht
    unfold MaintainEnv.tallyAt
    rw [hother t ht]
    rfl
  rw [List.map_cons, List.sum_cons, hhead, List.map_congr_left hrest]

/-- The loop over the objects: each record that is left comes out as `maintained` has it,
and the index is to be saved if one of them changed. -/
theorem goes_targets (targets : List (String × String)) (hnodup : targets.Nodup)
    (hin : ∀ t ∈ targets, ∃ r, self.index.getRecord t.1 t.2 = some r)
    (htargets : pass.targets = targets) :
    ∃ (index : ReplicaIndex) (dirty : Bool),
      env.Goes repairPlan (self, .each pass) ({ self with index }, .each
        { pass with
          targets := [], dirty
          report := pass.report +
            (targets.map (env.tallyAt repairPlan self pass.expiryHeight)).sum }) ∧
      (dirty = true ↔ pass.dirty = true ∨
        ∃ t ∈ targets, index.getRecord t.1 t.2 ≠ self.index.getRecord t.1 t.2) ∧
      index.policies = self.index.policies ∧
      ∀ b k, index.getRecord b k = if (b, k) ∈ targets then
          (self.index.getRecord b k).map (env.maintained repairPlan self pass.expiryHeight b k)
        else self.index.getRecord b k := by
  induction targets generalizing self pass with
  | nil =>
    refine ⟨self.index, pass.dirty, ?_, by simp, rfl,
      fun b k => (if_neg List.not_mem_nil).symm⟩
    obtain ⟨_, expiryHeight, dirty, report⟩ := pass
    obtain rfl := htargets
    exact .start
  | cons t targets ih =>
    obtain ⟨b, k⟩ := t
    obtain ⟨r, hrec⟩ := hin _ List.mem_cons_self
    rw [List.nodup_cons] at hnodup
    obtain ⟨index₁, dirty₁, hwrite, hdirty₁, hpolicies₁, hrecord₁⟩ := writeBack_maintained env
      repairPlan self { pass with
        targets, report := pass.report + env.tally repairPlan self pass.expiryHeight b k r } hrec
    have hobject := goes_object env repairPlan self pass hrec htargets
    rw [hwrite] at hobject
    -- the records of the other targets are as they were
    have hother : ∀ t ∈ targets, index₁.getRecord t.1 t.2 = self.index.getRecord t.1 t.2 := by
      intro t ht
      rw [hrecord₁, if_neg]
      rintro ⟨rfl, rfl⟩
      exact hnodup.1 ht
    obtain ⟨index, dirty, hrest, hdirty, hpolicies, hrecord⟩ := ih { self with index := index₁ }
      { pass with
        targets, dirty := dirty₁
        report := pass.report + env.tally repairPlan self pass.expiryHeight b k r }
      hnodup.2 (fun t ht => by
        rw [hother t ht]
        exact hin t (List.mem_cons_of_mem _ ht)) rfl
    refine ⟨index, dirty, ?_, ?_, hpolicies.trans hpolicies₁, ?_⟩
    · rw [sum_tallyAt_cons env repairPlan self pass.expiryHeight hrec hother,
        ← MaintainReport.add_assoc]
      exact hobject.trans hrest
    · have hfirst : index.getRecord b k ≠ self.index.getRecord b k ↔
          env.maintained repairPlan self pass.expiryHeight b k r ≠ r := by
        rw [hrecord, if_neg hnodup.1, hrecord₁, if_pos ⟨rfl, rfl⟩, hrec, ne_eq, Option.some.injEq]
      have hothers : (∃ t ∈ targets, index.getRecord t.1 t.2 ≠ index₁.getRecord t.1 t.2) ↔
          ∃ t ∈ targets, index.getRecord t.1 t.2 ≠ self.index.getRecord t.1 t.2 :=
        exists_congr fun t => and_congr_right fun ht => by rw [hother t ht]
      rw [hdirty, List.exists_mem_cons_iff, hfirst, ← hothers, ← or_assoc]
      exact or_congr_left hdirty₁
    · intro b' k'
      rw [hrecord]
      by_cases htarget : (b', k') ∈ targets
      · rw [if_pos htarget, if_pos (List.mem_cons_of_mem _ htarget), hother _ htarget]
        rfl
      · rw [if_neg htarget, hrecord₁]
        by_cases hbk : b = b' ∧ k = k'
        · obtain ⟨rfl, rfl⟩ := hbk
          rw [if_pos ⟨rfl, rfl⟩, if_pos List.mem_cons_self, hrec]
          rfl
        · rw [if_neg hbk, if_neg]
          rw [List.mem_cons, Prod.mk.injEq, not_or]
          exact ⟨fun h => hbk ⟨h.1.symm, h.2.symm⟩, htarget⟩

end

/-! ## What is promised, and what comes out -/

/-- `ce_pin`'s planner asks for what is missing, and for none of the recorded holders. -/
structure PlansShortfall (repairPlan : RepairPlanner) : Prop where
  toPlace : ∀ replicas healthy factor,
    (repairPlan replicas healthy factor).toPlace = factor - healthy.length
  exclude : ∀ replicas healthy factor, ∀ r ∈ replicas,
    r.holder ∈ (repairPlan replicas healthy factor).exclude

/-- `replicate` answers distinct hosts, and none that it was told to leave out. -/
def MaintainEnv.PlacesApart (env : MaintainEnv) : Prop :=
  ∀ b k call hosts, env.replicate b k call = .ok hosts →
    hosts.Nodup ∧ ∀ h ∈ hosts, h ∉ call.exclude

/-- What a pass that places `placed` for an object makes of its record. -/
structure RepairedExactly (env : MaintainEnv) (b k : String) (placed : List String)
    (r r' : RecordEntry) : Prop where
  hosts : r'.replicaHosts = r.replicaHosts.filter (env.passes b k) ++ placed
  nodup : r'.replicaHosts.Nodup
  failed : ∀ h ∈ r.replicaHosts, env.audit b k h ≠ .ok true → h ∉ r'.replicaHosts
  cid : r'.cid = r.cid
  bytesLen : r'.bytesLen = r.bytesLen
  replicationFactor : r'.replicationFactor = r.replicationFactor
  kept : (∀ h ∈ r.replicaHosts, env.audit b k h = .ok true) → placed = [] → r' = r

section
variable {env : MaintainEnv} {repairPlan : RepairPlanner} {self : ReplicatedStore} {b k : String}
  {r : RecordEntry} {height : Nat}

theorem passes_iff {holder : String} :
    env.passes b k holder = true ↔ env.audit b k holder = .ok true := by
  unfold MaintainEnv.passes
  cases env.audit b k holder with
  | error e => simp [Except.toOption]
  | ok passed => simp [Except.toOption]

/-- New hosts that are none of the healthy holders go behind them. -/
theorem updated_eq {a : Audit} {newHosts : List String} (hnodup : newHosts.Nodup)
    (hnew : ∀ h ∈ newHosts, h ∉ a.healthy) : a.updated newHosts = a.healthy ++ newHosts := by
  unfold Audit.updated
  induction newHosts generalizing a with
  | nil => exact (List.append_nil _).symm
  | cons h hs ih =>
    rw [List.forall_mem_cons] at hnew
    rw [List.nodup_cons] at hnodup
    have hfresh : ¬ a.healthy.contains h = true := by
      rw [List.contains_iff_mem]
      exact hnew.1
    have hrest := ih (a := { a with healthy := a.healthy ++ [h] }) hnodup.2 fun h' hh' => by
      rw [List.mem_append, List.mem_singleton, not_or]
      refine ⟨hnew.2 h' hh', ?_⟩
      rintro rfl
      exact hnodup.1 hh'
    rw [List.foldl_cons, if_neg hfresh, hrest, List.append_assoc]
    rfl

/-- What is placed was not recorded before, and nothing is placed twice. -/
theorem placed_apart (self : ReplicatedStore) (b k : String) (r : RecordEntry) (height : Nat)
    (hplan : PlansShortfall repairPlan) (henv : env.PlacesApart) :
    (env.placed repairPlan self height b k r).Nodup ∧
      ∀ h ∈ env.placed repairPlan self height b k r, h ∉ r.replicaHosts := by
  have hnone : ([] : List String).Nodup ∧ ∀ h ∈ [], h ∉ r.replicaHosts :=
    ⟨List.nodup_nil, fun _ h => absurd h List.not_mem_nil⟩
  unfold MaintainEnv.placed
  dsimp only
  split
  · split
    · exact hnone
    · exact hnone
    next c cs hcandidates =>
      generalize hcall : ReplicateCall.mk _ _ _ _ _ _ _ _ = call
      cases hanswer : env.replicate b k call with
      | error e => exact hnone
      | ok hosts =>
        obtain ⟨hnodup, hout⟩ := henv b k call hosts hanswer
        refine ⟨hnodup, fun h hh hrecorded => hout h hh ?_⟩
        rw [← hcall]
        exact hplan.exclude _ _ _ _ (List.mem_map_of_mem hrecorded)
  · exact hnone

theorem maintained_repaired (hplan : PlansShortfall repairPlan) (henv : env.PlacesApart)
    (hdistinct : r.replicaHosts.Nodup) :
    RepairedExactly env b k (env.placed repairPlan self height b k r) r
      (env.maintained repairPlan self height b k r) := by
  obtain ⟨hnodup, hnew⟩ := placed_apart self b k r height hplan henv
  have hupdated : (env.audited b k r).updated (env.placed repairPlan self height b k r)
      = r.replicaHosts.filter (env.passes b k) ++ env.placed repairPlan self height b k r :=
    updated_eq hnodup fun h hh hin => hnew h hh (List.mem_filter.mp hin).1
  have hhosts : (env.maintained repairPlan self height b k r).replicaHosts
      = r.replicaHosts.filter (env.passes b k) ++ env.placed repairPlan self height b k r := by
    rw [← hupdated]
    unfold MaintainEnv.maintained
    dsimp only
    split
    next hsame => exact hsame.symm
    next => rfl
  constructor
  case hosts => exact hhosts
  case nodup =>
    rw [hhosts]
    refine List.nodup_append.mpr ⟨hdistinct.filter _, hnodup, fun h hh h' hh' => ?_⟩
    rintro rfl
    exact hnew h hh' (List.mem_filter.mp hh).1
  case failed =>
    intro h hrecorded hfailed hin
    rw [hhosts, List.mem_append] at hin
    rcases hin with hin | hin
    · exact hfailed (passes_iff.mp (List.mem_filter.mp hin).2)
    · exact hnew h hin hrecorded
  case kept =>
    intro hall hnothing
    have hsame : (env.audited b k r).updated (env.placed repairPlan self height b k r)
        = r.replicaHosts := by
      rw [hupdated, hnothing, List.append_nil]
      exact List.filter_eq_self.mpr fun h hh => passes_iff.mpr (hall h hh)
    exact if_pos hsame
  all_goals
    unfold MaintainEnv.maintained
    dsimp only
    split <;> rfl

/-- A counter of the report is the total of what each record adds to it. -/
theorem counter_tallies (env : MaintainEnv) (repairPlan : RepairPlanner) (self : ReplicatedStore)
    (height : Nat) (counter : MaintainReport → Nat) (hzero : counter 0 = 0)
    (hadd : ∀ x y, counter (x + y) = counter x + counter y) :
    counter (self.index.allRecords.map (env.tallyAt repairPlan self height)).sum
      = self.index.total fun b k r => counter (env.tally repairPlan self height b k r) := by
  rw [MaintainReport.sum_counter counter hzero hadd]
  unfold ReplicaIndex.total
  refine congrArg List.sum (List.map_congr_left fun t _ => ?_)
  unfold MaintainEnv.tallyAt
  cases self.index.getRecord t.1 t.2 with
  | none => exact hzero
  | some r => rfl

/-- An object is repaired if fewer holders passed than it should have. -/
theorem repaired_of_plan (hplan : PlansShortfall repairPlan) :
    (env.tally repairPlan self height b k r).objectsRepaired
      = if (r.replicaHosts.filter (env.passes b k)).length < r.replicationFactor then 1 else 0 := by
  unfold MaintainEnv.tally Audit.plan
  dsimp only
  rw [hplan.toPlace]
  exact if_congr Nat.sub_pos_iff_lt rfl rfl

end

/-- **A pass of `maintain` comes to its end, whatever is answered. It leaves each record
with the holders that passed, in their old order, and those newly placed, none of them
twice and none that failed; what else a record has stays, and so does a record whose
holders all passed and that got no new one. The policies stay, and the four counters are
the totals over all records. The pass goes on to save the index if a record changed.** -/
theorem maintain_repairs (repairPlan : RepairPlanner) (env : MaintainEnv) (self : ReplicatedStore)
    (hplan : PlansShortfall repairPlan) (henv : env.PlacesApart)
    (hdistinct : ∀ b k r, self.index.getRecord b k = some r → r.replicaHosts.Nodup) :
    ∃ (index : ReplicaIndex) (pass : Pass),
      env.Goes repairPlan (self, .maintainTip self.index.allRecords)
        ({ self with index }, .each pass) ∧
      env.fire repairPlan () ({ self with index }, .each pass)
        = some ({ self with index }, if pass.dirty then .maintainSave pass else .idle) ∧
      (pass.dirty = true ↔ ∃ b k, index.getRecord b k ≠ self.index.getRecord b k) ∧
      index.policies = self.index.policies ∧
      (∀ b k, self.index.getRecord b k = none → index.getRecord b k = none) ∧
      (∀ b k r, self.index.getRecord b k = some r →
        ∃ r', index.getRecord b k = some r' ∧
          RepairedExactly env b k
            (env.placed repairPlan self (self.leaseExpiryHeight env.tip) b k r) r r') ∧
      pass.report.objectsChecked = self.index.total (fun _ _ _ => 1) ∧
      pass.report.replicasUnhealthy = self.index.total (fun b k r =>
        (r.replicaHosts.filter fun h => !env.passes b k h).length) ∧
      pass.report.objectsRepaired = self.index.total (fun b k r =>
        if (r.replicaHosts.filter (env.passes b k)).length < r.replicationFactor then 1 else 0) ∧
      pass.report.replicasAdded = self.index.total (fun b k r =>
        (env.placed repairPlan self (self.leaseExpiryHeight env.tip) b k r).length) := by
  have hbegin : env.fire repairPlan () (self, .maintainTip self.index.allRecords) = some
      (self, .each
        { targets := self.index.allRecords, expiryHeight := self.leaseExpiryHeight env.tip
          dirty := false, report := {} }) := rfl
  obtain ⟨index, dirty, hgoes, hdirty, hpolicies, hrecord⟩ := goes_targets env repairPlan self
    { targets := self.index.allRecords, expiryHeight := self.leaseExpiryHeight env.tip
      dirty := false, report := {} } self.index.allRecords
    (ReplicaIndex.nodup_allRecords _) (fun t ht => ReplicaIndex.mem_allRecords.mp ht) rfl
  rw [MaintainReport.zero_add] at hgoes
  have hnone : ∀ b k, self.index.getRecord b k = none → index.getRecord b k = none := by
    intro b k hnone
    rw [hrecord, hnone]
    exact ite_self _
  refine ⟨index, _, (goes_one hbegin).trans hgoes, rfl, ?_, hpolicies, hnone, ?_, ?_, ?_, ?_, ?_⟩
  · rw [hdirty]
    constructor
    · intro h
      rcases h with hfalse | ⟨t, -, hne⟩
      · cases hfalse
      · exact ⟨t.1, t.2, hne⟩
    · intro h
      obtain ⟨b, k, hne⟩ := h
      -- a record that changed was one before, and so one of the targets
      cases hr : self.index.getRecord b k with
      | none => exact absurd ((hnone b k hr).trans hr.symm) hne
      | some r => exact .inr ⟨(b, k), ReplicaIndex.mem_allRecords.mpr ⟨r, hr⟩, hne⟩
  · intro b k r hr
    rw [hrecord, if_pos (ReplicaIndex.mem_allRecords.mpr ⟨r, hr⟩), hr]
    exact ⟨_, rfl, maintained_repaired hplan henv (hdistinct b k r hr)⟩
  · exact counter_tallies env repairPlan self _ MaintainReport.objectsChecked rfl fun _ _ => rfl
  · exact counter_tallies env repairPlan self _ MaintainReport.replicasUnhealthy rfl fun _ _ => rfl
  · have htotal := counter_tallies env repairPlan self (self.leaseExpiryHeight env.tip)
      MaintainReport.objectsRepaired rfl fun _ _ => rfl
    simpa only [repaired_of_plan hplan] using htotal
  · exact counter_tallies env repairPlan self _ MaintainReport.replicasAdded rfl fun _ _ => rfl

/-- `repair_plan`, as it is documented. -/
def planMissing : RepairPlanner := fun replicas healthy factor =>
  { toPlace := factor - healthy.length, exclude := replicas.map (·.holder) }

/-- Holder `a` passes, the others cannot be asked, and `c` takes what it is offered. -/
def partlyDown : MaintainEnv where
  tip := some 7
  audit _ _ holder := if holder = "a" then .ok true else .error "unreachable"
  candidates _ _ := .ok ["c"]
  replicate _ _ call := .ok (if "c" ∈ call.exclude then [] else ["c"])

/-- A handle with one record, that `a` and `b` hold. -/
def oneRecord : ReplicatedStore where
  store := Store.fresh 0
  index := ReplicaIndex.empty.putRecord "photos" "cat"
    { cid := "x", bytesLen := 1, replicationFactor := 2, replicaHosts := ["a", "b"]
      expiryHeight := 3 }
  caps := ""
  defaultFactor := 2
  rentPerGbHour := "0"
  leaseBlocks := 10

theorem maintain_repairs_partlyDown :
    ∃ (index : ReplicaIndex) (pass : Pass),
      partlyDown.Goes planMissing (oneRecord, .maintainTip oneRecord.index.allRecords)
        ({ oneRecord with index }, .each pass) ∧
      (∃ r, index.getRecord "photos" "cat" = some r ∧ r.replicaHosts = ["a", "c"]) ∧
      pass.dirty = true ∧ pass.report.replicasUnhealthy = 1 ∧ pass.report.objectsRepaired = 1 := by
  have hplan : PlansShortfall planMissing :=
    ⟨fun _ _ _ => rfl, fun _ _ _ _ hr => List.mem_map_of_mem hr⟩
  have henv : partlyDown.PlacesApart := by
    intro b k call hosts h
    obtain rfl := Except.ok.inj h
    split
    next => simp
    next hc => simp [hc]
  have hrecord : oneRecord.index.getRecord "photos" "cat" = some
      { cid := "x", bytesLen := 1, replicationFactor := 2, replicaHosts := ["a", "b"]
        expiryHeight := 3 } := by decide +kernel
  have hdistinct : ∀ b k r, oneRecord.index.getRecord b k = some r → r.replicaHosts.Nodup := by
    intro b k r hr
    rw [show oneRecord.index.getRecord b k = _ from ReplicaIndex.getRecord_putRecord] at hr
    split at hr
    · obtain rfl := Option.some.inj hr
      decide
    · exact nomatch hr
  obtain ⟨index, pass, hgoes, -, hdirty, -, -, hrepaired, -, hunhealthy, hrepairs, -⟩ :=
    maintain_repairs planMissing partlyDown oneRecord hplan henv hdistinct
  obtain ⟨r, hr, hexact⟩ := hrepaired _ _ _ hrecord
  have hhosts : r.replicaHosts = ["a", "c"] := by
    rw [hexact.hosts]
    decide +kernel
  refine ⟨index, pass, hgoes, ⟨r, hr, hhosts⟩, hdirty.mpr ⟨"photos", "cat", ?_⟩, ?_, ?_⟩
  · rw [hr, hrecord]
    intro heq
    rw [Option.some.inj heq] at hhosts
    exact absurd hhosts (by decide)
  · rw [hunhealthy]
    decide +kernel
  · rw [hrepairs]
    decide +kernel

end CeStorage
