import CeStorage.Lib.Maps
import CeStorage.Lib.Str

/-!
# The replica index (`replicated/index.rs`)

`bucket/key -> {cid, holders, expiry}`, and the replication policy of each bucket. An
index is read through `getRecord` and `policies`; the lemmas say what each change
leaves of both.
-/

namespace CeStorage

open Lib
open Std (ExtTreeMap)

/-- Per-bucket replication policy. -/
structure BucketPolicy where
  replicationFactor : Nat
  deriving DecidableEq

/-- A policy with the given factor, at least 1. -/
def BucketPolicy.withFactor (factor : Nat) : BucketPolicy := { replicationFactor := max factor 1 }

/-- One tracked object. -/
structure RecordEntry where
  cid : String
  bytesLen : Nat
  replicationFactor : Nat
  replicaHosts : List String
  /-- The height after which rent is no longer guaranteed. -/
  expiryHeight : Nat
  deriving DecidableEq

structure ReplicaIndex where
  policies : ExtTreeMap String BucketPolicy
  records : ExtTreeMap String (ExtTreeMap String RecordEntry)

namespace ReplicaIndex

/-- `ReplicaIndex::default`. -/
def empty : ReplicaIndex := { policies := ∅, records := ∅ }

/-- What `load` makes of the file, if it can be read and parsed. -/
def loadFrom (file : Option ReplicaIndex) : ReplicaIndex := file.getD empty

def setPolicy (self : ReplicaIndex) (bucket : String) (policy : BucketPolicy) : ReplicaIndex :=
  { self with policies := self.policies.insert bucket policy }

/-- The effective replication factor of a bucket. -/
def factorFor (self : ReplicaIndex) (bucket : String) (defaultFactor : Nat) : Nat :=
  max ((self.policies[bucket]?.map (·.replicationFactor)).getD defaultFactor) 1

/-- Bind or refresh a record. -/
def putRecord (self : ReplicaIndex) (bucket key : String) (entry : RecordEntry) : ReplicaIndex :=
  { self with
    records := self.records.insert bucket ((self.records.getD bucket ∅).insert key entry) }

def getRecord (self : ReplicaIndex) (bucket key : String) : Option RecordEntry :=
  self.records[bucket]?.bind fun b => b[key]?

/-- `get_record_mut`, and a change of the record it finds. -/
def modifyRecord (self : ReplicaIndex) (bucket key : String) (f : RecordEntry → RecordEntry) :
    ReplicaIndex :=
  match self.getRecord bucket key with
  | some e => self.putRecord bucket key (f e)
  | none => self

/-- Every tracked `(bucket, key)` pair, sorted. -/
def allRecords (self : ReplicaIndex) : List (String × String) :=
  self.records.toList.flatMap fun p => p.2.keys.map fun key => (p.1, key)

variable {self : ReplicaIndex} {bucket key b k : String} {entry : RecordEntry}
  {policy : BucketPolicy}

@[simp] theorem getRecord_empty : empty.getRecord b k = none := rfl

@[simp] theorem getRecord_setPolicy :
    (self.setPolicy bucket policy).getRecord b k = self.getRecord b k := rfl

@[simp] theorem policies_putRecord : (self.putRecord bucket key entry).policies = self.policies :=
  rfl

theorem policies_setPolicy :
    (self.setPolicy bucket policy).policies[b]?
      = if bucket = b then some policy else self.policies[b]? := get_insert

theorem getRecord_putRecord :
    (self.putRecord bucket key entry).getRecord b k
      = if bucket = b ∧ key = k then some entry else self.getRecord b k := by
  unfold putRecord getRecord
  dsimp only
  rw [get_insert]
  by_cases hb : bucket = b
  · subst hb
    rw [if_pos rfl, Option.bind_some, get_insert]
    by_cases hk : key = k
    · rw [if_pos hk, if_pos ⟨rfl, hk⟩]
    · rw [if_neg hk, if_neg fun h => hk h.2]
      cases h : self.records[bucket]? with
      | none => simp [ExtTreeMap.getD_eq_getD_getElem?, h]
      | some m => simp [ExtTreeMap.getD_eq_getD_getElem?, h]
  · rw [if_neg hb, if_neg fun h => hb h.1]

theorem getRecord_modifyRecord {f : RecordEntry → RecordEntry} :
    (self.modifyRecord bucket key f).getRecord b k
      = if bucket = b ∧ key = k then (self.getRecord b k).map f else self.getRecord b k := by
  unfold modifyRecord
  cases h : self.getRecord bucket key with
  | none =>
    dsimp only
    split
    next hbk =>
      rw [← hbk.1, ← hbk.2, h]
      rfl
    next => rfl
  | some e =>
    rw [getRecord_putRecord]
    split
    next hbk =>
      rw [← hbk.1, ← hbk.2, h]
      rfl
    next => rfl

theorem policies_modifyRecord {f : RecordEntry → RecordEntry} :
    (self.modifyRecord bucket key f).policies = self.policies := by
  unfold modifyRecord
  cases self.getRecord bucket key <;> rfl

end ReplicaIndex

end CeStorage
