import CeStorage.Persisted
import CeStorage.Replicated.Index

/-!
# The replica index as JSON (`replicated/index.rs`)

How the replica index is written and read. The crate that wrote it first did not
yet write the holders and the expiry height of a record, nor the policies of an
index without any; such a file is read too.
-/

namespace CeStorage

open Lib
open Json
open Std (ExtTreeMap)

/-! ## Encoders and decoders -/

def BucketPolicy.toJson (p : BucketPolicy) : Json :=
  object [("replication_factor", unsigned p.replicationFactor)]

def RecordEntry.toJson (r : RecordEntry) : Json :=
  object [("cid", string r.cid), ("bytes_len", unsigned r.bytesLen),
    ("replication_factor", unsigned r.replicationFactor),
    ("replica_hosts", ofList string r.replicaHosts), ("expiry_height", unsigned r.expiryHeight)]

def ReplicaIndex.toJson (i : ReplicaIndex) : Json :=
  object [("policies", ofMap id BucketPolicy.toJson i.policies),
    ("records", ofMap id (ofMap id RecordEntry.toJson) i.records)]

def u8 : Json → Option Nat := asUnsigned (2 ^ 8)

def BucketPolicy.ofJson : Json → Option BucketPolicy :=
  asStruct ["replication_factor"] fun fields => do
    let replicationFactor ← required fields "replication_factor" u8
    return { replicationFactor }

def RecordEntry.ofJson : Json → Option RecordEntry :=
  asStruct ["cid", "bytes_len", "replication_factor", "replica_hosts",
      "expiry_height"] fun fields => do
    let cid ← required fields "cid" asString
    let bytesLen ← required fields "bytes_len" u64
    let replicationFactor ← required fields "replication_factor" u8
    let replicaHosts ← defaulted fields "replica_hosts" (asList asString) []
    let expiryHeight ← defaulted fields "expiry_height" u64 0
    return { cid, bytesLen, replicationFactor, replicaHosts, expiryHeight }

def ReplicaIndex.ofJson : Json → Option ReplicaIndex :=
  asStruct ["policies", "records"] fun fields => do
    let policies ← defaulted fields "policies" (asMap some BucketPolicy.ofJson) ∅
    let records ← defaulted fields "records" (asMap some (asMap some RecordEntry.ofJson)) ∅
    return { policies, records }

/-! ## The shape of the file -/

def PolicyShape (j : Json) (p : BucketPolicy) : Prop :=
  ∃ fields, j = object fields ∧
    Has fields "replication_factor" (UnsignedShape (2 ^ 8)) p.replicationFactor

/-- The fields of a record; the last two may be absent. -/
structure RecordFields (fields : List (String × Json)) (r : RecordEntry) : Prop where
  cid : Has fields "cid" StringShape r.cid
  bytesLen : Has fields "bytes_len" (UnsignedShape (2 ^ 64)) r.bytesLen
  replicationFactor : Has fields "replication_factor" (UnsignedShape (2 ^ 8)) r.replicationFactor
  replicaHosts : HasOr fields "replica_hosts" (ListShape StringShape) [] r.replicaHosts
  expiryHeight : HasOr fields "expiry_height" (UnsignedShape (2 ^ 64)) 0 r.expiryHeight

def RecordShape (j : Json) (r : RecordEntry) : Prop :=
  ∃ fields, j = object fields ∧ RecordFields fields r

def ReplicasShape (j : Json) (i : ReplicaIndex) : Prop :=
  ∃ fields, j = object fields ∧
    HasOr fields "policies" (MapShape StringKey PolicyShape) ∅ i.policies ∧
    HasOr fields "records" (MapShape StringKey (MapShape StringKey RecordShape)) ∅ i.records

theorem reads_policy : Reads BucketPolicy.ofJson PolicyShape := by
  rintro j p ⟨fields, rfl, hfactor⟩
  simp only [BucketPolicy.ofJson, asStruct_object, u8, required_eq (reads_unsigned _) hfactor]
  rfl

theorem reads_record : Reads RecordEntry.ofJson RecordShape := by
  rintro j r ⟨fields, rfl, h⟩
  simp only [RecordEntry.ofJson, asStruct_object, u8, u64, required_eq reads_string h.cid,
    required_eq (reads_unsigned _) h.bytesLen, required_eq (reads_unsigned _) h.replicationFactor,
    defaulted_eq reads_string.list h.replicaHosts, defaulted_eq (reads_unsigned _) h.expiryHeight]
  rfl

theorem reads_replicas : Reads ReplicaIndex.ofJson ReplicasShape := by
  rintro j i ⟨fields, rfl, hpolicies, hrecords⟩
  have hmap := (reads_record.map reads_stringKey).map reads_stringKey
  simp only [ReplicaIndex.ofJson, asStruct_object,
    defaulted_eq (reads_policy.map reads_stringKey) hpolicies, defaulted_eq hmap hrecords]
  rfl

/-! ## What is written has the shape -/

def BucketPolicy.Fits (p : BucketPolicy) : Prop := p.replicationFactor < 2 ^ 8

structure RecordEntry.Fits (r : RecordEntry) : Prop where
  bytesLen : r.bytesLen < 2 ^ 64
  replicationFactor : r.replicationFactor < 2 ^ 8
  expiryHeight : r.expiryHeight < 2 ^ 64

/-- The factors are `u8`, the lengths and heights `u64`. -/
structure ReplicaIndex.Fits (i : ReplicaIndex) : Prop where
  policies : ∀ (b : String) (p : BucketPolicy), i.policies[b]? = some p → p.Fits
  records : ∀ (b : String) (keys : ExtTreeMap String RecordEntry), i.records[b]? = some keys →
    ∀ (k : String) (r : RecordEntry), keys[k]? = some r → r.Fits

theorem writes_policy : Writes BucketPolicy.toJson BucketPolicy.Fits PolicyShape :=
  fun _ h => ⟨_, rfl, _, by simp, rfl, h⟩

theorem writes_record : Writes RecordEntry.toJson RecordEntry.Fits RecordShape := by
  intro r h
  refine ⟨_, rfl, ?_⟩
  constructor
  case cid => exact ⟨_, by simp, rfl⟩
  case bytesLen => exact ⟨_, by simp, rfl, h.bytesLen⟩
  case replicationFactor => exact ⟨_, by simp, rfl, h.replicationFactor⟩
  case replicaHosts =>
    exact .inl ⟨_, by simp, writes_string.list r.replicaHosts fun _ _ => trivial⟩
  case expiryHeight => exact .inl ⟨_, by simp, rfl, h.expiryHeight⟩

theorem writes_replicas : Writes ReplicaIndex.toJson ReplicaIndex.Fits ReplicasShape := by
  intro i h
  have hkeys : Writes (ofMap id RecordEntry.toJson)
      (fun keys : ExtTreeMap String RecordEntry =>
        ∀ (k : String) (r : RecordEntry), keys[k]? = some r → r.Fits)
      (MapShape StringKey RecordShape) :=
    fun keys hfits => writes_record.map Function.injective_id fun k r hk => ⟨rfl, hfits k r hk⟩
  have hpolicies : MapShape StringKey PolicyShape (ofMap id BucketPolicy.toJson i.policies)
      i.policies :=
    writes_policy.map Function.injective_id fun b p hb => ⟨rfl, h.policies b p hb⟩
  have hrecords := hkeys.map Function.injective_id (m := i.records) (K := StringKey)
    fun b keys hb => ⟨rfl, h.records b keys hb⟩
  exact ⟨_, rfl, .inl ⟨_, by simp, hpolicies⟩, .inl ⟨_, by simp, hrecords⟩⟩

end CeStorage
