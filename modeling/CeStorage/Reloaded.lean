import CeStorage.Replicated.Persisted

/-!
# Files that were loaded

A decoder takes only numbers that fit their types, so an index, the uploads in
flight or a replica index that a file was taken for can be written again. However
old the file and in whatever mix of shapes: what is loaded, saved and loaded again
is what was loaded the first time (`reloaded_stable`).
-/

namespace CeStorage

open Lib
open Json
open Std (ExtTreeMap)

theorem takes_u32 : Takes u32 (· < 2 ^ 32) := takes_unsigned _

theorem takes_u64 : Takes u64 (· < 2 ^ 64) := takes_unsigned _

/-- A map from strings. -/
theorem takes_names {α : Type} {decode : Json → Option α} {Fits : α → Prop}
    (h : Takes decode Fits) : Takes (asMap some decode)
      fun m : ExtTreeMap String α => ∀ (k : String) (v : α), m[k]? = some v → Fits v := by
  have hmap : Takes (asMap some decode) fun m : ExtTreeMap String α =>
      ∀ (k : String) (v : α), m[k]? = some v → True ∧ Fits v := h.map fun _ _ _ => trivial
  exact hmap.mono fun m hm k v hk => (hm k v hk).2

theorem empty_names {α : Type} (Fits : α → Prop) (k : String) (v : α)
    (h : (∅ : ExtTreeMap String α)[k]? = some v) : Fits v := by
  rw [ExtTreeMap.getElem?_empty] at h
  exact nomatch h

/-! ## The index -/

theorem takes_meta : Takes ObjectMeta.ofJson ObjectMeta.Fits := by
  refine takes_struct fun fields m h => ?_
  obtain ⟨cid, -, h⟩ := Option.bind_eq_some_iff.mp h
  obtain ⟨size, hsize, h⟩ := Option.bind_eq_some_iff.mp h
  obtain ⟨etag, -, h⟩ := Option.bind_eq_some_iff.mp h
  obtain ⟨contentType, -, h⟩ := Option.bind_eq_some_iff.mp h
  obtain ⟨lastModified, htime, h⟩ := Option.bind_eq_some_iff.mp h
  obtain ⟨versionId, -, h⟩ := Option.bind_eq_some_iff.mp h
  obtain ⟨metadata, -, h⟩ := Option.bind_eq_some_iff.mp h
  obtain ⟨cacheControl, -, h⟩ := Option.bind_eq_some_iff.mp h
  obtain ⟨contentDisposition, -, h⟩ := Option.bind_eq_some_iff.mp h
  obtain ⟨contentEncoding, -, h⟩ := Option.bind_eq_some_iff.mp h
  cases h
  exact ⟨takes_u64.required hsize, takes_u64.required htime⟩

theorem takes_version : Takes ObjectVersion.ofJson ObjectVersion.Fits := by
  refine takes_struct fun fields v h => ?_
  obtain ⟨m, hmeta, h⟩ := Option.bind_eq_some_iff.mp h
  obtain ⟨marker, -, h⟩ := Option.bind_eq_some_iff.mp h
  cases h
  exact takes_meta.required hmeta

theorem takes_versions : Takes ObjectEntry.ofVersions ObjectEntry.Fits := by
  refine takes_object fun fields e h => ?_
  obtain ⟨versions, hversions, h⟩ := Option.bind_eq_some_iff.mp h
  cases h
  exact takes_version.list.required hversions

theorem takes_entry : Takes ObjectEntry.ofJson ObjectEntry.Fits := by
  intro j e h
  unfold ObjectEntry.ofJson at h
  cases hv : ObjectEntry.ofVersions j with
  | some e' =>
    rw [hv] at h
    cases h
    exact takes_versions j e hv
  | none =>
    rw [hv] at h
    obtain ⟨m, hm, rfl⟩ := Option.map_eq_some_iff.mp h
    intro v hv
    cases List.mem_singleton.mp hv
    exact takes_meta j m hm

theorem takes_rule : Takes LifecycleRule.ofJson LifecycleRule.Fits := by
  refine takes_struct fun fields r h => ?_
  obtain ⟨keyPrefix, -, h⟩ := Option.bind_eq_some_iff.mp h
  obtain ⟨secs, hsecs, h⟩ := Option.bind_eq_some_iff.mp h
  cases h
  exact takes_u64.required hsecs

theorem takes_bucket : Takes Bucket.ofJson Bucket.Fits := by
  refine takes_struct fun fields b h => ?_
  obtain ⟨created, hcreated, h⟩ := Option.bind_eq_some_iff.mp h
  obtain ⟨versioning, -, h⟩ := Option.bind_eq_some_iff.mp h
  obtain ⟨lifecycle, hrules, h⟩ := Option.bind_eq_some_iff.mp h
  obtain ⟨objects, hobjects, h⟩ := Option.bind_eq_some_iff.mp h
  cases h
  have hnil : ∀ r ∈ ([] : List LifecycleRule), r.Fits := nofun
  exact ⟨takes_u64.required hcreated, takes_rule.list.defaulted hnil hrules,
    (takes_names takes_entry).required hobjects⟩

theorem takes_index : Takes Index.ofJson Index.Fits := by
  refine takes_struct fun fields i h => ?_
  obtain ⟨schema, hschema, h⟩ := Option.bind_eq_some_iff.mp h
  obtain ⟨buckets, hbuckets, h⟩ := Option.bind_eq_some_iff.mp h
  cases h
  exact ⟨takes_u32.defaulted (by decide) hschema, (takes_names takes_bucket).required hbuckets⟩

/-! ## The uploads in flight -/

theorem takes_part : Takes Part.ofJson Part.Fits := by
  refine takes_struct fun fields p h => ?_
  obtain ⟨partNumber, hnumber, h⟩ := Option.bind_eq_some_iff.mp h
  obtain ⟨etag, -, h⟩ := Option.bind_eq_some_iff.mp h
  obtain ⟨size, hsize, h⟩ := Option.bind_eq_some_iff.mp h
  obtain ⟨chunkCids, -, h⟩ := Option.bind_eq_some_iff.mp h
  cases h
  exact ⟨takes_u32.required hnumber, takes_u64.required hsize⟩

theorem takes_upload : Takes Upload.ofJson Upload.Fits := by
  refine takes_struct fun fields u h => ?_
  obtain ⟨bucket, -, h⟩ := Option.bind_eq_some_iff.mp h
  obtain ⟨key, -, h⟩ := Option.bind_eq_some_iff.mp h
  obtain ⟨partChunk, hchunk, h⟩ := Option.bind_eq_some_iff.mp h
  obtain ⟨contentType, -, h⟩ := Option.bind_eq_some_iff.mp h
  obtain ⟨metadata, -, h⟩ := Option.bind_eq_some_iff.mp h
  obtain ⟨created, hcreated, h⟩ := Option.bind_eq_some_iff.mp h
  obtain ⟨parts, hparts, h⟩ := Option.bind_eq_some_iff.mp h
  cases h
  exact ⟨takes_u64.required hchunk, takes_u64.required hcreated,
    (takes_part.map fun _ _ => takes_unsignedKey).required hparts⟩

theorem takes_multipart : Takes MultipartState.ofJson MultipartState.Fits := by
  refine takes_struct fun fields s h => ?_
  obtain ⟨schema, hschema, h⟩ := Option.bind_eq_some_iff.mp h
  obtain ⟨uploads, huploads, h⟩ := Option.bind_eq_some_iff.mp h
  cases h
  exact ⟨takes_u32.defaulted (by decide) hschema, (takes_names takes_upload).required huploads⟩

/-! ## The replica index -/

theorem takes_policy : Takes BucketPolicy.ofJson BucketPolicy.Fits := by
  refine takes_struct fun fields p h => ?_
  obtain ⟨factor, hfactor, h⟩ := Option.bind_eq_some_iff.mp h
  cases h
  exact (takes_unsigned (2 ^ 8)).required hfactor

theorem takes_record : Takes RecordEntry.ofJson RecordEntry.Fits := by
  refine takes_struct fun fields r h => ?_
  obtain ⟨cid, -, h⟩ := Option.bind_eq_some_iff.mp h
  obtain ⟨bytesLen, hbytes, h⟩ := Option.bind_eq_some_iff.mp h
  obtain ⟨factor, hfactor, h⟩ := Option.bind_eq_some_iff.mp h
  obtain ⟨replicaHosts, -, h⟩ := Option.bind_eq_some_iff.mp h
  obtain ⟨expiryHeight, hheight, h⟩ := Option.bind_eq_some_iff.mp h
  cases h
  exact ⟨takes_u64.required hbytes, (takes_unsigned (2 ^ 8)).required hfactor,
    takes_u64.defaulted (by decide) hheight⟩

theorem takes_replicas : Takes ReplicaIndex.ofJson ReplicaIndex.Fits := by
  refine takes_struct fun fields i h => ?_
  obtain ⟨policies, hpolicies, h⟩ := Option.bind_eq_some_iff.mp h
  obtain ⟨records, hrecords, h⟩ := Option.bind_eq_some_iff.mp h
  cases h
  exact ⟨(takes_names takes_policy).defaulted (empty_names _) hpolicies,
    (takes_names (takes_names takes_record)).defaulted (empty_names _) hrecords⟩

/-- **What is loaded is what a save of it loads as.** For each of the three files,
whatever JSON tree it holds, if that is taken for a value at all. And a replica
index is read back as it is written, with or without the fields that the crate
before did not write. -/
theorem reloaded_stable :
    (∀ j i, Index.ofJson j = some i → Index.ofJson i.toJson = some i) ∧
    (∀ j s, MultipartState.ofJson j = some s → MultipartState.ofJson s.toJson = some s) ∧
    (∀ j i, ReplicaIndex.ofJson j = some i → ReplicaIndex.ofJson i.toJson = some i) ∧
    (∀ i : ReplicaIndex, i.Fits → ReplicaIndex.ofJson i.toJson = some i) ∧
    ∀ j i, ReplicasShape j i → ReplicaIndex.ofJson j = some i :=
  ⟨fun j i h => reads_index.roundTrip writes_index (takes_index j i h),
    fun j s h => reads_multipart.roundTrip writes_multipart (takes_multipart j s h),
    fun j i h => reads_replicas.roundTrip writes_replicas (takes_replicas j i h),
    fun _ h => reads_replicas.roundTrip writes_replicas h, reads_replicas⟩

/-- An index file of the store before versioning. -/
private def oldIndexFile : Json :=
  object [("buckets", object [("b", object [("created", unsigned 3), ("objects", object [("k",
    object [("cid", string "c"), ("size", unsigned 9), ("etag", string "c"),
      ("content_type", string "t"), ("last_modified", unsigned 7)])])])])]

/-- A replica index of the crate before. -/
private def oldReplicas : Json :=
  object [("records", object [("b", object [("k",
    object [("cid", string "c"), ("bytes_len", unsigned 9),
      ("replication_factor", unsigned 3)])])])]

/-- An index file with its structures as arrays of their fields. -/
private def arraysIndexFile : Json :=
  array [unsigned 2, object [("b", array [unsigned 3, Json.bool true, array [], object [("k",
    array [string "c", unsigned 9, string "c", string "t", unsigned 7])]])]]

theorem reloaded_stable_old :
    (∃ i, Index.ofJson oldIndexFile = some i ∧ Index.ofJson i.toJson = some i) ∧
      (∃ i, Index.ofJson arraysIndexFile = some i ∧ Index.ofJson i.toJson = some i) ∧
        ∃ i, ReplicaIndex.ofJson oldReplicas = some i ∧ ReplicaIndex.ofJson i.toJson = some i := by
  have hindex : (Index.ofJson oldIndexFile).isSome = true := by decide +kernel
  have harrays : (Index.ofJson arraysIndexFile).isSome = true := by decide +kernel
  have hreplicas : (ReplicaIndex.ofJson oldReplicas).isSome = true := by decide +kernel
  obtain ⟨i, hi⟩ := Option.isSome_iff_exists.mp hindex
  obtain ⟨a, ha⟩ := Option.isSome_iff_exists.mp harrays
  obtain ⟨r, hr⟩ := Option.isSome_iff_exists.mp hreplicas
  exact ⟨⟨i, hi, reloaded_stable.1 _ i hi⟩, ⟨a, ha, reloaded_stable.1 _ a ha⟩, r, hr,
    reloaded_stable.2.2.1 _ r hr⟩

end CeStorage
