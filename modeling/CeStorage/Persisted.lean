import CeStorage.Index.Basic
import CeStorage.Lib.Json
import CeStorage.Multipart

/-!
# The files as JSON (`index.rs`, `multipart.rs`)

How the index and the uploads in flight are written as JSON trees, and how they
are read: the encoders and decoders that serde derives from the declarations. An
entry of the index is read in either of two shapes, its versions or the bare
metadata of the store before versioning, and always written as the first.

What is written is read back, and an index file whose entries are any mix of the
two shapes is read without loss (`persisted_roundTrips`).
-/

namespace CeStorage

open Lib
open Json
open Std (ExtTreeMap)

/-! ## Encoders -/

/-- A field that is skipped if there is nothing to write. -/
def headerField (name : String) : Option String → List (String × Json)
  | none => []
  | some s => [(name, string s)]

def ObjectMeta.toJson (m : ObjectMeta) : Json :=
  object ([("cid", string m.cid), ("size", unsigned m.size), ("etag", string m.etag),
      ("content_type", string m.contentType), ("last_modified", unsigned m.lastModified),
      ("version_id", string m.versionId), ("metadata", ofMap id string m.metadata)]
    ++ (headerField "cache_control" m.cacheControl
    ++ (headerField "content_disposition" m.contentDisposition
    ++ headerField "content_encoding" m.contentEncoding)))

def ObjectVersion.toJson (v : ObjectVersion) : Json :=
  object [("meta", v.meta.toJson), ("is_delete_marker", Json.bool v.isDeleteMarker)]

def ObjectEntry.toJson (e : ObjectEntry) : Json :=
  object [("versions", ofList ObjectVersion.toJson e.versions)]

def LifecycleRule.toJson (r : LifecycleRule) : Json :=
  object [("prefix", string r.keyPrefix), ("expiration_secs", unsigned r.expirationSecs)]

def Bucket.toJson (b : Bucket) : Json :=
  object ([("created", unsigned b.created), ("versioning", Json.bool b.versioning)]
    ++ ((if b.lifecycle = [] then [] else [("lifecycle", ofList LifecycleRule.toJson b.lifecycle)])
    ++ [("objects", ofMap id ObjectEntry.toJson b.objects)]))

def Index.toJson (i : Index) : Json :=
  object [("schema", unsigned i.schema), ("buckets", ofMap id Bucket.toJson i.buckets)]

def Part.toJson (p : Part) : Json :=
  object [("part_number", unsigned p.partNumber), ("etag", string p.etag),
    ("size", unsigned p.size), ("chunk_cids", ofList string p.chunkCids)]

def Upload.toJson (u : Upload) : Json :=
  object [("bucket", string u.bucket), ("key", string u.key),
    ("part_chunk", unsigned u.partChunk), ("content_type", string u.contentType),
    ("metadata", ofMap id string u.metadata), ("created", unsigned u.created),
    ("parts", ofMap toString Part.toJson u.parts)]

def MultipartState.toJson (s : MultipartState) : Json :=
  object [("schema", unsigned s.schema), ("uploads", ofMap id Upload.toJson s.uploads)]

/-! ## Decoders -/

def u32 : Json → Option Nat := asUnsigned (2 ^ 32)
def u64 : Json → Option Nat := asUnsigned (2 ^ 64)

def ObjectMeta.ofJson : Json → Option ObjectMeta :=
  asStruct ["cid", "size", "etag", "content_type", "last_modified", "version_id", "metadata",
      "cache_control", "content_disposition", "content_encoding"] fun fields => do
    let cid ← required fields "cid" asString
    let size ← required fields "size" u64
    let etag ← required fields "etag" asString
    let contentType ← required fields "content_type" asString
    let lastModified ← required fields "last_modified" u64
    let versionId ← defaulted fields "version_id" asString ""
    let metadata ← defaulted fields "metadata" (asMap some asString) ∅
    let cacheControl ← defaulted fields "cache_control" (asOption asString) none
    let contentDisposition ← defaulted fields "content_disposition" (asOption asString) none
    let contentEncoding ← defaulted fields "content_encoding" (asOption asString) none
    return { cid, size, etag, contentType, lastModified, versionId, metadata, cacheControl
             contentDisposition, contentEncoding }

def ObjectVersion.ofJson : Json → Option ObjectVersion :=
  asStruct ["meta", "is_delete_marker"] fun fields => do
    let «meta» ← required fields "meta" ObjectMeta.ofJson
    let isDeleteMarker ← required fields "is_delete_marker" asBool
    return { «meta», isDeleteMarker }

/-- `ObjectEntryCompat::Versioned`. -/
def ObjectEntry.ofVersions : Json → Option ObjectEntry :=
  asObject fun fields => do
    let versions ← required fields "versions" (asList ObjectVersion.ofJson)
    return { versions }

/-- `ObjectEntryCompat`, untagged: the first of the two shapes that the tree has. -/
def ObjectEntry.ofJson (j : Json) : Option ObjectEntry :=
  match ObjectEntry.ofVersions j with
  | some e => some e
  | none => (ObjectMeta.ofJson j).map fun m =>
    { versions := [{ «meta» := m, isDeleteMarker := false }] }

def LifecycleRule.ofJson : Json → Option LifecycleRule :=
  asStruct ["prefix", "expiration_secs"] fun fields => do
    let keyPrefix ← required fields "prefix" asString
    let expirationSecs ← required fields "expiration_secs" u64
    return { keyPrefix, expirationSecs }

def Bucket.ofJson : Json → Option Bucket :=
  asStruct ["created", "versioning", "lifecycle", "objects"] fun fields => do
    let created ← required fields "created" u64
    let versioning ← defaulted fields "versioning" asBool false
    let lifecycle ← defaulted fields "lifecycle" (asList LifecycleRule.ofJson) []
    let objects ← required fields "objects" (asMap some ObjectEntry.ofJson)
    return { created, versioning, lifecycle, objects }

def Index.ofJson : Json → Option Index :=
  asStruct ["schema", "buckets"] fun fields => do
    let schema ← defaulted fields "schema" u32 schemaVersion
    let buckets ← required fields "buckets" (asMap some Bucket.ofJson)
    return { schema, buckets }

def Part.ofJson : Json → Option Part :=
  asStruct ["part_number", "etag", "size", "chunk_cids"] fun fields => do
    let partNumber ← required fields "part_number" u32
    let etag ← required fields "etag" asString
    let size ← required fields "size" u64
    let chunkCids ← required fields "chunk_cids" (asList asString)
    return { partNumber, etag, size, chunkCids }

def Upload.ofJson : Json → Option Upload :=
  asStruct ["bucket", "key", "part_chunk", "content_type", "metadata", "created",
      "parts"] fun fields => do
    let bucket ← required fields "bucket" asString
    let key ← required fields "key" asString
    let partChunk ← required fields "part_chunk" u64
    let contentType ← required fields "content_type" asString
    let metadata ← defaulted fields "metadata" (asMap some asString) ∅
    let created ← required fields "created" u64
    let parts ← required fields "parts" (asMap (readUnsignedKey (2 ^ 32)) Part.ofJson)
    return { bucket, key, partChunk, contentType, metadata, created, parts }

def MultipartState.ofJson : Json → Option MultipartState :=
  asStruct ["schema", "uploads"] fun fields => do
    let schema ← defaulted fields "schema" u32 multipartSchema
    let uploads ← required fields "uploads" (asMap some Upload.ofJson)
    return { schema, uploads }

/-! ## The shapes of the files -/

/-- The fields of an object's metadata; the last five may be absent. -/
structure MetaFields (fields : List (String × Json)) (m : ObjectMeta) : Prop where
  cid : Has fields "cid" StringShape m.cid
  size : Has fields "size" (UnsignedShape (2 ^ 64)) m.size
  etag : Has fields "etag" StringShape m.etag
  contentType : Has fields "content_type" StringShape m.contentType
  lastModified : Has fields "last_modified" (UnsignedShape (2 ^ 64)) m.lastModified
  versionId : HasOr fields "version_id" StringShape "" m.versionId
  metadata : HasOr fields "metadata" (MapShape StringKey StringShape) ∅ m.metadata
  cacheControl : HasOr fields "cache_control" (OptionShape StringShape) none m.cacheControl
  contentDisposition :
    HasOr fields "content_disposition" (OptionShape StringShape) none m.contentDisposition
  contentEncoding :
    HasOr fields "content_encoding" (OptionShape StringShape) none m.contentEncoding

def MetaShape (j : Json) (m : ObjectMeta) : Prop :=
  ∃ fields, j = object fields ∧ MetaFields fields m

def VersionShape (j : Json) (v : ObjectVersion) : Prop :=
  ∃ fields, j = object fields ∧ Has fields "meta" MetaShape v.meta ∧
    Has fields "is_delete_marker" BoolShape v.isDeleteMarker

/-- An entry with its versions. -/
def VersionsShape (j : Json) (e : ObjectEntry) : Prop :=
  ∃ fields, j = object fields ∧ Has fields "versions" (ListShape VersionShape) e.versions

/-- The bare metadata of an object. -/
def BareShape (j : Json) (m : ObjectMeta) : Prop :=
  ∃ fields, j = object fields ∧ Lacks fields "versions" ∧ MetaFields fields m

/-- An entry in either shape: bare metadata is an object with that one version. -/
def EntryShape (j : Json) (e : ObjectEntry) : Prop :=
  VersionsShape j e ∨
    ∃ m, BareShape j m ∧ e = { versions := [{ «meta» := m, isDeleteMarker := false }] }

def RuleShape (j : Json) (r : LifecycleRule) : Prop :=
  ∃ fields, j = object fields ∧ Has fields "prefix" StringShape r.keyPrefix ∧
    Has fields "expiration_secs" (UnsignedShape (2 ^ 64)) r.expirationSecs

structure BucketFields (fields : List (String × Json)) (b : Bucket) : Prop where
  created : Has fields "created" (UnsignedShape (2 ^ 64)) b.created
  versioning : HasOr fields "versioning" BoolShape false b.versioning
  lifecycle : HasOr fields "lifecycle" (ListShape RuleShape) [] b.lifecycle
  objects : Has fields "objects" (MapShape StringKey EntryShape) b.objects

def BucketShape (j : Json) (b : Bucket) : Prop :=
  ∃ fields, j = object fields ∧ BucketFields fields b

/-- An index file: with or without a schema tag, its entries in any mix of the two shapes. -/
def IndexShape (j : Json) (i : Index) : Prop :=
  ∃ fields, j = object fields ∧
    HasOr fields "schema" (UnsignedShape (2 ^ 32)) schemaVersion i.schema ∧
    Has fields "buckets" (MapShape StringKey BucketShape) i.buckets

structure PartFields (fields : List (String × Json)) (p : Part) : Prop where
  partNumber : Has fields "part_number" (UnsignedShape (2 ^ 32)) p.partNumber
  etag : Has fields "etag" StringShape p.etag
  size : Has fields "size" (UnsignedShape (2 ^ 64)) p.size
  chunkCids : Has fields "chunk_cids" (ListShape StringShape) p.chunkCids

def PartShape (j : Json) (p : Part) : Prop := ∃ fields, j = object fields ∧ PartFields fields p

structure UploadFields (fields : List (String × Json)) (u : Upload) : Prop where
  bucket : Has fields "bucket" StringShape u.bucket
  key : Has fields "key" StringShape u.key
  partChunk : Has fields "part_chunk" (UnsignedShape (2 ^ 64)) u.partChunk
  contentType : Has fields "content_type" StringShape u.contentType
  metadata : HasOr fields "metadata" (MapShape StringKey StringShape) ∅ u.metadata
  created : Has fields "created" (UnsignedShape (2 ^ 64)) u.created
  parts : Has fields "parts" (MapShape (UnsignedKey (2 ^ 32)) PartShape) u.parts

def UploadShape (j : Json) (u : Upload) : Prop :=
  ∃ fields, j = object fields ∧ UploadFields fields u

def MultipartShape (j : Json) (s : MultipartState) : Prop :=
  ∃ fields, j = object fields ∧
    HasOr fields "schema" (UnsignedShape (2 ^ 32)) multipartSchema s.schema ∧
    Has fields "uploads" (MapShape StringKey UploadShape) s.uploads

/-! ## Reading a file of the shape -/

theorem reads_meta : Reads ObjectMeta.ofJson MetaShape := by
  rintro j m ⟨fields, rfl, h⟩
  have hheader := reads_string.option
  have hmetadata := reads_string.map reads_stringKey
  simp only [ObjectMeta.ofJson, asStruct_object, u64, required_eq reads_string h.cid,
    required_eq (reads_unsigned _) h.size, required_eq reads_string h.etag,
    required_eq reads_string h.contentType, required_eq (reads_unsigned _) h.lastModified,
    defaulted_eq reads_string h.versionId, defaulted_eq hmetadata h.metadata,
    defaulted_eq hheader h.cacheControl, defaulted_eq hheader h.contentDisposition,
    defaulted_eq hheader h.contentEncoding]
  rfl

theorem reads_version : Reads ObjectVersion.ofJson VersionShape := by
  rintro j v ⟨fields, rfl, hmeta, hmarker⟩
  simp only [ObjectVersion.ofJson, asStruct_object, required_eq reads_meta hmeta,
    required_eq reads_bool hmarker]
  rfl

theorem reads_versions : Reads ObjectEntry.ofVersions VersionsShape := by
  rintro j e ⟨fields, rfl, h⟩
  simp only [ObjectEntry.ofVersions, asObject, required_eq reads_version.list h]
  rfl

theorem reads_objectEntry : Reads ObjectEntry.ofJson EntryShape := by
  rintro j e (h | ⟨m, ⟨fields, rfl, hlacks, hfields⟩, rfl⟩)
  · unfold ObjectEntry.ofJson
    rw [reads_versions j e h]
  · -- without versions the first shape does not fit, and the second one is the metadata
    have hnone : ObjectEntry.ofVersions (object fields) = none := by
      simp only [ObjectEntry.ofVersions, asObject, required_lacks hlacks]
      rfl
    unfold ObjectEntry.ofJson
    rw [hnone, reads_meta _ m ⟨fields, rfl, hfields⟩]
    rfl

theorem reads_rule : Reads LifecycleRule.ofJson RuleShape := by
  rintro j r ⟨fields, rfl, hprefix, hsecs⟩
  simp only [LifecycleRule.ofJson, asStruct_object, u64, required_eq reads_string hprefix,
    required_eq (reads_unsigned _) hsecs]
  rfl

theorem reads_bucket : Reads Bucket.ofJson BucketShape := by
  rintro j b ⟨fields, rfl, h⟩
  simp only [Bucket.ofJson, asStruct_object, u64, required_eq (reads_unsigned _) h.created,
    defaulted_eq reads_bool h.versioning, defaulted_eq reads_rule.list h.lifecycle,
    required_eq (reads_objectEntry.map reads_stringKey) h.objects]
  rfl

theorem reads_index : Reads Index.ofJson IndexShape := by
  rintro j i ⟨fields, rfl, hschema, hbuckets⟩
  simp only [Index.ofJson, asStruct_object, u32, defaulted_eq (reads_unsigned _) hschema,
    required_eq (reads_bucket.map reads_stringKey) hbuckets]
  rfl

theorem reads_part : Reads Part.ofJson PartShape := by
  rintro j p ⟨fields, rfl, h⟩
  simp only [Part.ofJson, asStruct_object, u32, u64, required_eq (reads_unsigned _) h.partNumber,
    required_eq reads_string h.etag, required_eq (reads_unsigned _) h.size,
    required_eq reads_string.list h.chunkCids]
  rfl

theorem reads_upload : Reads Upload.ofJson UploadShape := by
  rintro j u ⟨fields, rfl, h⟩
  simp only [Upload.ofJson, asStruct_object, u64, required_eq reads_string h.bucket,
    required_eq reads_string h.key, required_eq (reads_unsigned _) h.partChunk,
    required_eq reads_string h.contentType,
    defaulted_eq (reads_string.map reads_stringKey) h.metadata,
    required_eq (reads_unsigned _) h.created,
    required_eq (reads_part.map reads_unsignedKey) h.parts]
  rfl

theorem reads_multipart : Reads MultipartState.ofJson MultipartShape := by
  rintro j s ⟨fields, rfl, hschema, huploads⟩
  simp only [MultipartState.ofJson, asStruct_object, u32, defaulted_eq (reads_unsigned _) hschema,
    required_eq (reads_upload.map reads_stringKey) huploads]
  rfl

/-! ## What is written has the shape -/

def ObjectMeta.Fits (m : ObjectMeta) : Prop := m.size < 2 ^ 64 ∧ m.lastModified < 2 ^ 64

def ObjectVersion.Fits (v : ObjectVersion) : Prop := v.meta.Fits

def ObjectEntry.Fits (e : ObjectEntry) : Prop := ∀ v ∈ e.versions, v.Fits

def LifecycleRule.Fits (r : LifecycleRule) : Prop := r.expirationSecs < 2 ^ 64

structure Bucket.Fits (b : Bucket) : Prop where
  created : b.created < 2 ^ 64
  lifecycle : ∀ r ∈ b.lifecycle, r.Fits
  objects : ∀ (key : String) (e : ObjectEntry), b.objects[key]? = some e → e.Fits

/-- The numbers of an index are `u64`, but for its schema tag, which is `u32`. -/
structure Index.Fits (i : Index) : Prop where
  schema : i.schema < 2 ^ 32
  buckets : ∀ (name : String) (b : Bucket), i.buckets[name]? = some b → b.Fits

def Part.Fits (p : Part) : Prop := p.partNumber < 2 ^ 32 ∧ p.size < 2 ^ 64

structure Upload.Fits (u : Upload) : Prop where
  partChunk : u.partChunk < 2 ^ 64
  created : u.created < 2 ^ 64
  parts : ∀ (n : Nat) (p : Part), u.parts[n]? = some p → n < 2 ^ 32 ∧ p.Fits

/-- The same for the uploads in flight, whose parts are numbered in `u32`. -/
structure MultipartState.Fits (s : MultipartState) : Prop where
  schema : s.schema < 2 ^ 32
  uploads : ∀ (id : String) (u : Upload), s.uploads[id]? = some u → u.Fits

theorem writes_string : Writes string (fun _ => True) StringShape := fun _ _ => rfl

theorem metadata_shape (m : UserMetadata) :
    MapShape StringKey StringShape (ofMap id string m) m :=
  writes_string.map Function.injective_id fun _ _ _ => ⟨rfl, trivial⟩

/-- A header is found under its name, or there is none. -/
theorem filter_headerField (name other : String) (value : Option String) :
    (headerField name value).filter (fun p => p.1 = other)
      = if name = other then headerField name value else [] := by
  cases value with
  | none => exact (ite_self _).symm
  | some s =>
    by_cases h : name = other
    · rw [if_pos h]
      exact List.filter_cons_of_pos (decide_eq_true h)
    · rw [if_neg h]
      exact List.filter_cons_of_neg (by rwa [decide_eq_true_eq])

theorem hasOr_headerField {fields : List (String × Json)} {name : String} {value : Option String}
    (h : fields.filter (fun p => p.1 = name) = headerField name value) :
    HasOr fields name (OptionShape StringShape) none value := by
  cases value with
  | none =>
    refine .inr ⟨fun p hp heq => ?_, rfl⟩
    exact List.filter_eq_nil_iff.mp h p hp (decide_eq_true heq)
  | some s => exact .inl ⟨_, h, nofun, rfl⟩

theorem writes_meta : Writes ObjectMeta.toJson ObjectMeta.Fits MetaShape := by
  rintro m ⟨hsize, htime⟩
  refine ⟨_, rfl, ?_⟩
  constructor
  case cid => exact ⟨_, by simp [filter_headerField], rfl⟩
  case size => exact ⟨_, by simp [filter_headerField], rfl, hsize⟩
  case etag => exact ⟨_, by simp [filter_headerField], rfl⟩
  case contentType => exact ⟨_, by simp [filter_headerField], rfl⟩
  case lastModified => exact ⟨_, by simp [filter_headerField], rfl, htime⟩
  case versionId => exact .inl ⟨_, by simp [filter_headerField], rfl⟩
  case metadata => exact .inl ⟨_, by simp [filter_headerField], metadata_shape m.metadata⟩
  case cacheControl => exact hasOr_headerField (by simp [filter_headerField])
  case contentDisposition => exact hasOr_headerField (by simp [filter_headerField])
  case contentEncoding => exact hasOr_headerField (by simp [filter_headerField])

theorem writes_version : Writes ObjectVersion.toJson ObjectVersion.Fits VersionShape :=
  fun v h => ⟨_, rfl, ⟨_, by simp, writes_meta v.meta h⟩, ⟨_, by simp, rfl⟩⟩

theorem writes_objectEntry : Writes ObjectEntry.toJson ObjectEntry.Fits EntryShape :=
  fun e h => .inl ⟨_, rfl, _, by simp, writes_version.list e.versions h⟩

theorem writes_rule : Writes LifecycleRule.toJson LifecycleRule.Fits RuleShape :=
  fun _ h => ⟨_, rfl, ⟨_, by simp, rfl⟩, ⟨_, by simp, rfl, h⟩⟩

theorem writes_bucket : Writes Bucket.toJson Bucket.Fits BucketShape := by
  rintro b h
  have hobjects := writes_objectEntry.map Function.injective_id (m := b.objects) (K := StringKey)
    fun k e hk => ⟨rfl, h.objects k e hk⟩
  refine ⟨_, rfl, ?_⟩
  by_cases hrules : b.lifecycle = []
  · rw [if_pos hrules]
    constructor
    case created => exact ⟨_, by simp, rfl, h.created⟩
    case versioning => exact .inl ⟨_, by simp, rfl⟩
    case lifecycle => exact .inr ⟨by simp [Lacks], hrules⟩
    case objects => exact ⟨_, by simp, hobjects⟩
  · rw [if_neg hrules]
    constructor
    case created => exact ⟨_, by simp, rfl, h.created⟩
    case versioning => exact .inl ⟨_, by simp, rfl⟩
    case lifecycle => exact .inl ⟨_, by simp, writes_rule.list b.lifecycle h.lifecycle⟩
    case objects => exact ⟨_, by simp, hobjects⟩

theorem writes_index : Writes Index.toJson Index.Fits IndexShape :=
  fun _ h => ⟨_, rfl, .inl ⟨_, by simp, rfl, h.schema⟩, ⟨_, by simp,
    writes_bucket.map Function.injective_id fun name b hb => ⟨rfl, h.buckets name b hb⟩⟩⟩

theorem writes_part : Writes Part.toJson Part.Fits PartShape := by
  rintro p ⟨hnumber, hsize⟩
  refine ⟨_, rfl, ?_⟩
  constructor
  case partNumber => exact ⟨_, by simp, rfl, hnumber⟩
  case etag => exact ⟨_, by simp, rfl⟩
  case size => exact ⟨_, by simp, rfl, hsize⟩
  case chunkCids => exact ⟨_, by simp, writes_string.list p.chunkCids fun _ _ => trivial⟩

theorem toString_injective : Function.Injective (toString : Nat → String) :=
  fun _ _ h => Nat.repr_inj.mp h

theorem writes_upload : Writes Upload.toJson Upload.Fits UploadShape := by
  rintro u h
  have hparts := writes_part.map toString_injective (m := u.parts) (K := UnsignedKey (2 ^ 32))
    fun n p hn => ⟨⟨rfl, (h.parts n p hn).1⟩, (h.parts n p hn).2⟩
  refine ⟨_, rfl, ?_⟩
  constructor
  case bucket => exact ⟨_, by simp, rfl⟩
  case key => exact ⟨_, by simp, rfl⟩
  case partChunk => exact ⟨_, by simp, rfl, h.partChunk⟩
  case contentType => exact ⟨_, by simp, rfl⟩
  case metadata => exact .inl ⟨_, by simp, metadata_shape u.metadata⟩
  case created => exact ⟨_, by simp, rfl, h.created⟩
  case parts => exact ⟨_, by simp, hparts⟩

theorem writes_multipart : Writes MultipartState.toJson MultipartState.Fits MultipartShape :=
  fun _ h => ⟨_, rfl, .inl ⟨_, by simp, rfl, h.schema⟩, ⟨_, by simp,
    writes_upload.map Function.injective_id fun id u hu => ⟨rfl, h.uploads id u hu⟩⟩⟩

/-- Reading back what is written gives the same index, and the same uploads; and an
index file whose entries are any mix of versions and bare metadata, with the fields
that have a default there or not, is read with each bare entry as its one version. -/
theorem persisted_roundTrips :
    (∀ i : Index, i.Fits → Index.ofJson i.toJson = some i) ∧
    (∀ s : MultipartState, s.Fits → MultipartState.ofJson s.toJson = some s) ∧
    (∀ j i, IndexShape j i → Index.ofJson j = some i) :=
  ⟨fun _ h => reads_index.roundTrip writes_index h,
    fun _ h => reads_multipart.roundTrip writes_multipart h, reads_index⟩

/-- The metadata of an object from before versioning, as it was written. -/
private def bareJson : Json :=
  object [("cid", string "c"), ("size", unsigned (2 ^ 64 - 1)), ("etag", string "c"),
    ("content_type", string "t"), ("last_modified", unsigned 7)]

private def bareMeta : ObjectMeta :=
  { ObjectMeta.new "c" (2 ^ 64 - 1) "t" 7 with versionId := "" }

private def bareEntry : ObjectEntry :=
  { versions := [{ «meta» := bareMeta, isDeleteMarker := false }] }

/-- An object and the delete marker over it. -/
private def deletedEntry : ObjectEntry where
  versions := [{ «meta» := ObjectMeta.new "d" 4 "t" 8, isDeleteMarker := false },
    { «meta» := ObjectMeta.new "" 0 "" 9, isDeleteMarker := true }]

private def mixedBucket : Bucket where
  created := 3
  versioning := false
  lifecycle := []
  objects := ((∅ : ExtTreeMap String ObjectEntry).insert "old" bareEntry).insert "new" deletedEntry

private def mixedIndex : Index where
  schema := schemaVersion
  buckets := (∅ : ExtTreeMap String Bucket).insert "zoo" mixedBucket

/-- No schema tag, a bare entry, and one with its versions. -/
private def mixedFile : Json :=
  object [("buckets", object [("zoo", object [("created", unsigned 3),
    ("objects", object [("new", deletedEntry.toJson), ("old", bareJson)])])])]

private def partUploaded : MultipartState where
  schema := multipartSchema
  uploads := (∅ : ExtTreeMap String Upload).insert "id"
    { bucket := "zoo", key := "k", partChunk := 5, contentType := "t", metadata := ∅, created := 8
      parts := (∅ : ExtTreeMap Nat Part).insert 1
        { partNumber := 1, etag := "e", size := 9, chunkCids := ["a", "b"] } }

private theorem bareMeta_fits : bareMeta.Fits := ⟨by decide, by decide⟩

private theorem deletedEntry_fits : deletedEntry.Fits := by
  intro v hv
  rcases List.mem_pair.mp hv with rfl | rfl
  · exact ⟨by decide, by decide⟩
  · exact ⟨by decide, by decide⟩

private theorem mixedIndex_fits : mixedIndex.Fits := by
  refine ⟨by decide, fun name b hb => ?_⟩
  obtain ⟨rfl, rfl⟩ | hb := get_insert_cases hb
  · refine ⟨by decide, nofun, fun key e he => ?_⟩
    obtain ⟨rfl, rfl⟩ | he := get_insert_cases he
    · exact deletedEntry_fits
    · obtain ⟨rfl, rfl⟩ | he := get_insert_cases he
      · intro v hv
        cases List.mem_singleton.mp hv
        exact bareMeta_fits
      · simp at he
  · simp at hb

private theorem partUploaded_fits : partUploaded.Fits := by
  refine ⟨by decide, fun id u hu => ?_⟩
  obtain ⟨rfl, rfl⟩ | hu := get_insert_cases hu
  · refine ⟨by decide, by decide, fun n p hp => ?_⟩
    obtain ⟨rfl, rfl⟩ | hp := get_insert_cases hp
    · exact ⟨by decide, by decide, by decide⟩
    · simp at hp
  · simp at hu

private theorem bareJson_shape : BareShape bareJson bareMeta := by
  refine ⟨_, rfl, by simp [Lacks], ?_⟩
  constructor
  case cid => exact ⟨string "c", by simp, rfl⟩
  case size => exact ⟨unsigned (2 ^ 64 - 1), by simp, rfl, by decide⟩
  case etag => exact ⟨string "c", by simp, rfl⟩
  case contentType => exact ⟨string "t", by simp, rfl⟩
  case lastModified => exact ⟨unsigned 7, by simp, rfl, by decide⟩
  all_goals exact .inr ⟨by simp [Lacks], rfl⟩

private theorem mixedFile_shape : IndexShape mixedFile mixedIndex := by
  have hold : EntryShape bareJson bareEntry := .inr ⟨bareMeta, bareJson_shape, rfl⟩
  have hnew : EntryShape deletedEntry.toJson deletedEntry :=
    writes_objectEntry deletedEntry deletedEntry_fits
  have hobjects : MapShape StringKey EntryShape
      (object [("new", deletedEntry.toJson), ("old", bareJson)]) mixedBucket.objects :=
    ⟨_, rfl, (mapFields_nil.cons (by simp) (by simp) rfl hold).cons (by simp)
      (by simp) rfl hnew⟩
  have hbucket : BucketShape (object [("created", unsigned 3),
      ("objects", object [("new", deletedEntry.toJson), ("old", bareJson)])]) mixedBucket :=
    ⟨_, rfl, ⟨unsigned 3, by simp, rfl, by decide⟩, .inr ⟨by simp [Lacks], rfl⟩,
      .inr ⟨by simp [Lacks], rfl⟩, ⟨_, by simp, hobjects⟩⟩
  exact ⟨_, rfl, .inr ⟨by simp [Lacks], rfl⟩, ⟨_, by simp, _, rfl,
    mapFields_nil.cons (by simp) (by simp) rfl hbucket⟩⟩

theorem persisted_roundTrips_mixed :
    Index.ofJson mixedFile = some mixedIndex ∧ Index.ofJson mixedIndex.toJson = some mixedIndex ∧
      MultipartState.ofJson partUploaded.toJson = some partUploaded :=
  ⟨persisted_roundTrips.2.2 mixedFile mixedIndex mixedFile_shape,
    persisted_roundTrips.1 mixedIndex mixedIndex_fits,
    persisted_roundTrips.2.1 partUploaded partUploaded_fits⟩

end CeStorage
