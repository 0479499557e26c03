import CeStorage.Index.List
import CeStorage.Range
import CeStorage.Store.Calls

/-!
# The store (`store.rs`)

The S3 verbs over the index, the multipart state and the blob store. Each
mutating method is an `Op`: what it checks before it takes the lock, and the
body it runs while it holds it. Reading methods never take the lock and resolve
names against the in-memory index only.

`storage-error` results keep the kinds of `StorageError` apart; methods that
return `anyhow::Result` in the source fail with a message.
-/

namespace CeStorage

open Lib
open Std (ExtTreeMap)

inductive StorageError where
  | noSuchBucket (b : String)
  | noSuchKey (k : String)
  | invalidRange (m : String)
  | preconditionFailed (m : String)
  | notModified
  | invalidRequest (m : String)
  | backend (m : String)
  deriving DecidableEq

/-! ## Preconditions -/

/-- Conditional-request headers; all `none` is unconditional. -/
structure Preconditions where
  ifMatch : Option String := none
  ifNoneMatch : Option String := none
  ifModifiedSince : Option Nat := none
  ifUnmodifiedSince : Option Nat := none
  deriving DecidableEq

/-- `m.trim_matches('"')`. -/
def unquote (m : String) : String := Str.trimMatches (· == '"') m

namespace Preconditions

def any (self : Preconditions) : Bool :=
  self.ifMatch.isSome || self.ifNoneMatch.isSome || self.ifModifiedSince.isSome
    || self.ifUnmodifiedSince.isSome

/-- The conditions of a read against the selected version. -/
def checkRead (self : Preconditions) (etag : String) (lastModified : Nat) :
    Except StorageError Unit :=
  if self.ifMatch.any fun m => m != "*" && unquote m != etag then
    .error (.preconditionFailed ("If-Match " ++ self.ifMatch.getD "" ++ " != " ++ etag))
  else if self.ifUnmodifiedSince.any fun s => s < lastModified then
    .error (.preconditionFailed "object modified after If-Unmodified-Since")
  else if self.ifNoneMatch.any fun m => m == "*" || unquote m == etag then
    .error .notModified
  else if self.ifModifiedSince.any fun s => lastModified ≤ s then .error .notModified
  else .ok ()

/-- The conditions of a write; `existing` is the current object's etag. -/
def checkWrite (self : Preconditions) (existing : Option String) : Except StorageError Unit :=
  if self.ifNoneMatch.any fun m => m == "*" && existing.isSome then
    .error (.preconditionFailed "If-None-Match: * but object exists")
  else if self.ifNoneMatch.any fun m => m != "*" && existing.any (unquote m == ·) then
    .error (.preconditionFailed "If-None-Match matched existing etag")
  else if self.ifMatch.any fun m => !existing.any fun e => m == "*" || unquote m == e then
    .error (.preconditionFailed "If-Match did not match existing object")
  else .ok ()

end Preconditions

/-- Optional inputs of a put. -/
structure PutOptions where
  contentType : String := ""
  metadata : UserMetadata := ∅
  cacheControl : Option String := none
  contentDisposition : Option String := none
  contentEncoding : Option String := none
  preconditions : Preconditions := {}

/-- The content type to record: `application/octet-stream` when none is given. -/
def PutOptions.recordedType (self : PutOptions) : String :=
  if self.contentType.isEmpty then "application/octet-stream" else self.contentType

/-- The result of a get: the bytes served, and what was recorded at put time. -/
structure GetResult where
  bytes : Bytes
  totalSize : Nat
  contentType : String
  etag : String
  versionId : String
  metadata : UserMetadata
  cacheControl : Option String
  contentDisposition : Option String
  contentEncoding : Option String
  lastModified : Nat
  range : Option (Nat × Nat)
  deriving DecidableEq

/-! ## Helpers of `Act` -/

namespace Act

variable {ε α : Type}

/-- `if !c { return Err(e) }`. -/
def require (c : Prop) [Decidable c] (e : ε) : Act ε Unit := if c then pure () else fail e

/-- A call to the blob store, its error put into the caller's context. -/
def blob {c : Call} (h : Resp c = Except String α) (context : String → ε) : Act ε α := do
  let r ← Act.call c
  Act.lift ((h ▸ r : Except String α).mapError context)

/-- A file-system call that has to succeed. -/
def ensure {c : Call} (h : Resp c = Bool) (context : ε) : Act ε Unit := do
  let ok ← Act.call c
  require ((h ▸ ok : Bool) = true) context

end Act

/-! ## Loading and saving -/

/-- What the bytes of the index file mean. -/
def Index.decode : Option Text → Except String Index
  -- no file yet: a fresh store
  | none => .ok Index.empty
  | some (.index i) =>
    if schemaVersion < i.schema then
      .error s!"bucket index schema v{i.schema} is newer than this build supports (v{schemaVersion}); upgrade ce-storage"
    else .ok i
  | some _ => .error "parsing bucket index JSON"

/-- What the bytes of the multipart file mean. -/
def MultipartState.decode : Option Text → Except String MultipartState
  | none => .ok MultipartState.empty
  | some (.multipart m) =>
    if multipartSchema < m.schema then
      .error s!"multipart state schema v{m.schema} is newer than supported (v{multipartSchema})"
    else .ok m
  | some _ => .error "parsing multipart state JSON"

/-- `Index::load`. -/
def Index.load : Act String Index := do
  match ← Act.call (.read .index) with
  | none => Act.fail "reading bucket index"
  | some text => Act.lift (Index.decode text)

/-- `MultipartState::load`. -/
def MultipartState.load : Act String MultipartState := do
  match ← Act.call (.read .multipart) with
  | none => Act.fail "reading multipart state"
  | some text => Act.lift (MultipartState.decode text)

/-- The save discipline both files share: create the directory, write and sync a
temp file, rename it into place. `context` is the message of each step. -/
def saveFile (f : File) (context : SaveStep → String) (t : Text) : Act String Unit := do
  let self ← Act.self
  Act.ensure (c := .createDir f) rfl (context .createDir)
  Act.ensure (c := .createTemp f self.pid) rfl (context .createTemp)
  Act.ensure (c := .write f self.pid t) rfl (context .write)
  Act.ensure (c := .sync f self.pid) rfl (context .sync)
  Act.ensure (c := .rename f self.pid) rfl (context .rename)

def indexSaveContext : SaveStep → String
  | .createDir => "creating index directory"
  | .createTemp => "creating index temp file"
  | .write => "writing index temp file"
  | .sync => "fsyncing index temp file"
  | .rename => "renaming index into place"

def multipartSaveContext : SaveStep → String
  | .createDir => "creating multipart state directory"
  | .createTemp => "creating multipart temp file"
  | .write => "writing multipart temp file"
  | .sync => "fsyncing multipart temp file"
  | .rename => "renaming multipart state into place"

/-- `Index::save`. -/
def Index.save (self : Index) : Act String Unit :=
  saveFile .index indexSaveContext (.index self)

/-- `MultipartState::save`. -/
def MultipartState.save (self : MultipartState) : Act String Unit :=
  saveFile .multipart multipartSaveContext (.multipart self)

namespace Store

/-! ## The lock's scope -/

/-- `self.index = Index::load(..)?`, which `lock_and_reload` does first thing
under the lock. -/
def reload : Act String Unit := do
  let i ← Index.load
  Act.setIndex i

/-- Apply an index operation to `self.index`. -/
def edit {α : Type} (f : Index → Except String α × Index) : Act String α := do
  let self ← Act.self
  Act.setIndex (f self.index).2
  Act.lift (f self.index).1

/-- `self.index.save(..)`. -/
def flush : Act String Unit := do
  let self ← Act.self
  self.index.save

/-! ## Bucket verbs -/

def makeBucket (bucket : String) : Op String Unit := .locked id do
  reload
  let t ← Act.call .now
  edit (·.makeBucket bucket t)
  flush

def removeBucket (bucket : String) (force : Bool) : Op String Unit := .locked id do
  reload
  edit (·.removeBucket bucket force)
  flush

def setVersioning (bucket : String) (enabled : Bool) : Op String Unit := .locked id do
  reload
  edit (·.setVersioning bucket enabled)
  flush

def setLifecycle (bucket : String) (rules : List LifecycleRule) : Op String Unit := .locked id do
  reload
  edit (·.setLifecycle bucket rules)
  flush

def isVersioned (self : Store) (bucket : String) : Except String Bool :=
  self.index.isVersioned bucket

def listBuckets (self : Store) : List String := self.index.listBuckets

def lifecycle (self : Store) (bucket : String) : Except String (List LifecycleRule) :=
  self.index.lifecycle bucket

/-- The keys that have expired by now; deletes nothing. -/
def expiredKeys (bucket : String) : Act String (List String) := do
  let self ← Act.self
  let t ← Act.call .now
  Act.lift (self.index.expiredKeys bucket t)

/-- Delete each key in turn, stopping at the first error. -/
def deleteEach (bucket : String) (t : Nat) : List String → Act String Unit
  | [] => pure ()
  | k :: ks => do
    edit (·.delete bucket k t)
    deleteEach bucket t ks

/-- Delete every expired key of one bucket; saves only if there was one. -/
def sweepExpired (bucket : String) : Op String (List String) := .locked id do
  reload
  let t ← Act.call .now
  let self ← Act.self
  let expired ← Act.lift (self.index.expiredKeys bucket t)
  deleteEach bucket t expired
  -- nothing expired: the file is not written
  if expired.isEmpty then pure expired
  else do
    flush
    pure expired

/-- The loop of `sweep_all` over the buckets still to sweep: whether anything was
deleted, and the report so far. -/
def sweepBuckets (t : Nat) :
    List String → Bool → ExtTreeMap String (List String) →
      Act String (Bool × ExtTreeMap String (List String))
  | [], any, report => pure (any, report)
  | b :: bs, any, report => do
    let self ← Act.self
    let expired ← Act.lift (self.index.expiredKeys b t)
    if expired.isEmpty then sweepBuckets t bs any report
    else do
      deleteEach b t expired
      sweepBuckets t bs true (report.insert b expired)

def sweepAll : Op String (ExtTreeMap String (List String)) := .locked id do
  reload
  let t ← Act.call .now
  let self ← Act.self
  let (any, report) ← sweepBuckets t self.index.listBuckets false ∅
  if any then do
    flush
    pure report
  else pure report

/-! ## Object verbs -/

/-- `PutObject`: bytes to the blob store, then the key to the CID it answers. -/
def putObjectOpts (self : Store) (bucket key : String) (bytes : Bytes) (opts : PutOptions) :
    Op StorageError ObjectMeta :=
  if self.maxObjectSize < bytes.length then
    .refused (.invalidRequest
      s!"object size {bytes.length} exceeds max {self.maxObjectSize} bytes")
  else
    match validKey key with
    | .error e => .refused (.invalidRequest e)
    | .ok () =>
      match validateUserMetadata opts.metadata with
      | .error e => .refused (.invalidRequest e)
      | .ok () => .locked .backend do
        -- under the lock: the conditions are checked against the index just loaded
        reload.mapErr .backend
        let self ← Act.self
        Act.require (self.index.buckets.contains bucket = true) (.noSuchBucket bucket)
        Act.lift (if opts.preconditions.any then
            opts.preconditions.checkWrite ((self.index.head bucket key).toOption.map (·.etag))
          else .ok ())
        let cid ← Act.blob (c := .putObject bytes) rfl
          fun e => StorageError.backend s!"storing object: {e}"
        let t ← Act.call .now
        let m ← Act.lift (((ObjectMeta.new cid bytes.length opts.recordedType t).withHeaders
          opts.metadata opts.cacheControl opts.contentDisposition
          opts.contentEncoding).mapError .invalidRequest)
        (edit (·.put bucket key m)).mapErr .invalidRequest
        flush.mapErr .backend
        pure m

def headObject (self : Store) (bucket key : String) : Except String ObjectMeta :=
  self.index.head bucket key

def headObjectVersion (self : Store) (bucket key versionId : String) : Except String ObjectMeta :=
  self.index.headVersion bucket key versionId

def listVersions (self : Store) (bucket key : String) : Except String (List ObjectMeta) :=
  self.index.listVersions bucket key

/-- Resolve a name to metadata, telling a missing bucket from a missing key. -/
def metaFor (self : Store) (bucket key : String) (versionId : Option String) :
    Except StorageError ObjectMeta :=
  let r := match versionId with
    | some v => self.index.headVersion bucket key v
    | none => self.index.head bucket key
  r.mapError fun e =>
    if self.index.buckets.contains bucket then .noSuchKey s!"{bucket}/{key}: {e}"
    else .noSuchBucket bucket

def resultFrom (m : ObjectMeta) (bytes : Bytes) (range : Option (Nat × Nat)) : GetResult :=
  { bytes, totalSize := m.size, contentType := m.contentType, etag := m.etag
    versionId := m.versionId, metadata := m.metadata, cacheControl := m.cacheControl
    contentDisposition := m.contentDisposition, contentEncoding := m.contentEncoding
    lastModified := m.lastModified, range }

/-- `GetObject`, in full. -/
def getObjectOpts (bucket key : String) (versionId : Option String)
    (preconditions : Preconditions) : Act StorageError GetResult := do
  let self ← Act.self
  let m ← Act.lift (self.metaFor bucket key versionId)
  Act.lift (preconditions.checkRead m.etag m.lastModified)
  let bytes ← Act.blob (c := .getObject m.cid) rfl
    fun e => StorageError.backend s!"fetching object: {e}"
  pure (resultFrom m bytes none)

/-- Fetch the manifest of an object: a blob and a parse. -/
def fetchManifest (ce : CeRs) (objectCid : String) : Act String Manifest := do
  let bytes ← Act.blob (c := .getBlob objectCid) rfl id
  let manifest ← Act.lift
    ((ce.parseManifest bytes).mapError fun e => s!"parsing object manifest: {e}")
  Act.require (manifest.kind = ce.manifestKindV1)
    s!"unsupported manifest kind: {manifest.kind}"
  pure manifest

/-- Fetch the listed chunks in order, verifying each against its CID. -/
def fetchChunks (ce : CeRs) (manifest : Manifest) : List Nat → Act StorageError Bytes
  | [] => pure []
  | i :: is => do
    let chunkCid := manifest.chunks.getD i ""
    let chunk ← Act.blob (c := .getBlob chunkCid) rfl
      fun e => StorageError.backend s!"fetching chunk {chunkCid}: {e}"
    Act.require (ce.cid chunk = chunkCid)
      (.backend s!"chunk {chunkCid} failed content verification")
    let rest ← fetchChunks ce manifest is
    pure (chunk ++ rest)

/-- Whether an action fails, as a value. -/
def attempt {ε α : Type} (x : Act ε α) : Act ε (Except ε α) := fun s =>
  (x s).bind fun r => .ret (.ok r.1, r.2)

/-- `GetObject` with a `Range` header: only the covering chunks are fetched; an
object without a parseable manifest is fetched whole. -/
def getObjectRangeOpts (ce : CeRs) (bucket key rangeHeader : String)
    (versionId : Option String) : Act StorageError GetResult := do
  let self ← Act.self
  let m ← Act.lift (self.metaFor bucket key versionId)
  let (start, stop) ← Act.lift ((parseRange rangeHeader m.size).mapError .invalidRange)
  match ← attempt ((fetchManifest ce m.cid).mapErr .backend) with
  | .ok manifest => do
    let cov ← Act.lift ((covering manifest start stop).mapError .invalidRange)
    let concat ← fetchChunks ce manifest cov.chunkIndices
    let window ← Act.lift ((slice cov concat).mapError .backend)
    pure (resultFrom m window (some (start, stop)))
  -- no manifest to be had: the object is fetched in one piece
  | .error _ => do
    let full ← Act.blob (c := .getObject m.cid) rfl
      fun e => StorageError.backend s!"fetching object: {e}"
    Act.require (start ≤ stop + 1 ∧ stop < full.length) (.invalidRange "range out of bounds")
    pure (resultFrom m ((full.drop start).take (stop + 1 - start)) (some (start, stop)))

def deleteObject (bucket key : String) : Op String Unit := .locked id do
  reload
  let t ← Act.call .now
  edit (·.delete bucket key t)
  flush

def deleteObjectVersion (bucket key versionId : String) : Op String Unit := .locked id do
  reload
  edit (·.deleteVersion bucket key versionId)
  flush

/-- Delete every key, keeping each result. -/
def deleteMany (bucket : String) (t : Nat) :
    List String → Act String (List (String × Except String Unit))
  | [] => pure []
  | k :: ks => do
    let self ← Act.self
    -- a key that fails does not stop the others
    let (r, i) := self.index.delete bucket k t
    Act.setIndex i
    let rest ← deleteMany bucket t ks
    pure ((k, r) :: rest)

/-- Bulk delete, one save for all keys. -/
def deleteObjects (bucket : String) (keys : List String) :
    Op String (List (String × Except String Unit)) := .locked id do
  reload
  let t ← Act.call .now
  let out ← deleteMany bucket t keys
  flush
  pure out

def copyObject (srcBucket srcKey dstBucket dstKey : String) : Op String Unit := .locked id do
  reload
  let t ← Act.call .now
  edit (·.copy srcBucket srcKey dstBucket dstKey t)
  flush

/-- `ListObjectsV2`. -/
def listObjects (self : Store) (bucket keyPrefix : String) (delimiter startAfter : Option String)
    (maxKeys : Nat) : Except String ListPage :=
  self.index.list bucket keyPrefix delimiter startAfter maxKeys

/-! ## Multipart uploads -/

/-- `CreateMultipartUpload`. -/
def createMultipartUpload (ce : CeRs) (bucket key : String) (opts : PutOptions) :
    Op StorageError String :=
  match validKey key with
  | .error e => .refused (.invalidRequest e)
  | .ok () =>
    match validateUserMetadata opts.metadata with
    | .error e => .refused (.invalidRequest e)
    | .ok () => .locked .backend do
      let st ← MultipartState.load.mapErr .backend
      reload.mapErr .backend
      let self ← Act.self
      -- the bucket must exist now, and again at completion
      Act.require (self.index.buckets.contains bucket = true) (.noSuchBucket bucket)
      let id ← Act.call .randomUploadId
      let t ← Act.call .now
      let upload : Upload :=
        { bucket, key, partChunk := ce.defaultChunkSize, contentType := opts.recordedType
          metadata := opts.metadata, created := t, parts := ∅ }
      let st ← Act.lift ((st.create id upload).mapError .invalidRequest)
      st.save.mapErr .backend
      pure id

/-- Store the chunks of a part, the `n`-th blob put and following. -/
def putChunks : Nat → List (String × Bytes) → Act StorageError Unit
  | _, [] => pure ()
  | n, (chunkCid, chunk) :: rest => do
    let stored ← Act.blob (c := .putBlob n chunk) rfl
      fun e => StorageError.backend s!"storing part chunk: {e}"
    Act.require (stored = chunkCid)
      (.backend s!"blob store returned {stored} for chunk {chunkCid}")
    putChunks (n + 1) rest

/-- `UploadPart`: store the part's chunks and its manifest, and record it. -/
def uploadPart (ce : CeRs) (self : Store) (uploadId : String) (partNumber : Nat)
    (bytes : Bytes) : Op StorageError String :=
  if self.maxObjectSize < bytes.length then
    .refused (.invalidRequest
      s!"part size {bytes.length} exceeds max {self.maxObjectSize} bytes")
  else .locked .backend do
    let st ← MultipartState.load.mapErr .backend
    Act.require (st.uploads.contains uploadId = true)
      (.noSuchKey s!"multipart upload {uploadId}")
    -- the part is an object of its own; its manifest's CID is its etag
    let (manifest, chunks) := ce.chunkObject bytes ce.defaultChunkSize
    putChunks 0 chunks
    let etag ← Act.blob (c := .putBlob chunks.length (ce.manifestJson manifest)) rfl
      fun e => StorageError.backend s!"storing part manifest: {e}"
    let part : Part :=
      { partNumber, etag, size := bytes.length, chunkCids := manifest.chunks }
    let st ← Act.lift ((st.putPart uploadId part).mapError .invalidRequest)
    st.save.mapErr .backend
    pure etag

/-- `ListParts`. -/
def listParts (uploadId : String) : Act String (List Part) := do
  let st ← MultipartState.load
  Act.lift (st.listParts uploadId)

/-- `ListMultipartUploads`: the uploads in flight, of one bucket or of all. -/
def listMultipartUploads (bucket : Option String) : Act String (List (String × Upload)) := do
  let st ← MultipartState.load
  pure (st.uploads.toList.filter fun p => bucket.all (p.2.bucket == ·))

/-- `CompleteMultipartUpload`: assemble, store the manifest, bind the key, drop
the upload record. The index is saved first, then the multipart state. -/
def completeMultipartUpload (ce : CeRs) (uploadId : String) (parts : List (Nat × String)) :
    Op StorageError ObjectMeta := .locked .backend do
  let st ← MultipartState.load.mapErr .backend
  let upload ← Act.lift
    ((st.get uploadId).mapError fun _ => .noSuchKey s!"multipart upload {uploadId}")
  let manifest ← Act.lift ((assembleManifest ce upload parts).mapError .invalidRequest)
  let self ← Act.self
  Act.require (manifest.totalSize ≤ self.maxObjectSize) (.invalidRequest
    s!"assembled object size {manifest.totalSize} exceeds max {self.maxObjectSize} bytes")
  let cid ← Act.blob (c := .putBlob 0 (ce.manifestJson manifest)) rfl
    fun e => StorageError.backend s!"storing object manifest: {e}"
  -- the index is loaded after the manifest is stored
  reload.mapErr .backend
  let self ← Act.self
  Act.require (self.index.buckets.contains upload.bucket = true) (.noSuchBucket upload.bucket)
  let t ← Act.call .now
  -- `cache_control` and its two siblings were not recorded at the start
  let m ← Act.lift (((ObjectMeta.new cid manifest.totalSize upload.contentType t).withHeaders
    upload.metadata none none none).mapError .invalidRequest)
  (edit (·.put upload.bucket upload.key m)).mapErr .invalidRequest
  flush.mapErr .backend
  (st.remove uploadId).save.mapErr .backend
  pure m

/-- `AbortMultipartUpload`. -/
def abortMultipartUpload (uploadId : String) : Op String Unit := .locked id do
  let st ← MultipartState.load
  -- removing an unknown id is no error
  (st.remove uploadId).save

end Store

end CeStorage
