import CeStorage.Store.Spec

/-!
# What each multipart operation does, in one equation

The counterpart of `Store.Spec` for the four operations on in-flight uploads.
They load the multipart state first; `createMultipartUpload` and
`completeMultipartUpload` load the index too, and only the latter saves it.
-/

namespace CeStorage

open Lib
open Std (ExtTreeMap)

variable {ε α β : Type} {ce : CeRs} {env : Env} {s : Store} {w : World}

/-- The end of an operation that has edited the multipart state: save it. -/
def Env.commitUploads (env : Env) (wrap : String → ε) (st : MultipartState) (a : α)
    (s : Store) (w : World) : (Except ε α × Store) × World :=
  match env.saveFails .multipart with
  | none => ((.ok a, s), w.saved .multipart s.pid (.multipart st))
  | some step => ((.error (wrap (multipartSaveContext step)), s),
      w.unsaved .multipart s.pid (.multipart st) step)

theorem exec_multipartSave (st : MultipartState) :
    exec ce env st.save s w = env.commitUploads id st () s w := by
  unfold MultipartState.save Env.commitUploads
  rw [exec_saveFile]
  unfold Env.save
  cases env.saveFails .multipart <;> rfl

theorem exec_multipartSave_mapErr (f : String → ε) (st : MultipartState) (a : α) :
    exec ce env (do st.save.mapErr f; pure a) s w = env.commitUploads f st a s w := by
  rw [exec_bind, exec_mapErr, exec_multipartSave]
  unfold Env.commitUploads
  cases env.saveFails .multipart <;> rfl

theorem exec_multipartLoad_mapErr (f : String → ε) (k : MultipartState → Act ε α) :
    exec ce env (MultipartState.load.mapErr f >>= k) s w
      = match env.loadMultipart w with
        | .error e => ((.error (f e), s), w)
        | .ok st => exec ce env (k st) s w := by
  rw [exec_bind, exec_mapErr, exec_multipartLoad]
  cases env.loadMultipart w <;> rfl

theorem exec_abortMultipartUpload (uploadId : String) :
    exec ce env (Store.abortMultipartUpload uploadId).prog s w
      = match env.loadMultipart w with
        | .error e => ((.error e, s), w)
        | .ok st => env.commitUploads id (st.remove uploadId) () s w := by
  show exec ce env (MultipartState.load >>= _) s w = _
  rw [exec_bind, exec_multipartLoad]
  cases env.loadMultipart w with
  | error e => rfl
  | ok st => exact exec_multipartSave _

/-! ## CreateMultipartUpload -/

/-- What `createMultipartUpload` checks before it takes the lock. -/
def createCheck (key : String) (opts : PutOptions) : Except StorageError Unit :=
  match validKey key with
  | .error e => .error (.invalidRequest e)
  | .ok () => (validateUserMetadata opts.metadata).mapError .invalidRequest

/-- The record of a new upload. -/
def newUpload (ce : CeRs) (bucket key : String) (opts : PutOptions) (now : Nat) : Upload :=
  { bucket, key, partChunk := ce.defaultChunkSize, contentType := opts.recordedType
    metadata := opts.metadata, created := now, parts := ∅ }

theorem exec_createMultipartUpload (bucket key : String) (opts : PutOptions) :
    exec ce env (Store.createMultipartUpload ce bucket key opts).prog s w
      = match createCheck key opts with
        | .error e => ((.error e, s), w)
        | .ok () =>
          match env.loadMultipart w with
          | .error e => ((.error (.backend e), s), w)
          | .ok st =>
            match env.loadIndex w with
            | .error e => ((.error (.backend e), s), w)
            | .ok i =>
              if i.buckets.contains bucket = true then
                match st.create env.uploadId (newUpload ce bucket key opts env.now) with
                | .error e => ((.error (.invalidRequest e), { s with index := i }), w)
                | .ok st => env.commitUploads .backend st env.uploadId { s with index := i } w
              else ((.error (.noSuchBucket bucket), { s with index := i }), w) := by
  unfold Store.createMultipartUpload createCheck
  cases validKey key with
  | error e => rfl
  | ok u =>
    cases validateUserMetadata opts.metadata with
    | error e => rfl
    | ok u =>
      show exec ce env (MultipartState.load.mapErr _ >>= _) s w = _
      rw [exec_multipartLoad_mapErr]
      cases env.loadMultipart w with
      | error e => rfl
      | ok st =>
        dsimp only [Except.mapError]
        rw [exec_reload_mapErr]
        cases env.loadIndex w with
        | error e => rfl
        | ok i =>
          dsimp only
          rw [exec_bind_ok exec_self, exec_bind_require]
          by_cases hb : i.buckets.contains bucket = true
          · rw [if_pos hb, if_pos hb, exec_bind_ok exec_randomUploadId, exec_bind_ok exec_now,
              exec_bind_lift, ← newUpload]
            cases st.create env.uploadId (newUpload ce bucket key opts env.now) with
            | error e => rfl
            | ok st => exact exec_multipartSave_mapErr _ st env.uploadId
          · rw [if_neg hb, if_neg hb]

/-! ## UploadPart -/

/-- The chunks of a part go to the blob store one by one, the `n`-th blob put and
following: the result, and the blobs stored. -/
def Env.storeChunks (env : Env) :
    Nat → List (String × Bytes) → Except StorageError Unit × List (String × Bytes)
  | _, [] => (.ok (), [])
  | n, (chunkCid, chunk) :: rest =>
    match env.putBlob n chunk with
    | .error e => (.error (.backend s!"storing part chunk: {e}"), [])
    | .ok stored =>
      if stored = chunkCid then
        ((env.storeChunks (n + 1) rest).1, (stored, chunk) :: (env.storeChunks (n + 1) rest).2)
      else (.error (.backend s!"blob store returned {stored} for chunk {chunkCid}"),
        [(stored, chunk)])

theorem exec_putChunks (n : Nat) (chunks : List (String × Bytes)) :
    exec ce env (Store.putChunks n chunks) s w
      = (((env.storeChunks n chunks).1, s), w.setBlobs (env.storeChunks n chunks).2) := by
  induction chunks generalizing n w with
  | nil => rfl
  | cons p rest ih =>
    obtain ⟨chunkCid, chunk⟩ := p
    unfold Store.putChunks Env.storeChunks
    rw [exec_bind, exec_putBlob]
    cases env.putBlob n chunk with
    | error e => rfl
    | ok stored =>
      dsimp only [Except.mapError]
      rw [exec_bind_require]
      by_cases hs : stored = chunkCid
      · rw [if_pos hs, if_pos hs, ih]
        rfl
      · rw [if_neg hs, if_neg hs]
        rfl

/-- The part record of an upload. -/
def newPart (manifest : Manifest) (partNumber : Nat) (etag : String) (bytes : Bytes) : Part :=
  { partNumber, etag, size := bytes.length, chunkCids := manifest.chunks }

/-- `uploadPart` once it has found its upload in `st`. -/
def Env.storePart (ce : CeRs) (env : Env) (uploadId : String) (partNumber : Nat) (bytes : Bytes)
    (st : MultipartState) (s : Store) (w : World) : (Except StorageError String × Store) × World :=
  let obj := ce.chunkObject bytes ce.defaultChunkSize
  let w := w.setBlobs (env.storeChunks 0 obj.2).2
  match (env.storeChunks 0 obj.2).1 with
  | .error e => ((.error e, s), w)
  | .ok () =>
    match env.putBlob obj.2.length (ce.manifestJson obj.1) with
    | .error e => ((.error (.backend s!"storing part manifest: {e}"), s), w)
    | .ok etag =>
      let w := w.setBlob etag (ce.manifestJson obj.1)
      match st.putPart uploadId (newPart obj.1 partNumber etag bytes) with
      | .error e => ((.error (.invalidRequest e), s), w)
      | .ok st => env.commitUploads .backend st etag s w

theorem exec_uploadPart (self : Store) (uploadId : String) (partNumber : Nat) (bytes : Bytes) :
    exec ce env (Store.uploadPart ce self uploadId partNumber bytes).prog s w
      = if self.maxObjectSize < bytes.length then
          ((.error (.invalidRequest
            s!"part size {bytes.length} exceeds max {self.maxObjectSize} bytes"), s), w)
        else
          match env.loadMultipart w with
          | .error e => ((.error (.backend e), s), w)
          | .ok st =>
            if st.uploads.contains uploadId = true then
              env.storePart ce uploadId partNumber bytes st s w
            else ((.error (.noSuchKey s!"multipart upload {uploadId}"), s), w) := by
  unfold Store.uploadPart Env.storePart
  rcases ce.chunkObject bytes ce.defaultChunkSize with ⟨manifest, chunks⟩
  dsimp only
  split
  next => rfl
  next =>
    unfold Op.prog
    dsimp only
    rw [exec_multipartLoad_mapErr]
    cases env.loadMultipart w with
    | error e => rfl
    | ok st =>
      dsimp only
      rw [exec_bind_require]
      by_cases hu : st.uploads.contains uploadId = true
      · rw [if_pos hu, if_pos hu]
        rw [exec_bind, exec_putChunks]
        cases (env.storeChunks 0 chunks).1 with
        | error e => rfl
        | ok u =>
          dsimp only
          rw [exec_bind, exec_putBlob]
          cases env.putBlob _ (ce.manifestJson manifest) with
          | error e => rfl
          | ok etag =>
            dsimp only [Except.mapError]
            rw [exec_bind_lift, ← newPart]
            cases st.putPart uploadId _ with
            | error e => rfl
            | ok st => exact exec_multipartSave_mapErr _ st etag
      · rw [if_neg hu, if_neg hu]

/-! ## CompleteMultipartUpload -/

/-- The metadata a completed upload binds. -/
def completeMeta (upload : Upload) (manifest : Manifest) (cid : String) (now : Nat) : ObjectMeta :=
  { ObjectMeta.new cid manifest.totalSize upload.contentType now with metadata := upload.metadata }

/-- Binding the target of an upload in the index just loaded. -/
def bindUpload (upload : Upload) (m : ObjectMeta) (i : Index) : Except StorageError Index :=
  if i.buckets.contains upload.bucket = true then
    match validateUserMetadata m.metadata with
    | .error e => .error (.invalidRequest e)
    | .ok () =>
      match i.put upload.bucket upload.key m with
      | (.error e, _) => .error (.invalidRequest e)
      | (.ok (), j) => .ok j
  else .error (.noSuchBucket upload.bucket)

/-- `completeMultipartUpload` once the manifest is stored under `cid`. -/
def Env.bindManifest (env : Env) (uploadId : String) (upload : Upload) (manifest : Manifest)
    (cid : String) (st : MultipartState) (s : Store) (w : World) :
    (Except StorageError ObjectMeta × Store) × World :=
  match env.loadIndex w with
  | .error e => ((.error (.backend e), s), w)
  | .ok i =>
    let m := completeMeta upload manifest cid env.now
    match bindUpload upload m i with
    | .error e => ((.error e, { s with index := i }), w)
    | .ok j =>
      match env.saveFails .index with
      | some step => ((.error (.backend (indexSaveContext step)), { s with index := j }),
          w.unsaved .index s.pid (.index j) step)
      | none => env.commitUploads .backend (st.remove uploadId) m { s with index := j }
          (w.saved .index s.pid (.index j))

/-- `completeMultipartUpload` once it has loaded the multipart state. -/
def Env.complete (ce : CeRs) (env : Env) (uploadId : String) (parts : List (Nat × String))
    (st : MultipartState) (s : Store) (w : World) :
    (Except StorageError ObjectMeta × Store) × World :=
  match st.get uploadId with
  | .error _ => ((.error (.noSuchKey s!"multipart upload {uploadId}"), s), w)
  | .ok upload =>
    match assembleManifest ce upload parts with
    | .error e => ((.error (.invalidRequest e), s), w)
    | .ok manifest =>
      if manifest.totalSize ≤ s.maxObjectSize then
        match env.putBlob 0 (ce.manifestJson manifest) with
        | .error e => ((.error (.backend s!"storing object manifest: {e}"), s), w)
        | .ok cid => env.bindManifest uploadId upload manifest cid st s
            (w.setBlob cid (ce.manifestJson manifest))
      else ((.error (.invalidRequest
        s!"assembled object size {manifest.totalSize} exceeds max {s.maxObjectSize} bytes"), s), w)

/-- Binding the target, saving the index, and dropping the record. -/
theorem exec_bindTarget {upload : Upload} {m : ObjectMeta} (st : MultipartState) :
    exec ce env (do
      (Store.edit (·.put upload.bucket upload.key m)).mapErr StorageError.invalidRequest
      Store.flush.mapErr .backend
      st.save.mapErr .backend
      pure m) s w
      = match s.index.put upload.bucket upload.key m with
        | (.error e, _) => ((.error (.invalidRequest e), s), w)
        | (.ok (), j) =>
          match env.saveFails .index with
          | some step => ((.error (.backend (indexSaveContext step)), { s with index := j }),
              w.unsaved .index s.pid (.index j) step)
          | none => env.commitUploads .backend st m { s with index := j }
              (w.saved .index s.pid (.index j)) := by
  rw [exec_bind, exec_mapErr, exec_edit]
  have hput := @Index.put_error s.index upload.bucket upload.key m
  rcases hp : s.index.put upload.bucket upload.key m with ⟨e | u, j⟩
  · rw [hp] at hput
    have hj : j = s.index := hput rfl
    subst hj
    rfl
  · dsimp only [Except.mapError]
    rw [exec_bind, exec_mapErr, exec_flush]
    unfold Env.commit
    cases env.saveFails .index with
    | some step => rfl
    | none => exact exec_multipartSave_mapErr _ _ _

theorem exec_completeMultipartUpload (uploadId : String) (parts : List (Nat × String)) :
    exec ce env (Store.completeMultipartUpload ce uploadId parts).prog s w
      = match env.loadMultipart w with
        | .error e => ((.error (.backend e), s), w)
        | .ok st => env.complete ce uploadId parts st s w := by
  show exec ce env (MultipartState.load.mapErr _ >>= _) s w = _
  rw [exec_multipartLoad_mapErr]
  cases env.loadMultipart w with
  | error e => rfl
  | ok st =>
    dsimp only
    unfold Env.complete
    rw [exec_bind_lift]
    cases st.get uploadId with
    | error e => rfl
    | ok upload =>
      dsimp only [Except.mapError]
      rw [exec_bind_lift]
      cases assembleManifest ce upload parts with
      | error e => rfl
      | ok manifest =>
        dsimp only [Except.mapError]
        rw [exec_bind_ok exec_self, exec_bind_require]
        by_cases hs : manifest.totalSize ≤ s.maxObjectSize
        · rw [if_pos hs, if_pos hs, exec_bind, exec_putBlob]
          cases env.putBlob 0 (ce.manifestJson manifest) with
          | error e => rfl
          | ok cid =>
            dsimp only [Except.mapError]
            rw [exec_reload_mapErr]
            unfold Env.bindManifest
            cases env.loadIndex (w.setBlob cid (ce.manifestJson manifest)) with
            | error e => rfl
            | ok i =>
              dsimp only
              rw [exec_bind_ok exec_self, exec_bind_require]
              unfold bindUpload
              by_cases hb : i.buckets.contains upload.bucket = true
              · rw [if_pos hb, if_pos hb, exec_bind_ok exec_now, exec_bind_lift]
                cases hm : validateUserMetadata upload.metadata with
                | error e =>
                  rw [show (completeMeta upload manifest cid env.now).metadata = upload.metadata
                    from rfl, hm, ObjectMeta.withHeaders, hm]
                  rfl
                | ok u =>
                  rw [show (completeMeta upload manifest cid env.now).metadata = upload.metadata
                    from rfl, hm, ObjectMeta.withHeaders_ok hm]
                  dsimp only [Except.mapError]
                  refine (exec_bindTarget (m := completeMeta upload manifest cid env.now) _).trans ?_
                  rcases i.put upload.bucket upload.key _ with ⟨e | u, j⟩ <;> rfl
              · rw [if_neg hb, if_neg hb]
        · rw [if_neg hs, if_neg hs]

end CeStorage
