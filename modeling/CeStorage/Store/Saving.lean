import CeStorage.Store.Edits

/-!
# What a call leaves in memory

A method edits the index its handle has in memory before it saves it, and takes
the edit back from neither if the save fails. So the handle a call leaves behind,
and the blobs, are those of the same call with saves that succeed
(`exec_saving`); and there the handle has what it had, or what the file holds
(`InMemory.cached`).
-/

namespace CeStorage

open Lib
open Std (ExtTreeMap)

variable {ε α : Type} {ce : CeRs} {env : Env} {s : Store} {w : World}

/-- The environment, with saves that succeed. -/
def Env.saving (env : Env) : Env := { env with saveFails := fun _ => none }

/-- `r` leaves the handle and the blobs that `r'` leaves, where the index in memory
is the one before the call or the one in the file after it. -/
structure InMemory (s : Store) (r r' : (Except ε α × Store) × World) : Prop where
  handle : r.1.2 = r'.1.2
  blobs : r.2.blobs = r'.2.blobs
  cached : r'.1.2.index = s.index ∨ Index.decode (r'.2.files .index) = .ok r'.1.2.index

/-- A call that touches neither. -/
theorem inMemory_same {r r' : (Except ε α × Store) × World} (h : r.1.2 = s) (h' : r'.1.2 = s)
    (hb : r.2.blobs = r'.2.blobs) : InMemory s r r' :=
  ⟨h.trans h'.symm, hb, .inl (congrArg Store.index h')⟩

/-- A call that ends with the index it loaded. -/
theorem inMemory_loaded {r : (Except ε α × Store) × World} {i : Index}
    (h : r.1.2.index = i) (hi : Index.decode (r.2.files .index) = .ok i) : InMemory s r r :=
  ⟨rfl, rfl, .inr (h ▸ hi)⟩

theorem loaded_kept {i : Index} (h : env.loadIndex w = .ok i) (w' : World)
    (hw : w'.files .index = w.files .index) : Index.decode (w'.files .index) = .ok i := by
  rw [hw]
  exact Env.decode_of_loadIndex h

/-- The end of an operation on uploads leaves the handle alone. -/
theorem inMemory_commitUploads (wrap : String → ε) (st : MultipartState) (a : α) {s' : Store}
    (h : s'.index = s.index ∨ Index.decode (w.files .index) = .ok s'.index) :
    InMemory s (env.commitUploads wrap st a s' w) (env.saving.commitUploads wrap st a s' w) := by
  have hend : env.saving.commitUploads wrap st a s' w
      = ((.ok a, s'), w.saved .multipart s'.pid (.multipart st)) := rfl
  rw [hend]
  unfold Env.commitUploads
  cases env.saveFails .multipart with
  | none => exact ⟨rfl, rfl, h⟩
  | some step => exact ⟨rfl, by simp, h⟩

theorem inMemory_transact (wrap : String → ε) {d : Index → Decision ε α × List (String × Bytes)}
    (hsave : ∀ i j a, (d i).1 = .save j a → j.schema = i.schema) :
    InMemory s (env.transact wrap d s w) (env.saving.transact wrap d s w) := by
  have hl : env.saving.loadIndex w = env.loadIndex w := rfl
  unfold Env.transact
  rw [hl]
  cases hi : env.loadIndex w with
  | error e => exact inMemory_same rfl rfl rfl
  | ok i =>
    dsimp only
    cases hdec : (d i).1 with
    | refuse e => exact inMemory_loaded rfl (loaded_kept hi _ (by simp))
    | keep a => exact inMemory_loaded rfl (loaded_kept hi _ (by simp))
    | save j a =>
      have hend : env.saving.commit wrap j a s (w.setBlobs (d i).2)
          = ((.ok a, { s with index := j }),
              (w.setBlobs (d i).2).saved .index s.pid (.index j)) := rfl
      have hj : Index.decode (some (.index j)) = .ok j :=
        Index.decode_kept (Env.decode_of_loadIndex hi) (hsave i j a hdec)
      have hcached : ((w.setBlobs (d i).2).saved .index s.pid (.index j)).files .index
          = some (.index j) := by
        simp
      dsimp only
      rw [hend]
      unfold Env.commit
      cases env.saveFails .index with
      | none => exact ⟨rfl, rfl, .inr (by rw [hcached]; exact hj)⟩
      | some step => exact ⟨rfl, by simp, .inr (by rw [hcached]; exact hj)⟩

theorem inMemory_create (b k : String) (opts : PutOptions) :
    InMemory s (exec ce env (Store.createMultipartUpload ce b k opts).prog s w)
      (exec ce env.saving (Store.createMultipartUpload ce b k opts).prog s w) := by
  rw [exec_createMultipartUpload, exec_createMultipartUpload]
  have hm : env.saving.loadMultipart w = env.loadMultipart w := rfl
  have hl : env.saving.loadIndex w = env.loadIndex w := rfl
  have hnow : env.saving.now = env.now := rfl
  have hid : env.saving.uploadId = env.uploadId := rfl
  rw [hm, hl, hnow, hid]
  cases createCheck k opts with
  | error e => exact inMemory_same rfl rfl rfl
  | ok u =>
    cases env.loadMultipart w with
    | error e => exact inMemory_same rfl rfl rfl
    | ok st =>
      cases hi : env.loadIndex w with
      | error e => exact inMemory_same rfl rfl rfl
      | ok i =>
        have hloaded : Index.decode (w.files .index) = .ok i := Env.decode_of_loadIndex hi
        dsimp only
        split
        next =>
          cases st.create env.uploadId (newUpload ce b k opts env.now) with
          | error e => exact inMemory_loaded rfl hloaded
          | ok st' =>
            exact inMemory_commitUploads StorageError.backend st' env.uploadId (.inr hloaded)
        next => exact inMemory_loaded rfl hloaded

theorem storeChunks_saving (n : Nat) (l : List (String × Bytes)) :
    env.saving.storeChunks n l = env.storeChunks n l := by
  induction l generalizing n with
  | nil => rfl
  | cons p rest ih =>
    unfold Env.storeChunks
    rw [ih]
    rfl

theorem inMemory_uploadPart (self : Store) (id : String) (n : Nat) (bytes : Bytes) :
    InMemory s (exec ce env (Store.uploadPart ce self id n bytes).prog s w)
      (exec ce env.saving (Store.uploadPart ce self id n bytes).prog s w) := by
  rw [exec_uploadPart, exec_uploadPart]
  have hm : env.saving.loadMultipart w = env.loadMultipart w := rfl
  rw [hm]
  split
  next => exact inMemory_same rfl rfl rfl
  next =>
    cases env.loadMultipart w with
    | error e => exact inMemory_same rfl rfl rfl
    | ok st =>
      dsimp only
      split
      next =>
        have hput : env.saving.putBlob = env.putBlob := rfl
        unfold Env.storePart
        dsimp only
        rw [storeChunks_saving, hput]
        cases (env.storeChunks 0 _).1 with
        | error e => exact inMemory_same rfl rfl rfl
        | ok u =>
          dsimp only
          cases env.putBlob _ _ with
          | error e => exact inMemory_same rfl rfl rfl
          | ok etag =>
            dsimp only
            cases st.putPart id _ with
            | error e => exact inMemory_same rfl rfl rfl
            | ok st' => exact inMemory_commitUploads StorageError.backend st' etag (.inl rfl)
      next => exact inMemory_same rfl rfl rfl

theorem inMemory_bindManifest (id : String) (upload : Upload) (manifest : Manifest) (cid : String)
    (st : MultipartState) :
    InMemory s (env.bindManifest id upload manifest cid st s w)
      (env.saving.bindManifest id upload manifest cid st s w) := by
  have hl : env.saving.loadIndex w = env.loadIndex w := rfl
  have hnow : env.saving.now = env.now := rfl
  have hnone : env.saving.saveFails .index = none := rfl
  unfold Env.bindManifest
  rw [hl]
  cases hi : env.loadIndex w with
  | error e => exact inMemory_same rfl rfl rfl
  | ok i =>
    have hloaded : Index.decode (w.files .index) = .ok i := Env.decode_of_loadIndex hi
    dsimp only
    rw [hnow, hnone]
    cases hb : bindUpload upload (completeMeta upload manifest cid env.now) i with
    | error e => exact inMemory_loaded rfl hloaded
    | ok j =>
      have hput := bindUpload_ok hb
      have hj : Index.decode (some (.index j)) = .ok j := Index.decode_put hloaded hput
      have hsaved : Index.decode ((w.saved .index s.pid (.index j)).files .index) = .ok j := by
        rw [show (w.saved .index s.pid (.index j)).files .index = some (.index j) by simp]
        exact hj
      have hcommit : InMemory s
          (env.commitUploads StorageError.backend (st.remove id)
            (completeMeta upload manifest cid env.now) { s with index := j }
            (w.saved .index s.pid (.index j)))
          (env.saving.commitUploads StorageError.backend (st.remove id)
            (completeMeta upload manifest cid env.now) { s with index := j }
            (w.saved .index s.pid (.index j))) :=
        inMemory_commitUploads _ _ _ (.inr hsaved)
      dsimp only
      cases env.saveFails .index with
      | none => exact hcommit
      | some step =>
        -- the index in memory is not taken back
        refine ⟨rfl, ?_, hcommit.cached⟩
        have hend : (env.saving.commitUploads StorageError.backend (st.remove id)
            (completeMeta upload manifest cid env.now) { s with index := j }
            (w.saved .index s.pid (.index j))).2
          = (w.saved .index s.pid (.index j)).saved .multipart s.pid
              (.multipart (st.remove id)) := rfl
        rw [hend]
        simp

theorem inMemory_complete (id : String) (parts : List (Nat × String)) :
    InMemory s (exec ce env (Store.completeMultipartUpload ce id parts).prog s w)
      (exec ce env.saving (Store.completeMultipartUpload ce id parts).prog s w) := by
  rw [exec_completeMultipartUpload, exec_completeMultipartUpload]
  have hm : env.saving.loadMultipart w = env.loadMultipart w := rfl
  have hput : env.saving.putBlob = env.putBlob := rfl
  rw [hm]
  cases env.loadMultipart w with
  | error e => exact inMemory_same rfl rfl rfl
  | ok st =>
    dsimp only
    unfold Env.complete
    rw [hput]
    cases st.get id with
    | error e => exact inMemory_same rfl rfl rfl
    | ok upload =>
      dsimp only
      cases assembleManifest ce upload parts with
      | error e => exact inMemory_same rfl rfl rfl
      | ok manifest =>
        dsimp only
        split
        next =>
          cases env.putBlob 0 (ce.manifestJson manifest) with
          | error e => exact inMemory_same rfl rfl rfl
          | ok cid => exact inMemory_bindManifest id upload manifest cid st
        next => exact inMemory_same rfl rfl rfl

theorem inMemory_abort (id : String) :
    InMemory s (exec ce env (Store.abortMultipartUpload id).prog s w)
      (exec ce env.saving (Store.abortMultipartUpload id).prog s w) := by
  rw [exec_abortMultipartUpload, exec_abortMultipartUpload]
  have hm : env.saving.loadMultipart w = env.loadMultipart w := rfl
  rw [hm]
  cases env.loadMultipart w with
  | error e => exact inMemory_same rfl rfl rfl
  | ok st => exact inMemory_commitUploads _ _ _ (.inl rfl)

theorem inMemory_into {f : ε → Failure} {g : α → Value} {o : Op ε α}
    (h : InMemory s (exec ce env o.prog s w) (exec ce env.saving o.prog s w)) :
    InMemory s (exec ce env (o.into f g).prog s w) (exec ce env.saving (o.into f g).prog s w) := by
  rw [exec_into, exec_into]
  exact ⟨h.handle, h.blobs, h.cached⟩

/-- **Saves that fail change neither what a call leaves in memory nor its blobs.** -/
theorem exec_saving (c : StoreCall) (s : Store) (w : World) :
    InMemory s (c.exec ce env s w) (c.exec ce env.saving s w) := by
  have hlock' : env.saving.lock = env.lock := rfl
  cases hlock : env.lock with
  | error e =>
    unfold StoreCall.exec Op.exec
    cases c.op ce s with
    | refused e' => exact inMemory_same rfl rfl rfl
    | locked busy body =>
      rw [hlock', hlock]
      exact inMemory_same rfl rfl rfl
  | ok u =>
    rw [StoreCall.exec, StoreCall.exec, Op.exec_of_lock hlock,
      Op.exec_of_lock (hlock'.trans hlock)]
    rcases c.plan_cases ce env with ⟨d, hd⟩ | ⟨b, k, opts, rfl⟩ | ⟨id, n, bytes, rfl⟩ |
      ⟨id, parts, rfl⟩ | ⟨id, rfl⟩
    · have hd' : c.plan ce env.saving = some d := by
        rw [← hd]
        cases c <;> rfl
      rw [exec_plan hd, exec_plan hd']
      cases c.check s.maxObjectSize with
      | error e => exact inMemory_same rfl rfl rfl
      | ok u =>
        refine inMemory_transact _ fun i j a hsave => ?_
        exact Index.schema_edited (plan_edited (w := w) hd hsave)
    · exact inMemory_into (o := Store.createMultipartUpload ce b k opts) (inMemory_create b k opts)
    · exact inMemory_into (o := Store.uploadPart ce s id n bytes) (inMemory_uploadPart s id n bytes)
    · exact inMemory_into (o := Store.completeMultipartUpload ce id parts)
        (inMemory_complete id parts)
    · exact inMemory_into (o := Store.abortMultipartUpload id) (inMemory_abort id)

end CeStorage
