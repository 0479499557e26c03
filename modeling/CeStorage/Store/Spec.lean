import CeStorage.Index.Lemmas
import CeStorage.Store.Basic

/-!
# What each store operation does, in one equation

One lemma for each operation gives its whole run, calls and failures included,
as a pure function of the store, the world and the environment's answers. Every
operation on the index has the same form, `transact`: load the index, decide
(`Decision`) whether to fail, to return, or to edit the index and save it.
-/

namespace CeStorage

open Lib
open Std (ExtTreeMap)

variable {ε α β : Type} {ce : CeRs} {env : Env} {s : Store} {w : World}

/-! ## Worlds -/

namespace World

/-- A file after a save that went through: published, its temp file renamed
away. -/
def saved (w : World) (f : File) (pid : Nat) (t : Text) : World :=
  (w.setFile f (some t)).setTemp f pid none

/-- What a save leaves behind that failed at `step`: at most a temp file. -/
def unsaved (w : World) (f : File) (pid : Nat) (t : Text) : SaveStep → World
  | .createDir | .createTemp => w
  | .write => w.setTemp f pid (some .torn)
  | .sync | .rename => w.setTemp f pid (some t)

@[simp] theorem files_setTemp (w : World) (f : File) (pid : Nat) (t : Option Text) :
    (w.setTemp f pid t).files = w.files := rfl

@[simp] theorem blobs_setTemp (w : World) (f : File) (pid : Nat) (t : Option Text) :
    (w.setTemp f pid t).blobs = w.blobs := rfl

@[simp] theorem files_setFile (w : World) (f : File) (t : Option Text) :
    (w.setFile f t).files = Function.update w.files f t := rfl

@[simp] theorem blobs_setFile (w : World) (f : File) (t : Option Text) :
    (w.setFile f t).blobs = w.blobs := rfl

@[simp] theorem files_setBlob (w : World) (c : String) (b : Bytes) :
    (w.setBlob c b).files = w.files := rfl

@[simp] theorem files_setBlobs (w : World) (l : List (String × Bytes)) :
    (w.setBlobs l).files = w.files := by
  unfold setBlobs
  induction l generalizing w with
  | nil => rfl
  | cons p l ih => exact ih (w.setBlob p.1 p.2)

@[simp] theorem files_saved (w : World) (f : File) (pid : Nat) (t : Text) :
    (w.saved f pid t).files = Function.update w.files f (some t) := rfl

@[simp] theorem blobs_saved (w : World) (f : File) (pid : Nat) (t : Text) :
    (w.saved f pid t).blobs = w.blobs := rfl

@[simp] theorem files_unsaved (w : World) (f : File) (pid : Nat) (t : Text) (step : SaveStep) :
    (w.unsaved f pid t step).files = w.files := by
  cases step <;> rfl

@[simp] theorem blobs_unsaved (w : World) (f : File) (pid : Nat) (t : Text) (step : SaveStep) :
    (w.unsaved f pid t step).blobs = w.blobs := by
  cases step <;> rfl

theorem setTemp_setTemp (w : World) (f : File) (pid : Nat) (t u : Option Text) :
    (w.setTemp f pid t).setTemp f pid u = w.setTemp f pid u := by
  simp only [setTemp, Function.update_self, Function.update_idem]

end World

/-! ## Calls -/

@[simp] theorem exec_require (c : Prop) [Decidable c] (e : ε) :
    exec ce env (Act.require c e) s w = ((if c then .ok () else .error e, s), w) := by
  unfold Act.require
  split <;> rfl

theorem exec_bind_lift (x : Except ε α) (f : α → Act ε β) :
    exec ce env (Act.lift x >>= f) s w
      = match x with
        | .ok a => exec ce env (f a) s w
        | .error e => ((.error e, s), w) := by
  cases x <;> rfl

theorem exec_bind_require (c : Prop) [Decidable c] (e : ε) (f : Unit → Act ε β) :
    exec ce env (Act.require c e >>= f) s w
      = if c then exec ce env (f ()) s w else ((.error e, s), w) := by
  unfold Act.require
  split <;> rfl

@[simp] theorem exec_read (f : File) :
    exec ce env (Act.call (.read f) : Act ε _) s w
      = ((.ok (if env.readFails f then none else some (w.files f)), s), w) := rfl

@[simp] theorem exec_now : exec ce env (Act.call .now : Act ε _) s w = ((.ok env.now, s), w) := rfl

@[simp] theorem exec_randomUploadId :
    exec ce env (Act.call .randomUploadId : Act ε _) s w = ((.ok env.uploadId, s), w) := rfl

/-- The blobs a `putObject` stores under the id it was answered. -/
def objectBlobs (ce : CeRs) (bytes : Bytes) (cid : String) : List (String × Bytes) :=
  (ce.chunkObject bytes ce.defaultChunkSize).2
    ++ [(cid, ce.manifestJson (ce.chunkObject bytes ce.defaultChunkSize).1)]

theorem World.setBlobs_append (w : World) (l l' : List (String × Bytes)) :
    w.setBlobs (l ++ l') = (w.setBlobs l).setBlobs l' :=
  List.foldl_append

@[simp] theorem exec_putObject (bytes : Bytes) (context : String → ε) :
    exec ce env (Act.blob (c := .putObject bytes) rfl context) s w
      = (((env.putObject bytes).mapError context, s),
          match env.putObject bytes with
          | .error _ => w
          | .ok cid => w.setBlobs (objectBlobs ce bytes cid)) := by
  unfold Act.blob
  rw [exec_bind_ok (exec_call _), exec_lift]
  simp only [perform, objectBlobs, World.setBlobs_append]
  cases env.putObject bytes <;> rfl

@[simp] theorem exec_putBlob (n : Nat) (bytes : Bytes) (context : String → ε) :
    exec ce env (Act.blob (c := .putBlob n bytes) rfl context) s w
      = (((env.putBlob n bytes).mapError context, s),
          match env.putBlob n bytes with
          | .error _ => w
          | .ok cid => w.setBlob cid bytes) := by
  unfold Act.blob
  rw [exec_bind_ok (exec_call _), exec_lift]
  simp only [perform]
  cases env.putBlob n bytes <;> rfl

theorem exec_ensure {c : Call} (h : Resp c = Bool) (context : ε) :
    exec ce env (Act.ensure h context) s w
      = ((if (h ▸ (perform ce env c w).1 : Bool) then .ok () else .error context, s),
          (perform ce env c w).2) := by
  unfold Act.ensure
  rw [exec_bind_ok (exec_call _), exec_require]

/-! ## Loading and saving -/

/-- What a load of the index answers. -/
def Env.loadIndex (env : Env) (w : World) : Except String Index :=
  if env.readFails .index then .error "reading bucket index" else Index.decode (w.files .index)

/-- What a load of the multipart state answers. -/
def Env.loadMultipart (env : Env) (w : World) : Except String MultipartState :=
  if env.readFails .multipart then .error "reading multipart state"
  else MultipartState.decode (w.files .multipart)

theorem Env.decode_of_loadIndex {i : Index} (h : env.loadIndex w = .ok i) :
    Index.decode (w.files .index) = .ok i := by
  unfold Env.loadIndex at h
  split at h
  · exact nomatch h
  · exact h

theorem Env.decode_of_loadMultipart {st : MultipartState} (h : env.loadMultipart w = .ok st) :
    MultipartState.decode (w.files .multipart) = .ok st := by
  unfold Env.loadMultipart at h
  split at h
  · exact nomatch h
  · exact h

@[simp] theorem exec_indexLoad :
    exec ce env Index.load s w = ((env.loadIndex w, s), w) := by
  unfold Index.load Env.loadIndex
  rw [exec_bind_ok (exec_read _)]
  by_cases h : env.readFails .index <;> simp [h]

@[simp] theorem exec_multipartLoad :
    exec ce env MultipartState.load s w = ((env.loadMultipart w, s), w) := by
  unfold MultipartState.load Env.loadMultipart
  rw [exec_bind_ok (exec_read _)]
  by_cases h : env.readFails .multipart <;> simp [h]

/-! What was loaded has a schema this build supports, and so can be loaded again
once it is saved. -/

theorem Index.schema_of_decode {t : Option Text} {i : Index} (h : Index.decode t = .ok i) :
    i.schema ≤ schemaVersion := by
  unfold Index.decode at h
  split at h
  · cases h
    decide
  · split at h
    · exact nomatch h
    · cases h
      omega
  · exact nomatch h

theorem Index.decode_saved {i : Index} (h : i.schema ≤ schemaVersion) :
    Index.decode (some (.index i)) = .ok i :=
  if_neg (Nat.not_lt.mpr h)

/-- An index with the schema of one that was loaded can be loaded again. -/
theorem Index.decode_kept {t : Option Text} {i j : Index} (hi : Index.decode t = .ok i)
    (hj : j.schema = i.schema) : Index.decode (some (.index j)) = .ok j := by
  refine Index.decode_saved ?_
  rw [hj]
  exact Index.schema_of_decode hi

/-- So can one that a key was put into. -/
theorem Index.decode_put {t : Option Text} {i j : Index} {b k : String} {m : ObjectMeta}
    (hi : Index.decode t = .ok i) (h : i.put b k m = (.ok (), j)) :
    Index.decode (some (.index j)) = .ok j := by
  refine Index.decode_kept hi ?_
  have hj : (i.put b k m).2 = j := congrArg Prod.snd h
  rw [← hj]
  exact put_schema

theorem Env.loadIndex_kept {i j : Index} {w' : World} (hi : env.loadIndex w = .ok i)
    (hj : j.schema = i.schema) (hw : w'.files .index = some (.index j)) :
    env.loadIndex w' = .ok j := by
  have hdecode : Index.decode (w'.files .index) = .ok j := by
    rw [hw]
    exact Index.decode_kept (env.decode_of_loadIndex hi) hj
  unfold Env.loadIndex at hi ⊢
  split at hi
  · cases hi
  next h => rwa [if_neg h]

/-- An index is loaded from its own file, or from none. -/
theorem Index.file_of_decode {t : Option Text} {i : Index} (h : Index.decode t = .ok i) :
    t = none ∧ i = .empty ∨ t = some (.index i) := by
  unfold Index.decode at h
  split at h
  · cases h
    exact .inl ⟨rfl, rfl⟩
  · split at h
    · cases h
    · cases h
      exact .inr rfl
  · cases h

theorem MultipartState.schema_of_decode {t : Option Text} {st : MultipartState}
    (h : MultipartState.decode t = .ok st) : st.schema ≤ multipartSchema := by
  unfold MultipartState.decode at h
  split at h
  · cases h
    decide
  · split at h
    · exact nomatch h
    · cases h
      omega
  · exact nomatch h

theorem MultipartState.decode_saved {st : MultipartState} (h : st.schema ≤ multipartSchema) :
    MultipartState.decode (some (.multipart st)) = .ok st :=
  if_neg (Nat.not_lt.mpr h)

/-- Records with the schema of some that were loaded can be loaded again. -/
theorem MultipartState.decode_kept {t : Option Text} {st st' : MultipartState}
    (hst : MultipartState.decode t = .ok st) (h : st'.schema = st.schema) :
    MultipartState.decode (some (.multipart st')) = .ok st' := by
  refine MultipartState.decode_saved ?_
  rw [h]
  exact MultipartState.schema_of_decode hst

/-- The result and the world of a save. -/
def Env.save (env : Env) (f : File) (context : SaveStep → String) (pid : Nat) (t : Text)
    (w : World) : Except String Unit × World :=
  match env.saveFails f with
  | none => (.ok (), w.saved f pid t)
  | some step => (.error (context step), w.unsaved f pid t step)

theorem exec_saveFile (f : File) (context : SaveStep → String) (t : Text) :
    exec ce env (saveFile f context t) s w
      = (((env.save f context s.pid t w).1, s), (env.save f context s.pid t w).2) := by
  unfold saveFile Env.save
  rw [exec_bind_ok exec_self]
  cases h : env.saveFails f with
  | none =>
    simp [exec_bind, exec_ensure, perform, h, World.setTemp, World.setFile, World.saved]
  | some step =>
    cases step <;>
      simp [exec_bind, exec_ensure, perform, h, World.unsaved, World.setTemp_setTemp]

/-! ## Index operations -/

/-- What an index operation does once it has loaded the index: fail, return, or
save an edited index and return. -/
inductive Decision (ε α : Type) where
  | refuse (e : ε)
  | keep (a : α)
  | save (j : Index) (a : α)

/-- The decision of a single edit: `a` once it is saved. -/
def Decision.ofEdit (r : Except String Unit × Index) (a : α) : Decision String α :=
  match r with
  | (.error e, _) => .refuse e
  | (.ok (), j) => .save j a

theorem Decision.ofEdit_eq_save {r : Except String Unit × Index} {a a' : α} {j : Index} :
    Decision.ofEdit r a = .save j a' ↔ r = (.ok (), j) ∧ a = a' := by
  rcases r with ⟨_ | _, j'⟩ <;> simp [ofEdit]

/-- The end of an operation that has edited the index to `j`: save it. -/
def Env.commit (env : Env) (wrap : String → ε) (j : Index) (a : α) (s : Store) (w : World) :
    (Except ε α × Store) × World :=
  match env.saveFails .index with
  | none => ((.ok a, { s with index := j }), w.saved .index s.pid (.index j))
  | some step => ((.error (wrap (indexSaveContext step)), { s with index := j }),
      w.unsaved .index s.pid (.index j) step)

/-- An index operation from the load on: `decide` also says which blobs are
stored on the way. -/
def Env.transact (env : Env) (wrap : String → ε)
    (decide : Index → Decision ε α × List (String × Bytes)) (s : Store) (w : World) :
    (Except ε α × Store) × World :=
  match env.loadIndex w with
  | .error e => ((.error (wrap e), s), w)
  | .ok i =>
    let w := w.setBlobs (decide i).2
    match (decide i).1 with
    | .refuse e => ((.error e, { s with index := i }), w)
    | .keep a => ((.ok a, { s with index := i }), w)
    | .save j a => env.commit wrap j a s w

/-- A transaction fails to load the index; or it keeps the index as it was loaded; or it saves
what it made of it, and the handle has that whether the save fails or not. -/
theorem transact_cases (env : Env) (wrap : String → ε)
    (decide : Index → Decision ε α × List (String × Bytes)) (s : Store) (w : World) :
    let r := env.transact wrap decide s w
    (∃ e, env.loadIndex w = .error e ∧ r = ((.error (wrap e), s), w)) ∨
      ∃ i, env.loadIndex w = .ok i ∧
        (r.1.2 = { s with index := i } ∧ r.2.files = w.files ∧
            ((∃ e, (decide i).1 = .refuse e ∧ r.1.1 = .error e) ∨
              ∃ a, (decide i).1 = .keep a ∧ r.1.1 = .ok a) ∨
          ∃ j a, (decide i).1 = .save j a ∧ r.1.2 = { s with index := j } ∧
            (env.saveFails .index ≠ none ∧ (∃ e, r.1.1 = .error (wrap e)) ∧ r.2.files = w.files ∨
              env.saveFails .index = none ∧ r.1.1 = .ok a ∧
                r.2.files = Function.update w.files .index (some (.index j)) ∧
                r.2.blobs = (w.setBlobs (decide i).2).blobs)) := by
  dsimp only
  unfold Env.transact
  cases hl : env.loadIndex w with
  | error e => exact .inl ⟨e, rfl, rfl⟩
  | ok i =>
    refine .inr ⟨i, rfl, ?_⟩
    dsimp only
    cases hdec : (decide i).1 with
    | refuse e => exact .inl ⟨rfl, World.files_setBlobs _ _, .inl ⟨e, rfl, rfl⟩⟩
    | keep a => exact .inl ⟨rfl, World.files_setBlobs _ _, .inr ⟨a, rfl, rfl⟩⟩
    | save j a =>
      dsimp only
      unfold Env.commit
      cases env.saveFails .index with
      | some step => exact .inr ⟨j, a, rfl, rfl, .inl ⟨by simp, ⟨_, rfl⟩, by simp⟩⟩
      | none => exact .inr ⟨j, a, rfl, rfl, .inr ⟨rfl, rfl, by simp, by simp⟩⟩

theorem exec_flush : exec ce env Store.flush s w = env.commit id s.index () s w := by
  unfold Store.flush Index.save Env.commit
  rw [exec_bind_ok exec_self, exec_saveFile]
  unfold Env.save
  cases env.saveFails .index <;> rfl

theorem exec_flush_pure (a : α) :
    exec ce env (do Store.flush; pure a) s w = env.commit id s.index a s w := by
  rw [exec_bind, exec_flush]
  unfold Env.commit
  cases env.saveFails .index <;> rfl

/-- The reload, and what follows it. -/
theorem exec_reload (k : Unit → Act String α) :
    exec ce env (Store.reload >>= k) s w
      = match env.loadIndex w with
        | .error e => ((.error e, s), w)
        | .ok i => exec ce env (k ()) { s with index := i } w := by
  unfold Store.reload
  rw [exec_bind, exec_bind, exec_indexLoad]
  cases env.loadIndex w <;> rfl

theorem exec_reload_mapErr (f : String → ε) (k : Unit → Act ε α) :
    exec ce env (Store.reload.mapErr f >>= k) s w
      = match env.loadIndex w with
        | .error e => ((.error (f e), s), w)
        | .ok i => exec ce env (k ()) { s with index := i } w := by
  unfold Store.reload
  rw [exec_bind, exec_mapErr, exec_bind, exec_indexLoad]
  cases env.loadIndex w <;> rfl

theorem exec_edit (f : Index → Except String α × Index) :
    exec ce env (Store.edit f) s w
      = (((f s.index).1, { s with index := (f s.index).2 }), w) := by
  unfold Store.edit
  rw [exec_bind_ok exec_self, exec_bind_ok (exec_setIndex _), exec_lift]

/-- An edit that leaves the index alone when it fails, and the save after it. -/
theorem exec_edit_flush {f : Index → Except String Unit × Index}
    (hf : ∀ i e, (f i).1 = .error e → (f i).2 = i) :
    exec ce env (do Store.edit f; Store.flush) s w
      = match Decision.ofEdit (f s.index) () with
        | .refuse e => ((.error e, s), w)
        | .keep a => ((.ok a, s), w)
        | .save j a => env.commit id j a s w := by
  rw [exec_bind, exec_edit]
  have h := hf s.index
  rcases hr : f s.index with ⟨e | _, j⟩
  · rw [hr] at h
    have hj : j = s.index := h e rfl
    subst hj
    rfl
  · exact exec_flush (s := { s with index := j })

/-! ### Bucket verbs -/

/-- Reload, and do what `d` decides on the loaded index. -/
theorem exec_reload_transact {k : Unit → Act String α} {d : Index → Decision String α}
    (h : ∀ i, exec ce env (k ()) { s with index := i } w
      = match d i with
        | .refuse e => ((.error e, { s with index := i }), w)
        | .keep a => ((.ok a, { s with index := i }), w)
        | .save j a => env.commit id j a s w) :
    exec ce env (Store.reload >>= k) s w = env.transact id (fun i => (d i, [])) s w := by
  rw [exec_reload]
  unfold Env.transact
  cases env.loadIndex w with
  | error e => rfl
  | ok i =>
    refine (h i).trans ?_
    dsimp only
    cases d i <;> rfl

/-- Reload, edit, save. -/
theorem exec_reload_edit {f : Index → Except String Unit × Index}
    (hf : ∀ i e, (f i).1 = .error e → (f i).2 = i) :
    exec ce env (do
      Store.reload
      Store.edit f
      Store.flush) s w
      = env.transact id (fun i => (.ofEdit (f i) (), [])) s w := by
  refine exec_reload_transact ?_
  intro i
  rw [exec_edit_flush hf]
  cases Decision.ofEdit (f i) () <;> rfl

/-- Reload, edit with what the clock says, save. -/
theorem exec_reload_now_edit {f : Nat → Index → Except String Unit × Index}
    (hf : ∀ t i e, (f t i).1 = .error e → (f t i).2 = i) :
    exec ce env (do
      Store.reload
      let t ← Act.call .now
      Store.edit (f t)
      Store.flush) s w
      = env.transact id (fun i => (.ofEdit (f env.now i) (), [])) s w := by
  rw [← exec_reload_edit (hf env.now), exec_reload, exec_reload]
  rfl

theorem exec_makeBucket (bucket : String) :
    exec ce env (Store.makeBucket bucket).prog s w
      = env.transact id (fun i => (.ofEdit (i.makeBucket bucket env.now) (), [])) s w :=
  exec_reload_now_edit (f := fun t i => i.makeBucket bucket t) fun _ _ _ => Index.makeBucket_error

theorem exec_removeBucket (bucket : String) (force : Bool) :
    exec ce env (Store.removeBucket bucket force).prog s w
      = env.transact id (fun i => (.ofEdit (i.removeBucket bucket force) (), [])) s w :=
  exec_reload_edit fun _ _ => Index.removeBucket_error

theorem exec_setVersioning (bucket : String) (enabled : Bool) :
    exec ce env (Store.setVersioning bucket enabled).prog s w
      = env.transact id (fun i => (.ofEdit (i.setVersioning bucket enabled) (), [])) s w :=
  exec_reload_edit fun _ _ => Index.setVersioning_error

theorem exec_setLifecycle (bucket : String) (rules : List LifecycleRule) :
    exec ce env (Store.setLifecycle bucket rules).prog s w
      = env.transact id (fun i => (.ofEdit (i.setLifecycle bucket rules) (), [])) s w :=
  exec_reload_edit fun _ _ => Index.setLifecycle_error

theorem exec_deleteObject (bucket key : String) :
    exec ce env (Store.deleteObject bucket key).prog s w
      = env.transact id (fun i => (.ofEdit (i.delete bucket key env.now) (), [])) s w :=
  exec_reload_now_edit (f := fun t i => i.delete bucket key t) fun _ _ _ => Index.delete_error

theorem exec_deleteObjectVersion (bucket key versionId : String) :
    exec ce env (Store.deleteObjectVersion bucket key versionId).prog s w
      = env.transact id (fun i => (.ofEdit (i.deleteVersion bucket key versionId) (), [])) s w :=
  exec_reload_edit fun _ _ => Index.deleteVersion_error

theorem exec_copyObject (srcBucket srcKey dstBucket dstKey : String) :
    exec ce env (Store.copyObject srcBucket srcKey dstBucket dstKey).prog s w
      = env.transact id
          (fun i => (.ofEdit (i.copy srcBucket srcKey dstBucket dstKey env.now) (), [])) s w :=
  exec_reload_now_edit (f := fun t i => i.copy srcBucket srcKey dstBucket dstKey t)
    fun _ _ _ => Index.copy_error

/-! ### Sweeps and bulk deletes -/

namespace Index

/-- Delete a list of keys of one bucket. -/
def deleteAll (self : Index) (name : String) (t : Nat) (keys : List String) : Index :=
  keys.foldl (fun i k => (i.delete name k t).2) self

/-- A delete fails exactly on a missing bucket. -/
theorem delete_result (i : Index) (b k : String) (t : Nat) :
    (i.delete b k t).1 = (i.bucket b).map fun _ => () := by
  unfold delete
  cases i.bucket b <;> rfl

/-- A delete makes no bucket and drops none. -/
theorem bucket_delete (i : Index) (b k c : String) (t : Nat) :
    ((i.delete b k t).2.bucket c).map (fun _ => ()) = (i.bucket c).map fun _ => () := by
  unfold delete bucket setBucket
  grind [Except.map]

theorem bucket_deleteAll (i : Index) (b c : String) (t : Nat) (keys : List String) :
    ((i.deleteAll b t keys).bucket c).map (fun _ => ()) = (i.bucket c).map fun _ => () := by
  unfold deleteAll
  induction keys generalizing i with
  | nil => rfl
  | cons k ks ih =>
    rw [List.foldl_cons, ih]
    exact bucket_delete i b k c t

end Index

theorem exec_deleteEach {bucket : String} {t : Nat} (keys : List String)
    (h : (s.index.bucket bucket).map (fun _ => ()) = .ok ()) :
    exec ce env (Store.deleteEach bucket t keys) s w
      = ((.ok (), { s with index := s.index.deleteAll bucket t keys }), w) := by
  induction keys generalizing s with
  | nil => rfl
  | cons k ks ih =>
    unfold Store.deleteEach
    rw [exec_bind, exec_edit, Index.delete_result, h]
    dsimp only
    rw [ih]
    · rfl
    · rw [← h]
      exact Index.bucket_delete s.index bucket k bucket t

theorem exec_deleteMany {bucket : String} {t : Nat} (keys : List String) :
    exec ce env (Store.deleteMany bucket t keys) s w
      = ((.ok (keys.map fun k => (k, (s.index.bucket bucket).map fun _ => ())),
          { s with index := s.index.deleteAll bucket t keys }), w) := by
  induction keys generalizing s with
  | nil => rfl
  | cons k ks ih =>
    unfold Store.deleteMany
    rw [exec_bind_ok exec_self]
    dsimp only
    rw [exec_bind_ok (exec_setIndex _), exec_bind_ok ih]
    dsimp only
    rw [Index.bucket_delete, Index.delete_result]
    rfl

theorem exec_deleteObjects (bucket : String) (keys : List String) :
    exec ce env (Store.deleteObjects bucket keys).prog s w
      = env.transact id
          (fun i => (.save (i.deleteAll bucket env.now keys)
            (keys.map fun k => (k, (i.bucket bucket).map fun _ => ())), [])) s w := by
  refine exec_reload_transact ?_
  intro i
  rw [exec_bind_ok exec_now, exec_bind_ok (exec_deleteMany keys), exec_flush_pure]
  rfl

/-- What `sweepExpired` decides on the loaded index. -/
def sweepDecision (bucket : String) (t : Nat) (i : Index) : Decision String (List String) :=
  match i.expiredKeys bucket t with
  | .error e => .refuse e
  | .ok expired =>
    if expired.isEmpty then .keep expired else .save (i.deleteAll bucket t expired) expired

/-- A sweep of a bucket finds its expired keys only if the bucket is there. -/
theorem Index.bucket_of_expiredKeys {i : Index} {b : String} {t : Nat} {expired : List String}
    (h : i.expiredKeys b t = .ok expired) : (i.bucket b).map (fun _ => ()) = .ok () := by
  unfold expiredKeys at h
  cases hb : i.bucket b with
  | error e =>
    rw [hb] at h
    exact nomatch h
  | ok bk => rfl

theorem exec_sweepExpired (bucket : String) :
    exec ce env (Store.sweepExpired bucket).prog s w
      = env.transact id (fun i => (sweepDecision bucket env.now i, [])) s w := by
  refine exec_reload_transact ?_
  intro i
  rw [exec_bind_ok exec_now, exec_bind_ok exec_self, exec_bind, exec_lift]
  unfold sweepDecision
  cases hex : i.expiredKeys bucket env.now with
  | error e => rfl
  | ok expired =>
    dsimp only
    have hb := Index.bucket_of_expiredKeys hex
    rw [exec_bind_ok (exec_deleteEach expired hb), exec_ite]
    by_cases he : expired.isEmpty
    · rw [if_pos he, if_pos he, List.isEmpty_iff.mp he]
      rfl
    · rw [if_neg he, if_neg he, exec_flush_pure]
      rfl

/-- The sweep of a list of buckets: the index it leaves, whether anything was
deleted, and the report. -/
def Index.sweepBuckets (t : Nat) :
    List String → Index → Bool → ExtTreeMap String (List String) →
      Index × Bool × ExtTreeMap String (List String)
  | [], i, any, report => (i, any, report)
  | b :: bs, i, any, report =>
    let expired := ((i.expiredKeys b t).toOption).getD []
    if expired.isEmpty then sweepBuckets t bs i any report
    else sweepBuckets t bs (i.deleteAll b t expired) true (report.insert b expired)

theorem exec_sweepBuckets {t : Nat} (bs : List String) (any : Bool)
    (report : ExtTreeMap String (List String))
    (h : ∀ b ∈ bs, (s.index.bucket b).map (fun _ => ()) = .ok ()) :
    exec ce env (Store.sweepBuckets t bs any report) s w
      = ((.ok (s.index.sweepBuckets t bs any report).2,
          { s with index := (s.index.sweepBuckets t bs any report).1 }), w) := by
  induction bs generalizing s any report with
  | nil => rfl
  | cons b bs ih =>
    have hb := h b List.mem_cons_self
    have hrest : ∀ c ∈ bs, (s.index.bucket c).map (fun _ => ()) = .ok () :=
      fun c hc => h c (List.mem_cons_of_mem b hc)
    obtain ⟨expired, hex⟩ : ∃ expired, s.index.expiredKeys b t = .ok expired := by
      -- the bucket is there, so its expired keys are too
      unfold Index.expiredKeys
      cases hi : s.index.bucket b with
      | error e => rw [hi] at hb; exact nomatch hb
      | ok b => exact ⟨_, rfl⟩
    unfold Store.sweepBuckets Index.sweepBuckets
    rw [exec_bind_ok exec_self, exec_bind, exec_lift, hex]
    dsimp only
    rw [show (Except.toOption (.ok expired : Except String _)).getD [] = expired from rfl, exec_ite]
    by_cases he : expired.isEmpty
    · rw [if_pos he, if_pos he]
      exact ih any report hrest
    · rw [if_neg he, if_neg he, exec_bind_ok (exec_deleteEach expired hb)]
      refine ih (s := { s with index := _ }) true _ ?_
      intro c hc
      rw [Index.bucket_deleteAll]
      exact hrest c hc

/-- What `sweepAll` decides on the loaded index. -/
def sweepAllDecision (t : Nat) (i : Index) :
    Decision String (ExtTreeMap String (List String)) :=
  let r := i.sweepBuckets t i.listBuckets false ∅
  if r.2.1 then .save r.1 r.2.2 else .keep r.2.2

theorem Index.bucket_of_mem_listBuckets {i : Index} {b : String} (h : b ∈ i.listBuckets) :
    (i.bucket b).map (fun _ => ()) = .ok () := by
  unfold listBuckets at h
  unfold bucket
  rw [ExtTreeMap.mem_keys] at h
  rw [ExtTreeMap.getElem?_eq_some_getElem h]
  rfl

/-- Once something was deleted, the sweep says so. -/
theorem Index.sweepBuckets_any {t : Nat} (bs : List String) (i : Index)
    (report : ExtTreeMap String (List String)) :
    (i.sweepBuckets t bs true report).2.1 = true := by
  induction bs generalizing i report with
  | nil => rfl
  | cons b bs ih =>
    unfold sweepBuckets
    dsimp only
    split
    · exact ih i report
    · exact ih _ _

theorem Index.sweepBuckets_keep {t : Nat} (bs : List String) (i : Index) (any : Bool)
    (report : ExtTreeMap String (List String)) (h : (i.sweepBuckets t bs any report).2.1 = false) :
    (i.sweepBuckets t bs any report).1 = i := by
  induction bs generalizing any report with
  | nil => rfl
  | cons b bs ih =>
    unfold sweepBuckets at h ⊢
    dsimp only at h ⊢
    split at h
    · rename_i he
      rw [if_pos he]
      exact ih any report h
    · rw [sweepBuckets_any] at h
      exact nomatch h

theorem exec_sweepAll :
    exec ce env Store.sweepAll.prog s w
      = env.transact id (fun i => (sweepAllDecision env.now i, [])) s w := by
  refine exec_reload_transact ?_
  intro i
  rw [exec_bind_ok exec_now, exec_bind_ok exec_self,
    exec_bind_ok (exec_sweepBuckets _ _ _ fun b hb => Index.bucket_of_mem_listBuckets hb)]
  unfold sweepAllDecision
  dsimp only
  rw [exec_ite]
  by_cases ha : (i.sweepBuckets env.now i.listBuckets false ∅).2.1
  · rw [if_pos ha, if_pos ha, exec_flush_pure]
    rfl
  · -- nothing was deleted, so the index is the one that was loaded
    rw [if_neg ha, if_neg ha, Index.sweepBuckets_keep _ _ _ _ (Bool.eq_false_iff.mpr ha)]
    rfl

/-! ### PutObject -/

/-- What `putObjectOpts` checks before it takes the lock. -/
def putCheck (maxObjectSize : Nat) (key : String) (bytes : Bytes) (opts : PutOptions) :
    Except StorageError Unit :=
  if maxObjectSize < bytes.length then
    .error (.invalidRequest s!"object size {bytes.length} exceeds max {maxObjectSize} bytes")
  else
    match validKey key with
    | .error e => .error (.invalidRequest e)
    | .ok () => (validateUserMetadata opts.metadata).mapError .invalidRequest

/-- The metadata a put binds. -/
def putMeta (cid : String) (bytes : Bytes) (opts : PutOptions) (now : Nat) : ObjectMeta :=
  { ObjectMeta.new cid bytes.length opts.recordedType now with
    metadata := opts.metadata, cacheControl := opts.cacheControl
    contentDisposition := opts.contentDisposition, contentEncoding := opts.contentEncoding }

/-- The write precondition of a put. -/
def putCondition (i : Index) (bucket key : String) (opts : PutOptions) :
    Except StorageError Unit :=
  if opts.preconditions.any then
    opts.preconditions.checkWrite ((i.head bucket key).toOption.map (·.etag))
  else .ok ()

/-- What `putObjectOpts` decides on the loaded index. -/
def putDecision (ce : CeRs) (env : Env) (bucket key : String) (bytes : Bytes)
    (opts : PutOptions) (i : Index) : Decision StorageError ObjectMeta × List (String × Bytes) :=
  if i.buckets.contains bucket then
    match putCondition i bucket key opts with
    | .error e => (.refuse e, [])
    | .ok () =>
      match env.putObject bytes with
      | .error e => (.refuse (.backend s!"storing object: {e}"), [])
      | .ok cid =>
        let m := putMeta cid bytes opts env.now
        (.save (i.put bucket key m).2 m, objectBlobs ce bytes cid)
  else (.refuse (.noSuchBucket bucket), [])

/-- A put into a bucket that is there, of a valid key and metadata, succeeds. -/
theorem Index.put_ok {i : Index} {b k : String} {m : ObjectMeta}
    (hb : i.buckets.contains b = true) (hk : validKey k = .ok ())
    (hm : validateUserMetadata m.metadata = .ok ()) : (i.put b k m).1 = .ok () := by
  unfold put bucket
  rw [hk, hm]
  rw [ExtTreeMap.contains_iff_mem] at hb
  rw [ExtTreeMap.getElem?_eq_some_getElem hb]

/-- Attaching metadata that was checked before. -/
theorem ObjectMeta.withHeaders_ok {m : ObjectMeta} {md : UserMetadata}
    {cc cd ce : Option String} (hm : validateUserMetadata md = .ok ()) :
    m.withHeaders md cc cd ce
      = .ok { m with
          metadata := md, cacheControl := cc, contentDisposition := cd, contentEncoding := ce } := by
  unfold withHeaders
  rw [hm]
  rfl

/-- Binding a key to checked metadata, saving the index, and what follows. -/
theorem exec_put_flush {b k : String} {m : ObjectMeta} (rest : Unit → Act StorageError α)
    (hb : s.index.buckets.contains b = true) (hk : validKey k = .ok ())
    (hm : validateUserMetadata m.metadata = .ok ()) :
    exec ce env (do
      (Store.edit (·.put b k m)).mapErr .invalidRequest
      Store.flush.mapErr .backend
      rest ()) s w
      = match env.saveFails .index with
        | none => exec ce env (rest ()) { s with index := (s.index.put b k m).2 }
            (w.saved .index s.pid (.index (s.index.put b k m).2))
        | some step => ((.error (.backend (indexSaveContext step)),
            { s with index := (s.index.put b k m).2 }),
            w.unsaved .index s.pid (.index (s.index.put b k m).2) step) := by
  rw [exec_bind, exec_mapErr, exec_edit, Index.put_ok hb hk hm]
  dsimp only [Except.mapError]
  rw [exec_bind, exec_mapErr, exec_flush]
  unfold Env.commit
  cases env.saveFails .index <;> rfl

theorem exec_putObjectOpts (self : Store) (bucket key : String) (bytes : Bytes)
    (opts : PutOptions) :
    exec ce env (self.putObjectOpts bucket key bytes opts).prog s w
      = match putCheck self.maxObjectSize key bytes opts with
        | .error e => ((.error e, s), w)
        | .ok () => env.transact .backend (putDecision ce env bucket key bytes opts) s w := by
  unfold Store.putObjectOpts putCheck
  split
  next => rfl
  next =>
    cases hk : validKey key with
    | error e => rfl
    | ok u =>
      cases hm : validateUserMetadata opts.metadata with
      | error e => rfl
      | ok u =>
        show exec ce env (Store.reload.mapErr _ >>= _) s w = _
        rw [exec_reload_mapErr]
        unfold Env.transact putDecision
        cases env.loadIndex w with
        | error e => rfl
        | ok i =>
          dsimp only
          rw [exec_bind_ok exec_self, exec_bind_require]
          by_cases hb : i.buckets.contains bucket = true
          · rw [if_pos hb, if_pos hb, exec_bind_lift, ← putCondition]
            cases putCondition i bucket key opts with
            | error e => rfl
            | ok u =>
              dsimp only
              rw [exec_bind, exec_putObject]
              cases env.putObject bytes with
              | error e => rfl
              | ok cid =>
                dsimp only [Except.mapError]
                rw [exec_bind_ok exec_now, exec_bind_lift, ObjectMeta.withHeaders_ok hm]
                dsimp only [Except.mapError]
                rw [exec_put_flush (fun _ => pure _) hb hk hm]
                unfold Env.commit
                cases env.saveFails .index <;> rfl
          · rw [if_neg hb, if_neg hb]
            rfl

/-- A put alone: its check, the lock, and the transaction. -/
theorem putObjectOpts_exec (self : Store) (b k : String) (bytes : Bytes) (opts : PutOptions) :
    (self.putObjectOpts b k bytes opts).exec ce env s w
      = match putCheck self.maxObjectSize k bytes opts with
        | .error e => ((.error e, s), w)
        | .ok () =>
          match env.lock with
          | .error m => ((.error (.backend m), s), w)
          | .ok () => env.transact .backend (putDecision ce env b k bytes opts) s w := by
  have h : exec ce env (self.putObjectOpts b k bytes opts).prog s w = _ :=
    exec_putObjectOpts self b k bytes opts
  unfold Store.putObjectOpts putCheck at h ⊢
  by_cases hsize : self.maxObjectSize < bytes.length
  · rw [if_pos hsize, if_pos hsize]
    rfl
  · rw [if_neg hsize, if_neg hsize] at h ⊢
    cases hk : validKey k with
    | error e => rfl
    | ok u =>
      cases hm : validateUserMetadata opts.metadata with
      | error e => rfl
      | ok u =>
        rw [hk, hm] at h
        show (match env.lock with | .error m => _ | .ok () => _) = _
        cases env.lock with
        | error m => rfl
        | ok u => exact h

end CeStorage
