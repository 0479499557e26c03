import CeStorage.Store.Verbs

/-!
# Every call reloads

`Store.uncached` is a handle without what it remembers of the index. Every
mutating call reloads the index inside the lock before it uses it, so what it
returns and what it does to the world do not depend on the cached index of the
handle it goes through (`exec_alike`).
-/

namespace CeStorage

open Lib

variable {ε α : Type} {ce : CeRs} {env : Env} {s : Store} {w : World}

/-- The handle with its cached index forgotten. -/
def Store.uncached (s : Store) : Store := { s with index := Index.empty }

/-- Two outcomes of a call, of which the first was on handle `s`: the same result
and the same world, and the handle kept nothing but a cached index. -/
structure Alike (s : Store) (r r' : (Except ε α × Store) × World) : Prop where
  result : r.1.1 = r'.1.1
  world : r.2 = r'.2
  handle : r.1.2.uncached = s.uncached

theorem transact_alike (wrap : String → ε)
    (d : Index → Decision ε α × List (String × Bytes)) :
    Alike s (env.transact wrap d s w) (env.transact wrap d s.uncached w) := by
  unfold Env.transact
  cases env.loadIndex w with
  | error e => exact ⟨rfl, rfl, rfl⟩
  | ok i =>
    dsimp only
    cases (d i).1 with
    | refuse e => exact ⟨rfl, rfl, rfl⟩
    | keep a => exact ⟨rfl, rfl, rfl⟩
    | save j a =>
      unfold Env.commit
      cases env.saveFails .index <;> exact ⟨rfl, rfl, rfl⟩

theorem commitUploads_alike (wrap : String → ε) (st : MultipartState) (a : α) (i i' : Index) :
    Alike s (env.commitUploads wrap st a { s with index := i } w)
      (env.commitUploads wrap st a { s with index := i' } w) := by
  unfold Env.commitUploads
  cases env.saveFails .multipart <;> exact ⟨rfl, rfl, rfl⟩

theorem createMultipartUpload_alike (b k : String) (opts : PutOptions) :
    Alike s (exec ce env (Store.createMultipartUpload ce b k opts).prog s w)
      (exec ce env (Store.createMultipartUpload ce b k opts).prog s.uncached w) := by
  rw [exec_createMultipartUpload, exec_createMultipartUpload]
  cases createCheck k opts with
  | error e => exact ⟨rfl, rfl, rfl⟩
  | ok u =>
    cases env.loadMultipart w with
    | error e => exact ⟨rfl, rfl, rfl⟩
    | ok st =>
      cases env.loadIndex w with
      | error e => exact ⟨rfl, rfl, rfl⟩
      | ok i =>
        dsimp only
        split
        next =>
          cases st.create env.uploadId (newUpload ce b k opts env.now) with
          | error e => exact ⟨rfl, rfl, rfl⟩
          | ok st' => exact commitUploads_alike _ st' env.uploadId i i
        next => exact ⟨rfl, rfl, rfl⟩

theorem uploadPart_alike (id : String) (n : Nat) (bytes : Bytes) :
    Alike s (exec ce env (Store.uploadPart ce s id n bytes).prog s w)
      (exec ce env (Store.uploadPart ce s.uncached id n bytes).prog
          s.uncached w) := by
  rw [exec_uploadPart, exec_uploadPart]
  show Alike s (if s.maxObjectSize < bytes.length then _ else _)
    (if s.maxObjectSize < bytes.length then _ else _)
  split
  next => exact ⟨rfl, rfl, rfl⟩
  next =>
    cases env.loadMultipart w with
    | error e => exact ⟨rfl, rfl, rfl⟩
    | ok st =>
      dsimp only
      split
      next =>
        unfold Env.storePart
        dsimp only
        cases (env.storeChunks 0 _).1 with
        | error e => exact ⟨rfl, rfl, rfl⟩
        | ok u =>
          dsimp only
          cases env.putBlob _ _ with
          | error e => exact ⟨rfl, rfl, rfl⟩
          | ok etag =>
            dsimp only
            cases st.putPart id _ with
            | error e => exact ⟨rfl, rfl, rfl⟩
            | ok st' => exact commitUploads_alike _ st' etag s.index Index.empty
      next => exact ⟨rfl, rfl, rfl⟩

theorem completeMultipartUpload_alike (id : String) (parts : List (Nat × String)) :
    Alike s (exec ce env (Store.completeMultipartUpload ce id parts).prog s w)
      (exec ce env (Store.completeMultipartUpload ce id parts).prog
          s.uncached w) := by
  rw [exec_completeMultipartUpload, exec_completeMultipartUpload]
  cases env.loadMultipart w with
  | error e => exact ⟨rfl, rfl, rfl⟩
  | ok st =>
    dsimp only
    unfold Env.complete
    cases st.get id with
    | error e => exact ⟨rfl, rfl, rfl⟩
    | ok upload =>
      dsimp only
      cases assembleManifest ce upload parts with
      | error e => exact ⟨rfl, rfl, rfl⟩
      | ok manifest =>
        dsimp only
        show Alike s (if manifest.totalSize ≤ s.maxObjectSize then _ else _)
          (if manifest.totalSize ≤ s.maxObjectSize then _ else _)
        split
        next =>
          cases env.putBlob 0 (ce.manifestJson manifest) with
          | error e => exact ⟨rfl, rfl, rfl⟩
          | ok cid =>
            dsimp only
            unfold Env.bindManifest
            cases env.loadIndex _ with
            | error e => exact ⟨rfl, rfl, rfl⟩
            | ok i =>
              dsimp only
              cases bindUpload upload (completeMeta upload manifest cid env.now) i with
              | error e => exact ⟨rfl, rfl, rfl⟩
              | ok j =>
                dsimp only
                cases env.saveFails .index with
                | some step => exact ⟨rfl, rfl, rfl⟩
                | none => exact commitUploads_alike _ _ _ j j
        next => exact ⟨rfl, rfl, rfl⟩

theorem abortMultipartUpload_alike (id : String) :
    Alike s (exec ce env (Store.abortMultipartUpload id).prog s w)
      (exec ce env (Store.abortMultipartUpload id).prog s.uncached w) := by
  rw [exec_abortMultipartUpload, exec_abortMultipartUpload]
  cases env.loadMultipart w with
  | error e => exact ⟨rfl, rfl, rfl⟩
  | ok st => exact commitUploads_alike _ _ _ s.index Index.empty

theorem into_alike {f : ε → Failure} {g : α → Value} {o o' : Op ε α} {s' : Store}
    (h : Alike s (exec ce env o.prog s w) (exec ce env o'.prog s' w)) :
    Alike s (exec ce env (o.into f g).prog s w) (exec ce env (o'.into f g).prog s' w) := by
  rw [exec_into, exec_into]
  exact ⟨congrArg (inject f g) h.result, h.world, h.handle⟩

/-- **What a call does and returns does not depend on the cached index**, and all
that its handle keeps is a new cached index. -/
theorem exec_alike (ce : CeRs) (env : Env) (c : StoreCall) (s : Store) (w : World) :
    Alike s (exec ce env (c.op ce s).prog s w)
      (exec ce env (c.op ce s.uncached).prog s.uncached w) := by
  cases hd : c.plan ce env with
  | some d =>
    have hmax : s.uncached.maxObjectSize = s.maxObjectSize := rfl
    rw [exec_plan hd, exec_plan hd, hmax]
    cases c.check s.maxObjectSize with
    | error e => exact ⟨rfl, rfl, rfl⟩
    | ok u => exact transact_alike _ d
  | none =>
    cases c with
    | createMultipartUpload b k opts => exact into_alike (createMultipartUpload_alike b k opts)
    | uploadPart id n bytes => exact into_alike (uploadPart_alike id n bytes)
    | completeMultipartUpload id parts =>
      exact into_alike (completeMultipartUpload_alike id parts)
    | abortMultipartUpload id => exact into_alike (abortMultipartUpload_alike id)
    | _ => cases hd

end CeStorage
