import CeStorage.Complete
import CeStorage.Handles

/-!
# Handles that crash

A process can crash between any two calls of a mutating method, and leaves the
files, the temp files and its lock file as they are; another one reclaims the
lock when it has gone stale. This module says what the files are worth at any
moment of such a run.

A crash does to the two files what failing saves would have done: the method
either lost both its saves, or the second of its two (`cut_losing`). So the
files are at every moment those of a run without crashes, one call after
another in lock order, in which the crashed calls failed to save
(`crashes_serializable`).
-/

namespace CeStorage

open Lib FileLock

variable {ε α : Type} {P : Type} [DecidableEq P] {ce : CeRs} {env : Env} {s : Store}
  {w v : World} {id : String} {parts : List (Nat × String)}

/-! ## Runs from worlds with the same files -/

/-- Two outcomes with the same result, handle and files. -/
structure SameFiles (r r' : (Except ε α × Store) × World) : Prop where
  outcome : r.1 = r'.1
  files : r.2.files = r'.2.files

theorem SameFiles.into {f : ε → Failure} {g : α → Value} {o : Op ε α}
    (h : SameFiles (exec ce env o.prog s w) (exec ce env o.prog s v)) :
    SameFiles (exec ce env (o.into f g).prog s w) (exec ce env (o.into f g).prog s v) := by
  rw [exec_into, exec_into]
  exact ⟨by rw [h.outcome], h.files⟩

theorem commit_sameFiles (wrap : String → ε) (j : Index) (a : α) (h : w.files = v.files) :
    SameFiles (env.commit wrap j a s w) (env.commit wrap j a s v) := by
  unfold Env.commit
  cases env.saveFails .index with
  | none => exact ⟨rfl, congrArg (Function.update · _ _) h⟩
  | some step =>
    refine ⟨rfl, ?_⟩
    show (w.unsaved _ _ _ _).files = (v.unsaved _ _ _ _).files
    rw [World.files_unsaved, World.files_unsaved, h]

theorem commitUploads_sameFiles (wrap : String → ε) (st : MultipartState) (a : α)
    (h : w.files = v.files) :
    SameFiles (env.commitUploads wrap st a s w) (env.commitUploads wrap st a s v) := by
  unfold Env.commitUploads
  cases env.saveFails .multipart with
  | none => exact ⟨rfl, congrArg (Function.update · _ _) h⟩
  | some step =>
    refine ⟨rfl, ?_⟩
    show (w.unsaved _ _ _ _).files = (v.unsaved _ _ _ _).files
    rw [World.files_unsaved, World.files_unsaved, h]

theorem loadIndex_files (env : Env) (h : w.files = v.files) :
    env.loadIndex w = env.loadIndex v := by
  unfold Env.loadIndex
  rw [h]

theorem loadMultipart_files (env : Env) (h : w.files = v.files) :
    env.loadMultipart w = env.loadMultipart v := by
  unfold Env.loadMultipart
  rw [h]

theorem transact_sameFiles (wrap : String → ε)
    (d : Index → Decision ε α × List (String × Bytes)) (h : w.files = v.files) :
    SameFiles (env.transact wrap d s w) (env.transact wrap d s v) := by
  unfold Env.transact
  rw [loadIndex_files env h]
  cases env.loadIndex v with
  | error e => exact ⟨rfl, h⟩
  | ok i =>
    dsimp only
    have hf : (w.setBlobs (d i).2).files = (v.setBlobs (d i).2).files := by
      rw [World.files_setBlobs, World.files_setBlobs, h]
    cases (d i).1 with
    | refuse e => exact ⟨rfl, hf⟩
    | keep a => exact ⟨rfl, hf⟩
    | save j a => exact commit_sameFiles wrap j a hf

theorem createMultipartUpload_sameFiles (b k : String) (opts : PutOptions)
    (h : w.files = v.files) :
    SameFiles (exec ce env (Store.createMultipartUpload ce b k opts).prog s w)
      (exec ce env (Store.createMultipartUpload ce b k opts).prog s v) := by
  rw [exec_createMultipartUpload, exec_createMultipartUpload, loadIndex_files env h,
    loadMultipart_files env h]
  cases createCheck k opts with
  | error e => exact ⟨rfl, h⟩
  | ok u =>
    cases env.loadMultipart v with
    | error e => exact ⟨rfl, h⟩
    | ok st =>
      cases env.loadIndex v with
      | error e => exact ⟨rfl, h⟩
      | ok i =>
        dsimp only
        split
        next =>
          cases st.create env.uploadId (newUpload ce b k opts env.now) with
          | error e => exact ⟨rfl, h⟩
          | ok st' => exact commitUploads_sameFiles _ st' _ h
        next => exact ⟨rfl, h⟩

theorem uploadPart_sameFiles (self : Store) (id : String) (n : Nat) (bytes : Bytes)
    (h : w.files = v.files) :
    SameFiles (exec ce env (Store.uploadPart ce self id n bytes).prog s w)
      (exec ce env (Store.uploadPart ce self id n bytes).prog s v) := by
  rw [exec_uploadPart, exec_uploadPart, loadMultipart_files env h]
  split
  next => exact ⟨rfl, h⟩
  next =>
    cases env.loadMultipart v with
    | error e => exact ⟨rfl, h⟩
    | ok st =>
      dsimp only
      split
      next =>
        unfold Env.storePart
        dsimp only
        have hf : ∀ l, (w.setBlobs l).files = (v.setBlobs l).files := by
          intro l
          rw [World.files_setBlobs, World.files_setBlobs, h]
        cases (env.storeChunks 0 _).1 with
        | error e => exact ⟨rfl, hf _⟩
        | ok u =>
          dsimp only
          cases env.putBlob _ _ with
          | error e => exact ⟨rfl, hf _⟩
          | ok etag =>
            dsimp only
            cases st.putPart id _ with
            | error e => exact ⟨rfl, hf _⟩
            | ok st' => exact commitUploads_sameFiles _ st' etag (hf _)
      next => exact ⟨rfl, h⟩

theorem bindManifest_sameFiles (upload : Upload) (manifest : Manifest) (cid : String)
    (st : MultipartState) (h : w.files = v.files) :
    SameFiles (env.bindManifest id upload manifest cid st s w)
      (env.bindManifest id upload manifest cid st s v) := by
  unfold Env.bindManifest
  rw [loadIndex_files env h]
  cases env.loadIndex v with
  | error e => exact ⟨rfl, h⟩
  | ok i =>
    dsimp only
    cases bindUpload upload (completeMeta upload manifest cid env.now) i with
    | error e => exact ⟨rfl, h⟩
    | ok j =>
      dsimp only
      cases env.saveFails .index with
      | some step =>
        refine ⟨rfl, ?_⟩
        show (w.unsaved _ _ _ _).files = (v.unsaved _ _ _ _).files
        rw [World.files_unsaved, World.files_unsaved, h]
      | none => exact commitUploads_sameFiles _ _ _ (congrArg (Function.update · _ _) h)

theorem completeMultipartUpload_sameFiles (id : String) (parts : List (Nat × String))
    (h : w.files = v.files) :
    SameFiles (exec ce env (Store.completeMultipartUpload ce id parts).prog s w)
      (exec ce env (Store.completeMultipartUpload ce id parts).prog s v) := by
  rw [exec_completeMultipartUpload, exec_completeMultipartUpload, loadMultipart_files env h]
  cases env.loadMultipart v with
  | error e => exact ⟨rfl, h⟩
  | ok st =>
    dsimp only
    unfold Env.complete
    cases st.get id with
    | error e => exact ⟨rfl, h⟩
    | ok upload =>
      dsimp only
      cases assembleManifest ce upload parts with
      | error e => exact ⟨rfl, h⟩
      | ok manifest =>
        dsimp only
        split
        next =>
          cases env.putBlob 0 (ce.manifestJson manifest) with
          | error e => exact ⟨rfl, h⟩
          | ok cid => exact bindManifest_sameFiles upload manifest cid st h
        next => exact ⟨rfl, h⟩

/-- **A call sees nothing of the world but the two files**: what it returns and
what it makes of the files does not depend on temp files and blobs. -/
theorem exec_sameFiles (ce : CeRs) (env : Env) (c : StoreCall) (s : Store)
    (h : w.files = v.files) :
    SameFiles (exec ce env (c.op ce s).prog s w) (exec ce env (c.op ce s).prog s v) := by
  cases hd : c.plan ce env with
  | some d =>
    rw [exec_plan hd, exec_plan hd]
    cases c.check s.maxObjectSize with
    | error e => exact ⟨rfl, h⟩
    | ok u => exact transact_sameFiles _ d h
  | none =>
    cases c with
    | createMultipartUpload b k opts => exact (createMultipartUpload_sameFiles b k opts h).into
    | uploadPart id n bytes => exact (uploadPart_sameFiles s id n bytes h).into
    | completeMultipartUpload id parts => exact (completeMultipartUpload_sameFiles id parts h).into
    | abortMultipartUpload id =>
      refine SameFiles.into (o := Store.abortMultipartUpload id) ?_
      rw [exec_abortMultipartUpload, exec_abortMultipartUpload, loadMultipart_files env h]
      cases env.loadMultipart v with
      | error e => exact ⟨rfl, h⟩
      | ok st => exact commitUploads_sameFiles _ _ _ h
    | _ => cases hd

/-! ## Which file a call saves -/

/-- A call on the index leaves the multipart state alone. -/
theorem quiet_indexCall {c : StoreCall} {self : Store} (hc : (c.plan ce env).isSome = true) :
    Quiet ce env .multipart (c.op ce self).prog := by
  have flush : Quiet ce env .multipart Store.flush :=
    (quiet_ret _).bind fun _ => quiet_saveFile (by decide) _ _
  have flush_pure : ∀ {β : Type} (a : β), Quiet ce env .multipart (do Store.flush; pure a) :=
    fun a => flush.bind fun _ => quiet_ret _
  have simple : ∀ f : Index → Except String Unit × Index,
      Quiet ce env .multipart (do Store.edit f; Store.flush) :=
    fun f => (quiet_edit f).bind fun _ => flush
  have timed : ∀ f : Nat → Index → Except String Unit × Index,
      Quiet ce env .multipart
        (do Store.reload; let t ← Act.call .now; Store.edit (f t); Store.flush) :=
    fun f => quiet_reload.bind fun _ => quiet_now.bind fun t => simple (f t)
  have into : ∀ {ε α : Type} {o : Op ε α} (f : ε → Failure) (g : α → Value),
      Quiet ce env .multipart o.prog → Quiet ce env .multipart (o.into f g).prog := by
    intro ε α o f g h
    cases o with
    | refused e => exact fun _ => Prog.quiet_ret _
    | locked busy body => exact fun s => (h s).bind fun _ => Prog.quiet_ret _
  cases c with
  | makeBucket b => exact into (o := Store.makeBucket b) _ _ (timed fun t i => i.makeBucket b t)
  | deleteObject b k => exact into (o := Store.deleteObject b k) _ _ (timed _)
  | copyObject sb sk db dk => exact into (o := Store.copyObject sb sk db dk) _ _ (timed _)
  | removeBucket b force =>
    exact into (o := Store.removeBucket b force) _ _ (quiet_reload.bind fun _ => simple _)
  | setVersioning b enabled =>
    exact into (o := Store.setVersioning b enabled) _ _ (quiet_reload.bind fun _ => simple _)
  | setLifecycle b rules =>
    exact into (o := Store.setLifecycle b rules) _ _ (quiet_reload.bind fun _ => simple _)
  | deleteObjectVersion b k v =>
    exact into (o := Store.deleteObjectVersion b k v) _ _ (quiet_reload.bind fun _ => simple _)
  | deleteObjects b ks =>
    refine into (o := Store.deleteObjects b ks) _ _ (quiet_reload.bind fun _ => ?_)
    refine quiet_now.bind fun t => (quiet_deleteMany b t ks).bind fun out => ?_
    exact flush_pure out
  | sweepExpired b =>
    refine into (o := Store.sweepExpired b) _ _ (quiet_reload.bind fun _ => ?_)
    refine quiet_now.bind fun t => (quiet_ret _).bind fun self => ?_
    refine (quiet_lift _).bind fun expired => (quiet_deleteEach b t expired).bind fun _ => ?_
    split
    · exact quiet_ret _
    · exact flush_pure expired
  | sweepAll =>
    refine into (o := Store.sweepAll) _ _ (quiet_reload.bind fun _ => ?_)
    refine quiet_now.bind fun t => (quiet_ret _).bind fun self => ?_
    refine (quiet_sweepBuckets _ _ _ _).bind fun r => ?_
    dsimp only
    split
    · exact flush_pure _
    · exact quiet_ret _
  | putObjectOpts b k bytes opts =>
    refine into (o := self.putObjectOpts b k bytes opts) _ _ ?_
    unfold Store.putObjectOpts
    split
    · exact quiet_ret _
    · split
      · exact quiet_ret _
      · split
        · exact quiet_ret _
        · refine (quiet_reload.mapErr _).bind fun _ => (quiet_ret _).bind fun self => ?_
          refine (quiet_require _ _).bind fun _ => (quiet_lift _).bind fun _ => ?_
          refine (quiet_blob _ _ (by simp)).bind fun cid => quiet_now.bind fun t => ?_
          refine (quiet_lift _).bind fun m => ((quiet_edit _).mapErr _).bind fun _ => ?_
          exact (flush.mapErr _).bind fun _ => quiet_ret _
  | createMultipartUpload b k opts => cases hc
  | uploadPart id n bytes => cases hc
  | completeMultipartUpload id parts => cases hc
  | abortMultipartUpload id => cases hc

theorem atomic_createMultipartUpload (b k : String) (opts : PutOptions) :
    Atomic ce env .multipart (Store.createMultipartUpload ce b k opts).prog := by
  unfold Store.createMultipartUpload
  split
  · exact (quiet_ret _).atomic
  · split
    · exact (quiet_ret _).atomic
    · refine (quiet_multipartLoad.mapErr _).bind_atomic fun st => ?_
      refine (quiet_reload.mapErr _).bind_atomic fun _ => (quiet_ret _).bind_atomic fun self => ?_
      refine (quiet_require _ _).bind_atomic fun _ => ?_
      refine (quiet_call (by simp)).bind_atomic fun id => ?_
      refine quiet_now.bind_atomic fun t => (quiet_lift _).bind_atomic fun st => ?_
      exact ((atomic_saveFile _ _ _).mapErr _).bind_quiet fun _ => quiet_ret _

theorem atomic_uploadPart (self : Store) (id : String) (n : Nat) (bytes : Bytes) :
    Atomic ce env .multipart (Store.uploadPart ce self id n bytes).prog := by
  unfold Store.uploadPart
  split
  · exact (quiet_ret _).atomic
  · refine (quiet_multipartLoad.mapErr _).bind_atomic fun st => ?_
    refine (quiet_require _ _).bind_atomic fun _ => (quiet_putChunks _ _).bind_atomic fun _ => ?_
    refine (quiet_blob _ _ (by simp)).bind_atomic fun etag => ?_
    refine (quiet_lift _).bind_atomic fun st => ?_
    exact ((atomic_saveFile _ _ _).mapErr _).bind_quiet fun _ => quiet_ret _

theorem atomic_abortMultipartUpload (id : String) :
    Atomic ce env .multipart (Store.abortMultipartUpload id).prog :=
  quiet_multipartLoad.bind_atomic fun _ => atomic_saveFile _ _ _

/-- A method that leaves one file alone and replaces the other in one call. -/
theorem cut_files {f g : File} {x : Act ε α} (hfg : f ≠ g) (hf : Atomic ce env f x)
    (hg : Quiet ce env g x) (n : Nat) :
    (cutExec ce env n x s w).files = w.files ∨
      (cutExec ce env n x s w).files = (exec ce env x s w).2.files := by
  have hcut : (cutExec ce env n x s w).files g = w.files g := hg s w n
  have hrun : (exec ce env x s w).2.files g = w.files g := (hg s).run w
  -- the other file is the only one that matters
  have both : ∀ v : World, (cutExec ce env n x s w).files f = v.files f → v.files g = w.files g →
      (cutExec ce env n x s w).files = v.files := by
    intro v h h'
    funext q
    by_cases hq : q = f
    · rw [hq]
      exact h
    · have hqg : q = g := by
        cases f <;> cases g <;> cases q <;> simp at hfg hq ⊢
      rw [hqg, hcut, h']
  rcases hf s w n with h | h
  · exact .inl (both w h rfl)
  · exact .inr (both _ h hrun)

/-! ## A crash is a failed save -/

/-- The same answers, but for the saves of the files in `lost`, which fail. -/
def Env.losing (env : Env) (lost : File → Bool) : Env :=
  { env with saveFails := fun f => if lost f then some .rename else env.saveFails f }

/-- With both saves lost a method leaves both files alone. -/
theorem files_losing_all (x : Act ε α) :
    (exec ce (env.losing fun _ => true) x s w).2.files = w.files := by
  refine Prog.run_inv (A := fun _ => True) (I := fun v : World => v.files = w.files) ?_
    (Prog.uses_true _) rfl
  intro c v _ hv
  funext g
  rw [← hv]
  by_cases hc : ∃ pid, c = .rename g pid
  · obtain ⟨pid, rfl⟩ := hc
    rfl
  · exact files_perform fun pid h => hc ⟨pid, h⟩

/-- Which saves a method can lose: the multipart state is saved last. -/
def LostInOrder (lost : File → Bool) : Prop := lost .index = true → lost .multipart = true

/-- What the losing environment answers before the saves. -/
theorem loadIndex_losing (lost : File → Bool) : (env.losing lost).loadIndex w = env.loadIndex w :=
  rfl

theorem loadMultipart_losing (lost : File → Bool) :
    (env.losing lost).loadMultipart w = env.loadMultipart w := rfl

theorem putBlob_losing (lost : File → Bool) : (env.losing lost).putBlob = env.putBlob := rfl

/-- The completion from where the manifest is stored: its index save is the same,
whatever becomes of the multipart state. -/
theorem bindManifest_losing (upload : Upload) (manifest : Manifest) (cid : String)
    (st : MultipartState) :
    ((env.losing (· == .multipart)).bindManifest id upload manifest cid st s w).2.files
      = Function.update w.files .index
        ((env.bindManifest id upload manifest cid st s w).2.files .index) := by
  have same : w.files = Function.update w.files .index (w.files .index) :=
    (Function.update_eq_self _ _).symm
  unfold Env.bindManifest
  rw [loadIndex_losing]
  cases env.loadIndex w with
  | error e => exact same
  | ok i =>
    dsimp only
    rw [show (env.losing (· == .multipart)).now = env.now from rfl]
    cases bindUpload upload (completeMeta upload manifest cid env.now) i with
    | error e => exact same
    | ok j =>
      dsimp only
      rw [show (env.losing (· == .multipart)).saveFails .index = env.saveFails .index from rfl]
      cases env.saveFails .index with
      | some step =>
        dsimp only
        rw [World.files_unsaved]
        exact same
      | none =>
        dsimp only
        have hlost : ((env.losing (· == .multipart)).commitUploads StorageError.backend
            (st.remove id) (completeMeta upload manifest cid env.now) { s with index := j }
              (w.saved .index s.pid (.index j))).2.files
            = Function.update w.files .index (some (.index j)) := rfl
        rw [hlost]
        unfold Env.commitUploads
        cases env.saveFails .multipart with
        | none => rfl
        | some step =>
          dsimp only
          rw [World.files_unsaved]
          rfl

/-- A completion that loses the save of the multipart state saves the index all
the same. -/
theorem complete_losing_multipart (id : String) (parts : List (Nat × String)) :
    (exec ce (env.losing (· == .multipart)) (Store.completeMultipartUpload ce id parts).prog
        s w).2.files
      = Function.update w.files .index
        ((exec ce env (Store.completeMultipartUpload ce id parts).prog s w).2.files .index) := by
  have same : w.files = Function.update w.files .index (w.files .index) :=
    (Function.update_eq_self _ _).symm
  rw [exec_completeMultipartUpload, exec_completeMultipartUpload, loadMultipart_losing]
  cases env.loadMultipart w with
  | error e => exact same
  | ok st =>
    dsimp only
    unfold Env.complete
    cases st.get id with
    | error e => exact same
    | ok upload =>
      dsimp only
      cases assembleManifest ce upload parts with
      | error e => exact same
      | ok manifest =>
        dsimp only
        split
        next =>
          rw [putBlob_losing]
          cases env.putBlob 0 (ce.manifestJson manifest) with
          | error e => exact same
          | ok cid => exact bindManifest_losing upload manifest cid st
        next => exact same

theorem cutExec_into (n : Nat) (f : ε → Failure) (g : α → Value) (o : Op ε α) :
    cutExec ce env n (o.into f g).prog s w = cutExec ce env n o.prog s w := by
  cases o with
  | refused e => exact (Prog.cut_ret n _ w).trans (Prog.cut_ret n _ w).symm
  | locked busy body =>
    refine (Prog.cut_bind n (body s) _ w).trans ?_
    split
    next => rfl
    next h =>
      rw [Prog.cut_ret]
      exact (cutExec_of_calls_le (Nat.le_of_lt (Nat.lt_of_not_le h))).symm

/-- A completion that is cut has lost both its saves, or the second, or none. -/
theorem cut_complete (ce : CeRs) (env : Env) (s : Store) (w : World) (id : String)
    (parts : List (Nat × String)) (n : Nat) :
    ∃ lost, LostInOrder lost ∧
      (cutExec ce env n (Store.completeMultipartUpload ce id parts).prog s w).files
        = (exec ce (env.losing lost) (Store.completeMultipartUpload ce id parts).prog
            s w).2.files := by
  by_cases hn : n < multipartRenamed
  · have hm : (cutExec ce env n (Store.completeMultipartUpload ce id parts).prog s w).files
        .multipart = w.files .multipart :=
      quietUpTo_complete_multipart s w n (Nat.le_of_lt_succ hn)
    rcases atomic_completeMultipartUpload id parts s w n with h | h
    · refine ⟨fun _ => true, fun _ => rfl, (files_ext ?_ ?_).trans (files_losing_all _).symm⟩
      · exact h
      · exact hm
    · -- cut between the two renames
      refine ⟨(· == .multipart), fun _ => rfl, ?_⟩
      rw [complete_losing_multipart]
      exact files_ext h hm
  · have hend : cutExec ce env n (Store.completeMultipartUpload ce id parts).prog s w
        = (exec ce env (Store.completeMultipartUpload ce id parts).prog s w).2 :=
      cutExec_of_calls_le (Nat.le_trans (atMost_complete s w) (Nat.le_of_not_lt hn))
    exact ⟨fun _ => false, fun h => h, congrArg World.files hend⟩

/-- **A crash is a failed save.** Wherever a method is cut, it leaves the files as
a whole run leaves them that lost its saves, or the second of its two. -/
theorem cut_losing (ce : CeRs) (env : Env) (c : StoreCall) (s : Store) (w : World) (n : Nat) :
    ∃ lost, LostInOrder lost ∧ (cutExec ce env n (c.op ce s).prog s w).files
      = (exec ce (env.losing lost) (c.op ce s).prog s w).2.files := by
  have two : ∀ x : Act Failure Value, (cutExec ce env n x s w).files = w.files ∨
      (cutExec ce env n x s w).files = (exec ce env x s w).2.files →
      ∃ lost, LostInOrder lost ∧
        (cutExec ce env n x s w).files = (exec ce (env.losing lost) x s w).2.files := by
    intro x hx
    rcases hx with h | h
    · exact ⟨fun _ => true, fun _ => rfl, h.trans (files_losing_all x).symm⟩
    · exact ⟨fun _ => false, fun h => h, h⟩
  have quiet_into : ∀ {ε α : Type} {o : Op ε α} (f : ε → Failure) (g : α → Value),
      Quiet ce env .index o.prog → Quiet ce env .index (o.into f g).prog := by
    intro ε α o f g h
    cases o with
    | refused e => exact fun _ => Prog.quiet_ret _
    | locked busy body => exact fun s => (h s).bind fun _ => Prog.quiet_ret _
  by_cases hc : (c.plan ce env).isSome = true
  · exact two _ (cut_files (by decide) (atomic_prog c s) (quiet_indexCall hc) n)
  · cases c with
    | createMultipartUpload b k opts =>
      exact two _ (cut_files (f := .multipart) (g := .index) (by decide)
        ((atomic_createMultipartUpload b k opts).into _ _)
        (quiet_into _ _ (quiet_createMultipartUpload b k opts)) n)
    | uploadPart id m bytes =>
      exact two _ (cut_files (f := .multipart) (g := .index) (by decide)
        ((atomic_uploadPart s id m bytes).into _ _)
        (quiet_into _ _ (quiet_uploadPart s id m bytes)) n)
    | abortMultipartUpload id =>
      have hq : Quiet ce env .index (Store.abortMultipartUpload id).prog :=
        quiet_multipartLoad.bind fun _ => quiet_saveFile (by decide) _ _
      exact two _ (cut_files (f := .multipart) (g := .index) (by decide)
        ((atomic_abortMultipartUpload id).into _ _) (quiet_into _ _ hq) n)
    | completeMultipartUpload id parts =>
      obtain ⟨lost, hlost, h⟩ := cut_complete ce env s w id parts n
      refine ⟨lost, hlost, ?_⟩
      show (cutExec ce env n ((Store.completeMultipartUpload ce id parts).into _ _).prog s w).files
        = (exec ce _ ((Store.completeMultipartUpload ce id parts).into _ _).prog s w).2.files
      rw [cutExec_into, exec_into]
      exact h
    | _ => exact absurd rfl hc

/-! ## One after another -/

/-- The calls of a run, each in an environment in which it loses the saves that a
crash cost it. -/
def losingEach (calls : List (P × Request)) (lost : List (File → Bool)) : List (P × Request) :=
  List.zipWith (fun a l => (a.1, a.2.1, a.2.2.losing l)) calls lost

/-- One turn, complete or cut short, leaves the files as the call alone does that
loses some of its saves, none if the turn was complete; and it returns what that
call returns. -/
theorem turn_losing (ce : CeRs) (handles : P → Store) (t : Turn P Request)
    {x : World × (P → Store)} (hfiles : x.1.files = v.files)
    (hx : ∀ p, (x.2 p).uncached = (handles p).uncached) :
    ∃ lost, LostInOrder lost ∧
      let r := t.what.1.exec ce (t.what.2.losing lost).granted (handles t.who).uncached v
      ((storeScheme ce).turn t x).1.1.files = r.2.files ∧
        (∀ p, (((storeScheme ce).turn t x).1.2 p).uncached = (handles p).uncached) ∧
        ∀ a, ((storeScheme ce).turn t x).2 = some a → lost = (fun _ => false) ∧ r.1.1 = a := by
  obtain ⟨p, ⟨c, env⟩, cut⟩ := t
  -- the whole call, from the files alone
  have whole : ∀ env : Env,
      (exec ce env (c.op ce (x.2 p)).prog (x.2 p) x.1).2.files
        = (c.exec ce env.granted (handles p).uncached v).2.files ∧
      (exec ce env (c.op ce (x.2 p)).prog (x.2 p) x.1).1.1
        = (c.exec ce env.granted (handles p).uncached v).1.1 := by
    intro env
    have halike := exec_alike ce env c (x.2 p) x.1
    have hsame := exec_sameFiles ce env c (x.2 p).uncached hfiles
    rw [exec_alone, ← hx p]
    exact ⟨(congrArg World.files halike.world).trans hsame.files,
      halike.result.trans (congrArg Prod.fst hsame.outcome)⟩
  cases cut with
  | none =>
    refine ⟨fun _ => false, fun h => h, (whole env).1, ?_, ?_⟩
    · intro q
      show (Function.update x.2 p _ q).uncached = _
      by_cases hq : q = p
      · subst hq
        rw [Function.update_self]
        exact (exec_alike ce env c (x.2 q) x.1).handle.trans (hx q)
      · rw [Function.update_of_ne hq]
        exact hx q
    · intro a ha
      cases ha
      exact ⟨rfl, (whole env).2.symm⟩
  | some n =>
    obtain ⟨lost, hlost, hcut⟩ := cut_losing ce env c (x.2 p) x.1 n
    refine ⟨lost, hlost, ?_, hx, ?_⟩
    · exact hcut.trans (whole (env.losing lost)).1
    · intro a ha
      exact nomatch ha

/-- Turns one after another leave the files as the calls alone do, each of which
loses the saves that a crash cost it. -/
theorem serial_losing (ce : CeRs) (handles : P → Store) (ts : List (Turn P Request))
    {x : World × (P → Store)} (hfiles : x.1.files = v.files)
    (hx : ∀ p, (x.2 p).uncached = (handles p).uncached) :
    ∃ lost : List (File → Bool), lost.length = ts.length ∧ (∀ l ∈ lost, LostInOrder l) ∧
      let r := serialRun ce handles (losingEach (ts.map fun t => (t.who, t.what)) lost) v
      ((storeScheme ce).serial ts x).1.1.files = r.1.files ∧
        ∀ (n : Nat) (a : Except Failure Value),
          ((storeScheme ce).serial ts x).2[n]? = some (some a) →
            lost[n]? = some (fun _ => false) ∧ r.2[n]? = some a := by
  induction ts generalizing x v with
  | nil => exact ⟨[], rfl, by simp, hfiles, by simp [Scheme.serial]⟩
  | cons t ts ih =>
    obtain ⟨l, hl, hf, hy, hres⟩ := turn_losing ce handles t hfiles hx
    obtain ⟨lost, hlen, hlost, hfs, hress⟩ := ih hf hy
    refine ⟨l :: lost, by simp [hlen], ?_, hfs, ?_⟩
    · intro l' hl'
      rcases List.mem_cons.mp hl' with rfl | hl'
      · exact hl
      · exact hlost l' hl'
    · intro n a hn
      cases n with
      | zero =>
        obtain ⟨hnone, ha⟩ := hres a (Option.some.inj hn)
        exact ⟨congrArg some hnone, congrArg some ha⟩
      | succ n => exact hress n a hn

/-! ## Runs -/

omit [DecidableEq P] in
theorem getElem?_of_prefix {β : Type} {l l' : List β} {n : Nat} {b : β} (h : l <+: l')
    (hn : l[n]? = some b) : l'[n]? = some b := by
  obtain ⟨rest, rfl⟩ := h
  rw [List.getElem?_append_left (List.getElem?_eq_some_iff.mp hn).1]
  exact hn

/-- The turns of a run so far: those that are over, and the one that is being
made, as if it had crashed. -/
theorem turns_so_far {w₀ : World} {handles : P → Store} {x : Handles P}
    (hI : Guarded.Inv (storeScheme ce) (w₀, handles) x) :
    ∃ ts : List (Turn P Request), x.order = (ts.map fun t => (t.who, t.what)) ∧
      x.sections.log.map Prod.fst <+: ts ∧ ts.length ≤ x.sections.log.length + 1 ∧
      ((storeScheme ce).serial ts (w₀, handles)).1.1 = x.sections.shared ∧
      x.sections.log.map Prod.snd <+: ((storeScheme ce).serial ts (w₀, handles)).2 := by
  have hserial := hI.serial
  by_cases hidle : ∀ p, x.sections.inside p = none
  · refine ⟨x.sections.log.map Prod.fst, ?_, List.prefix_rfl, by simp, (hserial.idle hidle).symm,
      by rw [hserial.results]⟩
    rw [List.map_map]
    exact hI.idle hidle
  · obtain ⟨p, hp⟩ := not_forall.mp hidle
    obtain ⟨seat, hseat⟩ := Option.ne_none_iff_exists'.mp hp
    -- whoever is inside has made some calls of its transaction
    have hbusy := hserial.busy p seat hseat
    rw [← hserial.locals_eq] at hbusy
    refine ⟨x.sections.log.map Prod.fst ++ [⟨p, seat.what, some seat.calls⟩], ?_,
      List.prefix_append _ _, by simp, ?_, ?_⟩
    · rw [hI.busy p seat hseat, List.map_append, List.map_map]
      rfl
    · rw [Scheme.serial_snoc]
      exact congrArg Prod.snd hbusy
    · rw [Scheme.serial_snoc, hserial.results]
      exact List.prefix_append _ _

/-- A run without crashes that explains `x`: the calls of `x` one after another in
lock order, each of which may have lost its saves, or the second of its two. It
leaves the files that `x` has, and what has returned in `x` has lost nothing and
returns the same there. All calls that got the lock but at most one have returned
or crashed. -/
structure Explains (ce : CeRs) (w₀ : World) (handles : P → Store) (x : Handles P)
    (lost : List (File → Bool)) : Prop where
  each : lost.length = x.order.length
  inOrder : ∀ l ∈ lost, LostInOrder l
  files : x.sections.shared.files = (serialRun ce handles (losingEach x.order lost) w₀).1.files
  returned : ∀ (n : Nat) (p : P) (c : Request) (r : Except Failure Value),
    x.completed[n]? = some (p, c, some r) → x.order[n]? = some (p, c) ∧
      lost[n]? = some (fun _ => false) ∧
      (serialRun ce handles (losingEach x.order lost) w₀).2[n]? = some r
  count : x.completed.length ≤ x.order.length ∧ x.order.length ≤ x.completed.length + 1

/-- **Crashes are failed saves.** In every state of every run, crashes at any
moment included, in which no reclaim removes the lock file of a process that holds
the lock, the two files are those of a run without crashes. -/
theorem crashes_serializable (ce : CeRs) (w₀ : World) (handles : P → Store) (x : Handles P)
    (hx : Reach (Guarded.fire (storeScheme ce)) Guarded.Harmless (Guarded.start (w₀, handles)) x) :
    ∃ lost, Explains ce w₀ handles x lost := by
  obtain ⟨ts, horder, hlog, hlen, hshared, hresults⟩ := turns_so_far (Guarded.reach_inv hx)
  obtain ⟨lost, hlost, hordered, hfiles, hres⟩ :=
    serial_losing ce handles ts (x := (w₀, handles)) (v := w₀) rfl fun _ => rfl
  rw [hshared, ← horder] at hfiles
  have hcount : x.completed.length = x.sections.log.length := List.length_map _
  have hts : x.order.length = ts.length := by rw [horder, List.length_map]
  refine ⟨lost, by omega, hordered, hfiles, ?_, ?_, by omega⟩
  · intro n p c r hn
    unfold Handles.completed at hn
    rw [List.getElem?_map] at hn
    obtain ⟨e, he, heq⟩ := Option.map_eq_some_iff.mp hn
    have hwho : e.1.who = p := congrArg (·.1) heq
    have hwhat : e.1.what = c := congrArg (·.2.1) heq
    have hr : e.2 = some r := congrArg (·.2.2) heq
    have hturn : ts[n]? = some e.1 := getElem?_of_prefix hlog (by rw [List.getElem?_map, he]; rfl)
    have hreturned : ((storeScheme ce).serial ts (w₀, handles)).2[n]? = some (some r) :=
      getElem?_of_prefix hresults (by
        rw [List.getElem?_map, he, ← hr]
        rfl)
    rw [horder]
    refine ⟨?_, hres n r hreturned⟩
    rw [List.getElem?_map, hturn, ← hwho, ← hwhat]
    rfl
  · have hle := hlog.length_le
    rw [List.length_map] at hle
    omega

/-- The event removes the lock file to take the lock over. -/
def GuardedEvent.reclaims {P T : Type} : GuardedEvent P T → Bool
  | .lock (.remove _ _) => true
  | _ => false

/-- Where nobody reclaims the lock nothing is asked of a run. -/
theorem Guarded.along_harmless {T C S L ρ : Type} {R : C → Type} {sch : Scheme T C S L ρ R}
    {es : List (GuardedEvent P T)} (h : es.all (fun e => !e.reclaims) = true)
    (x : Guarded P T C S L ρ R) : Along (Guarded.fire sch) Guarded.Harmless es x := by
  refine along_of_forall es x ?_
  intro e he y
  have hnot := List.all_eq_true.mp h e he
  unfold Guarded.Harmless
  split
  next le =>
    unfold FileLock.Harmless
    split
    next p => exact nomatch hnot
    next => trivial
  next => trivial

/-! A completion crashes after it has renamed the index into place; another handle
waits until the lock is stale, reclaims it, and aborts the upload. -/

private def inFlight : World :=
  (World.blank.setFile .index (some (.index (Index.empty.makeBucket "photos" 3).2))).setFile
    .multipart (some (.multipart { MultipartState.empty with
      uploads := (∅ : Std.ExtTreeMap String Upload).insert "u"
        { newUpload CeRs.plain "photos" "a" {} 5 with
          parts := (∅ : Std.ExtTreeMap Nat Part).insert 1
            { partNumber := 1, etag := "e", size := 1, chunkCids := ["c"] } } }))

private def twoHandles : Handles (Fin 2) := Guarded.start (inFlight, fun p => Store.fresh p.val)

/-- The completion makes nine calls and crashes; the lock goes stale. -/
private def crashedMidway : List (GuardedEvent (Fin 2) Request) :=
  [.begin early (.completeMultipartUpload "u" [(1, "e")], Env.calm CeRs.plain 7 "") true,
    .lock (.create early), .enter early true] ++ List.replicate indexRenamed (.call early)
    ++ [.crash early, .lock (.tick (staleAfter + 1)),
      .begin late (.abortMultipartUpload "u", Env.calm CeRs.plain 8 "") true,
      .lock (.create late), .lock (.stat late true)]

private def aborted : List (GuardedEvent (Fin 2) Request) :=
  [.lock (.create late), .enter late true] ++ List.replicate 6 (.call late)
    ++ [.leave late, .drop late true]

private def stale : Handles (Fin 2) :=
  (play (Guarded.fire (storeScheme CeRs.plain)) crashedMidway twoHandles).getD twoHandles

private def recovered : Handles (Fin 2) :=
  (play (Guarded.fire (storeScheme CeRs.plain)) (.lock (.remove late true) :: aborted) stale).getD
    stale

private theorem recovered_reach : Reach (Guarded.fire (storeScheme CeRs.plain)) Guarded.Harmless
    twoHandles recovered := by
  have hstale : Reach (Guarded.fire (storeScheme CeRs.plain)) Guarded.Harmless twoHandles stale :=
    reach_along_getD (Guarded.along_harmless rfl _) (by decide +kernel)
  refine hstale.trans (reach_along_getD ⟨?_, ?_⟩ (by decide +kernel))
  · -- the file is that of the process that crashed
    intro f hf
    obtain rfl : (⟨0, early⟩ : LockFile (Fin 2)) = f := Option.some.inj hf
    rintro ⟨t, ht⟩
    exact ht
  · intro y _
    exact Guarded.along_harmless rfl y

theorem crashes_serializable_recovered : recovered.completed.length = 2 ∧
    ∃ lost, Explains CeRs.plain inFlight (fun p : Fin 2 => Store.fresh p.val) recovered lost :=
  ⟨rfl, crashes_serializable CeRs.plain inFlight (fun p : Fin 2 => Store.fresh p.val) recovered
    recovered_reach⟩

end CeStorage
