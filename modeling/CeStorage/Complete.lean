import CeStorage.CeRs
import CeStorage.Index.Lemmas
import CeStorage.Lib.Runs
import CeStorage.Store.Crash
import CeStorage.Store.Outcomes

/-!
# Completing an upload, again and again

`completeMultipartUpload` commits in two files: the index first, then the
multipart state. A client whose call fails, or whose server crashes, sends the
same completion again until it succeeds or the upload is unknown. This module
follows such a run (`CompleteRun`) and asks what it makes of the index.

Everything turns on whether an attempt gets one of its two renames done without
the other (`Attempt.Torn`). If none does, the target is bound exactly once. A
torn attempt leaves the upload in place with its object already bound, and the
next attempt binds it again: on an unversioned bucket the second binding
replaces the first, on a versioned one it is a second version.
-/

namespace CeStorage

open Lib
open Std (ExtTreeMap)

variable {ce : CeRs} {env : Env} {s : Store} {w : World} {id : String}
  {parts : List (Nat × String)}

/-! ## Where the calls of a completion are

Read the multipart state, put the manifest, read the index, ask the clock; then
five calls that save the index and five that save the multipart state. -/

/-- A completion that made this many calls has renamed the index into place. -/
def indexRenamed : Nat := 9

/-- A completion that made this many calls has renamed the multipart state into
place. -/
def multipartRenamed : Nat := 14

/-- Four calls come before the first save. -/
theorem quietUpTo_complete {g : File} {k : Nat}
    (tail : ∀ (st : MultipartState) (m : ObjectMeta), QuietUpTo ce env g k (do
      Store.flush.mapErr StorageError.backend
      st.save.mapErr .backend
      pure m)) :
    QuietUpTo ce env g (k + 4) (Store.completeMultipartUpload ce id parts).prog := by
  have load : ∀ s w, 1 ≤ callsExec ce env MultipartState.load s w :=
    fun s w => le_callsExec_bind (Act.call (.read .multipart)) _
  have reload : ∀ s w, 1 ≤ callsExec ce env Store.reload s w := fun s w =>
    Nat.le_trans (le_callsExec_bind (Act.call (.read .index)) _) (le_callsExec_bind Index.load _)
  refine (quiet_multipartLoad.mapErr _).bind_upTo (c := 1)
    (fun s w _ _ => (callsExec_mapErr _ _).symm ▸ load s w) fun st => ?_
  refine (quiet_lift _).then_upTo fun upload => (quiet_lift _).then_upTo ?_
  intro manifest
  refine (quiet_ret _).then_upTo fun self => (quiet_require _ _).then_upTo ?_
  intro _
  refine (quiet_blob _ _ (by simp)).bind_upTo (c := 1)
    (fun _ _ _ _ => Nat.le_of_eq (callsExec_blob _ _).symm) fun cid => ?_
  refine (quiet_reload.mapErr _).bind_upTo (c := 1)
    (fun s w _ _ => (callsExec_mapErr _ _).symm ▸ reload s w) fun _ => ?_
  refine (quiet_ret _).then_upTo fun self => (quiet_require _ _).then_upTo ?_
  intro _
  refine quiet_now.bind_upTo (c := 1) (fun _ _ _ _ => Nat.le_refl 1) fun t => ?_
  refine (quiet_lift _).then_upTo fun m => ((quiet_edit _).mapErr _).then_upTo ?_
  intro _
  exact tail _ m

/-- A save that succeeds makes five calls, whatever its errors are turned into. -/
theorem callsExec_saveFile_mapErr {ε : Type} {wrap : String → ε} {f : File}
    {context : SaveStep → String} {t : Text} {s : Store} {w : World} {r : Unit}
    (h : (exec ce env ((saveFile f context t).mapErr wrap) s w).1.1 = .ok r) :
    callsExec ce env ((saveFile f context t).mapErr wrap) s w = 5 := by
  rw [exec_mapErr] at h
  rw [callsExec_mapErr]
  cases hr : (exec ce env (saveFile f context t) s w).1.1 with
  | error e => rw [hr] at h; exact nomatch h
  | ok u => exact callsExec_saveFile hr

/-- What follows a save does not touch a file before the save is through. -/
theorem quietUpTo_save_bind {ε β : Type} {g f : File} (wrap : String → ε)
    (context : SaveStep → String) (t : Text) (rest : Unit → Act ε β) :
    QuietUpTo ce env g 4 ((saveFile f context t).mapErr wrap >>= rest) := by
  refine QuietUpTo.bind ?_ ?_ ?_ rest
  · intro s w n hn
    exact (congrArg (·.files g) (cutExec_mapErr n wrap _)).trans
      (quietUpTo_saveFile f context t s w n hn)
  · intro s w r hr
    rw [callsExec_saveFile_mapErr hr]
    decide
  · intro s w e he
    rw [exec_mapErr, exec_saveFile] at he ⊢
    unfold Env.save at he ⊢
    cases hs : env.saveFails f with
    | none => rw [hs] at he; exact nomatch he
    | some step => exact congrFun (World.files_unsaved _ _ _ _ _) g

theorem quietUpTo_complete_index :
    QuietUpTo ce env .index 8 (Store.completeMultipartUpload ce id parts).prog :=
  quietUpTo_complete fun st m s => quietUpTo_save_bind (f := .index) StorageError.backend
    indexSaveContext (.index s.index) (fun _ => do st.save.mapErr .backend; pure m) s

theorem quietUpTo_complete_multipart :
    QuietUpTo ce env .multipart 13 (Store.completeMultipartUpload ce id parts).prog := by
  refine quietUpTo_complete (k := 9) ?_
  intro st m s
  refine Quiet.bind_upTo (c := 5) (x := (saveFile .index indexSaveContext (.index s.index)).mapErr
    StorageError.backend) ((quiet_saveFile (by decide) _ _).mapErr _) ?_ (fun _ => ?_) s
  · intro s w r hr
    exact Nat.le_of_eq (callsExec_saveFile_mapErr hr).symm
  · exact quietUpTo_save_bind _ _ _ _

theorem atMost_complete :
    AtMost ce env 14 (Store.completeMultipartUpload ce id parts).prog := by
  have load : AtMost ce env 1 MultipartState.load :=
    (atMost_call _).bind (j := 1) (k := 0) fun r => by
      rcases r with _ | t
      · exact atMost_ret _
      · exact atMost_lift _
  have reload : AtMost ce env 1 Store.reload :=
    AtMost.bind (j := 1) (k := 0) ((atMost_call _).bind (j := 1) (k := 0) fun r => by
      rcases r with _ | t
      · exact atMost_ret _
      · exact atMost_lift _) fun _ => atMost_ret _
  have edit : ∀ f : Index → Except String Unit × Index, AtMost ce env 0 (Store.edit f) :=
    fun f => (atMost_ret _).bind (j := 0) (k := 0) fun _ =>
      (atMost_ret _).bind (j := 0) (k := 0) fun _ => atMost_lift _
  have flush : AtMost ce env 5 Store.flush :=
    (atMost_ret _).bind (j := 0) (k := 5) fun _ => atMost_saveFile _ _ _
  -- the calls in the order of the handler: 1 + 1 + 1 + 1 + 5 + 5
  refine (load.mapErr _).bind (k := 13) fun st => ?_
  refine (atMost_lift _).bind (j := 0) (k := 13) fun upload => ?_
  refine (atMost_lift _).bind (j := 0) (k := 13) fun manifest => ?_
  refine (atMost_ret _).bind (j := 0) (k := 13) fun self => ?_
  refine (atMost_require _ _).bind (j := 0) (k := 13) fun _ => ?_
  refine (atMost_blob _ _).bind (j := 1) (k := 12) fun cid => ?_
  refine (reload.mapErr _).bind (k := 11) fun _ => ?_
  refine (atMost_ret _).bind (j := 0) (k := 11) fun self => ?_
  refine (atMost_require _ _).bind (j := 0) (k := 11) fun _ => ?_
  refine (atMost_call _).bind (j := 1) (k := 10) fun t => ?_
  refine (atMost_lift _).bind (j := 0) (k := 10) fun m => ?_
  refine ((edit _).mapErr _).bind (k := 10) fun _ => ?_
  refine (flush.mapErr _).bind (k := 5) fun _ => ?_
  exact ((atMost_saveFile _ _ _).mapErr _).bind (k := 0) fun _ => atMost_ret _

/-! ## Attempts -/

/-- One attempt at a completion: the handle it goes through, the environment's
answers, and after how many calls the process crashes, if it does. -/
structure Attempt where
  handle : Store
  env : Env
  crash : Option Nat

namespace Attempt

/-- What an attempt returns (`none`: it crashed), and the world it leaves. -/
def run (ce : CeRs) (id : String) (parts : List (Nat × String)) (a : Attempt) (w : World) :
    Option (Except StorageError ObjectMeta) × World :=
  let op := Store.completeMultipartUpload ce id parts
  match a.crash with
  | none => (some (op.exec ce a.env a.handle w).1.1, (op.exec ce a.env a.handle w).2)
  | some n =>
    match a.env.lock with
    | .error _ => (none, w)
    | .ok () => (none, cutExec ce a.env n op.prog a.handle w)

/-- The attempt gets its index rename done but not its multipart rename: it
crashes between the two, or the save of the multipart state fails. -/
structure Torn (a : Attempt) : Prop where
  lock : a.env.lock = .ok ()
  reads : ∀ f, a.env.readFails f = false
  index : a.env.saveFails .index = none
  multipart :
    match a.crash with
    | none => a.env.saveFails .multipart ≠ none
    | some n => indexRenamed ≤ n ∧ (n < multipartRenamed ∨ a.env.saveFails .multipart ≠ none)

end Attempt

/-- `j` is `i` with the target of `upload` bound once, to the assembly of
`parts`. -/
def Binds (ce : CeRs) (upload : Upload) (parts : List (Nat × String)) (i j : Index) : Prop :=
  ∃ manifest cid now, assembleManifest ce upload parts = .ok manifest ∧
    i.put upload.bucket upload.key (completeMeta upload manifest cid now) = (.ok (), j)

variable {i j : Index} {st : MultipartState} {upload : Upload}

/-- A completion of an upload that is there, run to its end: it leaves both files
alone and fails, or saves the index and fails at the multipart state, or
succeeds. -/
theorem complete_exec_cases (ce : CeRs) (env : Env) (s : Store) (parts : List (Nat × String))
    (hi : Index.decode (w.files .index) = .ok i)
    (hst : MultipartState.decode (w.files .multipart) = .ok st)
    (hu : st.uploads[id]? = some upload) :
    let r := exec ce env (Store.completeMultipartUpload ce id parts).prog s w
    (r.2.files = w.files ∧ ∃ e, r.1.1 = .error e ∧ e ≠ .noSuchKey s!"multipart upload {id}") ∨
      (∀ f, env.readFails f = false) ∧ env.saveFails .index = none ∧
        ∃ j, Binds ce upload parts i j ∧
          ((∃ e, r.1.1 = .error e ∧ e ≠ .noSuchKey s!"multipart upload {id}") ∧
            env.saveFails .multipart ≠ none ∧
              r.2.files = Function.update w.files .index (some (.index j)) ∨
          (∃ m, r.1.1 = .ok m) ∧
            r.2.files = Function.update (Function.update w.files .index (some (.index j)))
              .multipart (some (.multipart (st.remove id)))) := by
  dsimp only
  rcases complete_prog_cases ce env id parts s w with ⟨hf, e, he, hmiss⟩ |
    ⟨st', upload', manifest, cid, i', j, hass, -, hend⟩
  · refine .inl ⟨hf, e, he, ?_⟩
    intro h
    obtain ⟨st', hst', hu'⟩ := hmiss h
    cases hst.symm.trans hst'
    exact nomatch hu.symm.trans hu'
  · cases hst.symm.trans hass.loaded
    cases hu.symm.trans hass.found
    cases hi.symm.trans hass.index
    have hb : Binds ce upload parts i j := ⟨manifest, cid, env.now, hass.assembled, hass.bound⟩
    refine .inr ⟨hass.reads, hass.saved, j, hb, ?_⟩
    rcases hend with ⟨⟨step, he⟩, hm, hf⟩ | ⟨he, hf⟩
    · exact .inl ⟨⟨_, he, by simp⟩, hm, hf⟩
    · exact .inr ⟨⟨_, he⟩, hf⟩

/-! ### One attempt -/

/-- The client stops once the completion succeeded or the upload is unknown. -/
def ends (id : String) : Option (Except StorageError ObjectMeta) → Bool
  | some (.ok _) => true
  | some (.error e) => e == .noSuchKey s!"multipart upload {id}"
  | none => false

theorem ends_error {e : StorageError} (h : e ≠ .noSuchKey s!"multipart upload {id}") :
    ends id (some (.error e)) = false :=
  beq_false_of_ne h

theorem files_ext {f f' : File → Option Text} (hi : f .index = f' .index)
    (hm : f .multipart = f' .multipart) : f = f' := by
  funext g
  cases g
  · exact hi
  · exact hm

/-- An attempt at an upload that is there leaves both files alone, or is torn,
or commits; in the first two cases the client goes on. -/
theorem attempt_cases (ce : CeRs) (parts : List (Nat × String)) (a : Attempt)
    (hi : Index.decode (w.files .index) = .ok i)
    (hst : MultipartState.decode (w.files .multipart) = .ok st)
    (hu : st.uploads[id]? = some upload) :
    let r := a.run ce id parts w
    (r.2.files = w.files ∧ ends id r.1 = false) ∨
      ∃ j, Binds ce upload parts i j ∧
        (a.Torn ∧ ends id r.1 = false ∧
            r.2.files = Function.update w.files .index (some (.index j)) ∨
          r.2.files = Function.update (Function.update w.files .index (some (.index j)))
            .multipart (some (.multipart (st.remove id)))) := by
  obtain ⟨s, env, crash⟩ := a
  have hcases := complete_exec_cases ce env s parts hi hst hu
  unfold Attempt.run
  dsimp only at hcases ⊢
  cases hl : env.lock with
  | error e =>
    refine .inl ?_
    cases crash with
    | none =>
      unfold Op.exec Store.completeMultipartUpload
      dsimp only
      rw [hl]
      exact ⟨rfl, ends_error (by simp)⟩
    | some n => exact ⟨rfl, rfl⟩
  | ok u =>
    cases crash with
    | none =>
      have hex : (Store.completeMultipartUpload ce id parts).exec ce env s w
          = exec ce env (Store.completeMultipartUpload ce id parts).prog s w := by
        unfold Op.exec Store.completeMultipartUpload
        dsimp only
        rw [hl]
        rfl
      dsimp only
      rw [hex]
      rcases hcases with ⟨hf, e, he, hne⟩ | ⟨hr, hs, j, hb, ⟨⟨e, he, hne⟩, hm, hf⟩ | ⟨-, hf⟩⟩
      · refine .inl ⟨hf, ?_⟩
        rw [he]
        exact ends_error hne
      · refine .inr ⟨j, hb, .inl ⟨⟨hl, hr, hs, hm⟩, ?_, hf⟩⟩
        rw [he]
        exact ends_error hne
      · exact .inr ⟨j, hb, .inr hf⟩
    | some n =>
      dsimp only
      by_cases hn : n < indexRenamed
      · -- neither rename was made
        refine .inl ⟨files_ext ?_ ?_, rfl⟩
        · exact quietUpTo_complete_index s w n (Nat.le_of_lt_succ hn)
        · exact quietUpTo_complete_multipart s w n (by unfold indexRenamed at hn; omega)
      · by_cases hn' : n < multipartRenamed
        · -- at most the index was renamed
          have hm : (cutExec ce env n (Store.completeMultipartUpload ce id parts).prog s w).files
              .multipart = w.files .multipart :=
            quietUpTo_complete_multipart s w n (Nat.le_of_lt_succ hn')
          rcases atomic_completeMultipartUpload id parts s w n with h | h
          · exact .inl ⟨files_ext h hm, rfl⟩
          · rcases hcases with ⟨hf, -⟩ | ⟨hr, hs, j, hb, hrun⟩
            · exact .inl ⟨files_ext (h.trans (congrFun hf .index)) hm, rfl⟩
            · have hindex : (exec ce env (Store.completeMultipartUpload ce id parts).prog s
                  w).2.files .index = some (.index j) := by
                rcases hrun with ⟨-, -, hf⟩ | ⟨-, hf⟩ <;> rw [hf] <;> rfl
              refine .inr ⟨j, hb, .inl ⟨⟨hl, hr, hs, Nat.le_of_not_lt hn, .inl hn'⟩, rfl, ?_⟩⟩
              exact files_ext (h.trans hindex) hm
        · -- the run was over
          have hend : cutExec ce env n (Store.completeMultipartUpload ce id parts).prog s w
              = (exec ce env (Store.completeMultipartUpload ce id parts).prog s w).2 :=
            cutExec_of_calls_le (Nat.le_trans (atMost_complete s w) (Nat.le_of_not_lt hn'))
          rw [hend]
          rcases hcases with ⟨hf, -⟩ | ⟨hr, hs, j, hb, ⟨-, hm, hf⟩ | ⟨-, hf⟩⟩
          · exact .inl ⟨hf, rfl⟩
          · exact .inr ⟨j, hb, .inl ⟨⟨hl, hr, hs, Nat.le_of_not_lt hn, .inr hm⟩, rfl, hf⟩⟩
          · exact .inr ⟨j, hb, .inr hf⟩

/-- An attempt at an upload that is not there leaves both files alone. -/
theorem attempt_unknown (ce : CeRs) (parts : List (Nat × String)) (a : Attempt)
    (hst : MultipartState.decode (w.files .multipart) = .ok st) (hu : st.uploads[id]? = none) :
    (a.run ce id parts w).2.files = w.files := by
  obtain ⟨s, env, crash⟩ := a
  -- without the upload the handler stops after the load
  have hrun : (exec ce env (Store.completeMultipartUpload ce id parts).prog s w).2 = w := by
    rw [exec_completeMultipartUpload]
    unfold Env.loadMultipart
    rw [hst]
    by_cases hr : env.readFails .multipart
    · rw [if_pos hr]
    · rw [if_neg hr]
      dsimp only
      unfold Env.complete MultipartState.get
      rw [hu]
  unfold Attempt.run
  cases crash with
  | none =>
    dsimp only
    rcases Op.exec_cases ce env (Store.completeMultipartUpload ce id parts) s w with ⟨e, h⟩ | h
    · rw [h]
    · rw [h, hrun]
  | some n =>
    dsimp only
    cases env.lock with
    | error e => rfl
    | ok u =>
      by_cases hn : n < multipartRenamed
      · refine files_ext ?_ (quietUpTo_complete_multipart s w n (Nat.le_of_lt_succ hn))
        rcases atomic_completeMultipartUpload id parts s w n with h | h
        · exact h
        · exact h.trans (congrArg (·.files .index) hrun)
      · have hend : cutExec ce env n (Store.completeMultipartUpload ce id parts).prog s w = w :=
          (cutExec_of_calls_le (Nat.le_trans (atMost_complete s w) (Nat.le_of_not_lt hn))).trans
            hrun
        exact congrArg World.files hend

/-! ## Runs -/

/-- The world, and whether the client has stopped. -/
structure CompleteRun where
  world : World
  ended : Bool

/-- One more attempt, unless the client has stopped. -/
def CompleteRun.fire (ce : CeRs) (id : String) (parts : List (Nat × String)) (a : Attempt)
    (x : CompleteRun) : Option CompleteRun :=
  if x.ended then none
  else some ⟨(a.run ce id parts x.world).2, ends id (a.run ce id parts x.world).1⟩

/-- The bucket keeps a history. -/
def Versioned (i : Index) (b : String) : Prop :=
  ∃ bucket, i.buckets[b]? = some bucket ∧ bucket.versioning = true

/-- From the files of `w₀`, whose index is `i₀`: nothing has happened and the
client is still trying, or the target of `upload` has been bound once. -/
def CommittedOnce (ce : CeRs) (upload : Upload) (parts : List (Nat × String)) (w₀ : World)
    (i₀ : Index) (x : CompleteRun) : Prop :=
  (x.world.files = w₀.files ∧ x.ended = false) ∨
    ∃ j, Binds ce upload parts i₀ j ∧ x.world.files .index = some (.index j)

theorem Binds.schema (h : Binds ce upload parts i j) : j.schema = i.schema := by
  obtain ⟨manifest, cid, now, -, hp⟩ := h
  have hs := Index.put_schema (i := i) (b := upload.bucket) (k := upload.key)
    (m := completeMeta upload manifest cid now)
  rw [hp] at hs
  exact hs

/-- On an unversioned bucket a second binding replaces the first. -/
theorem Binds.again {j' : Index} (hv : ¬ Versioned i upload.bucket)
    (h : Binds ce upload parts i j) (h' : Binds ce upload parts j j') :
    Binds ce upload parts i j' := by
  obtain ⟨manifest, cid, now, -, hp⟩ := h
  obtain ⟨manifest', cid', now', hman, hp'⟩ := h'
  refine ⟨manifest', cid', now', hman, Index.put_put ?_ hp hp'⟩
  intro bk hbk
  by_contra hver
  exact hv ⟨bk, hbk, Bool.not_eq_false _ ▸ hver⟩

/-- What a run keeps: nothing has happened; or the target is bound once, and the
upload is gone unless the bucket is unversioned. -/
def CompleteInv (ce : CeRs) (id : String) (upload : Upload) (parts : List (Nat × String))
    (w₀ : World) (i₀ : Index) (st₀ : MultipartState) (x : CompleteRun) : Prop :=
  (x.world.files = w₀.files ∧ x.ended = false) ∨
    ∃ j, Binds ce upload parts i₀ j ∧ x.world.files .index = some (.index j) ∧
      (x.world.files .multipart = some (.multipart (st₀.remove id)) ∨
        x.world.files .multipart = w₀.files .multipart ∧ ¬ Versioned i₀ upload.bucket)

variable {w₀ : World} {i₀ : Index} {st₀ : MultipartState} {x x' : CompleteRun}

theorem completeInv_step (hi : Index.decode (w₀.files .index) = .ok i₀)
    (hst : MultipartState.decode (w₀.files .multipart) = .ok st₀)
    (hu : st₀.uploads[id]? = some upload) {a : Attempt}
    (hok : a.Torn → ¬ Versioned i₀ upload.bucket)
    (hx : CompleteInv ce id upload parts w₀ i₀ st₀ x)
    (hf : CompleteRun.fire ce id parts a x = some x') :
    CompleteInv ce id upload parts w₀ i₀ st₀ x' := by
  unfold CompleteRun.fire at hf
  split at hf
  · exact nomatch hf
  cases hf
  -- the three states of the invariant: untouched, done, or bound with the upload left
  rcases hx with ⟨hfiles, -⟩ | ⟨j, hj, hindex, hgone | ⟨hthere, hv⟩⟩
  · -- nothing has happened so far
    rw [← hfiles] at hi hst
    rcases attempt_cases ce parts a hi hst hu with
      ⟨h, hend⟩ | ⟨j, hj, ⟨htorn, hend, h⟩ | h⟩
    · exact .inl ⟨h.trans hfiles, hend⟩
    · refine .inr ⟨j, hj, by rw [h]; rfl, .inr ⟨?_, hok htorn⟩⟩
      rw [h, ← hfiles]
      rfl
    · exact .inr ⟨j, hj, by rw [h]; rfl, .inl (by rw [h]; rfl)⟩
  · -- the upload is gone: the attempt finds nothing to complete
    have hdec : MultipartState.decode (x.world.files .multipart) = .ok (st₀.remove id) := by
      rw [hgone]
      exact MultipartState.decode_kept hst rfl
    have h := attempt_unknown ce parts a hdec (get_erase_self : (st₀.remove id).uploads[id]? = none)
    exact .inr ⟨j, hj, by rw [h]; exact hindex, .inl (by rw [h]; exact hgone)⟩
  · -- bound but still there, on an unversioned bucket: it is bound again
    have hdec : Index.decode (x.world.files .index) = .ok j := by
      rw [hindex]
      exact Index.decode_kept hi hj.schema
    rw [← hthere] at hst
    rcases attempt_cases ce parts a hdec hst hu with
      ⟨h, -⟩ | ⟨j', hj', ⟨-, -, h⟩ | h⟩
    · exact .inr ⟨j, hj, by rw [h]; exact hindex, .inr ⟨by rw [h]; exact hthere, hv⟩⟩
    · refine .inr ⟨j', hj.again hv hj', by rw [h]; rfl, .inr ⟨?_, hv⟩⟩
      rw [h]
      exact hthere
    · exact .inr ⟨j', hj.again hv hj', by rw [h]; rfl, .inl (by rw [h]; rfl)⟩

/-- **A completion commits exactly once, however often it is tried, if no
attempt on a versioned bucket is torn.** -/
theorem complete_commits_once (ce : CeRs) (id : String) (parts : List (Nat × String)) (w₀ : World)
    (i₀ : Index) (st₀ : MultipartState) (upload : Upload) (x : CompleteRun)
    (hi : Index.decode (w₀.files .index) = .ok i₀)
    (hst : MultipartState.decode (w₀.files .multipart) = .ok st₀)
    (hu : st₀.uploads[id]? = some upload)
    (hx : Reach (CompleteRun.fire ce id parts)
      (fun _ a => a.Torn → ¬ Versioned i₀ upload.bucket) ⟨w₀, false⟩ x) :
    CommittedOnce ce upload parts w₀ i₀ x := by
  have hinv : CompleteInv ce id upload parts w₀ i₀ st₀ x :=
    hx.inv (.inl ⟨rfl, rfl⟩) fun _ _ _ _ h hok hf => completeInv_step hi hst hu hok h hf
  rcases hinv with h | ⟨j, hj, hindex, -⟩
  · exact .inl h
  · exact .inr ⟨j, hj, hindex⟩

/-! ### A torn attempt on a versioned bucket -/

/-- One part of one byte, uploaded to `photos/a`. -/
private def onePart : Upload :=
  { newUpload CeRs.plain "photos" "a" {} 5 with
    parts := (∅ : ExtTreeMap Nat Part).insert 1
      { partNumber := 1, etag := "e", size := 1, chunkCids := ["c"] } }

/-- The index before: an empty bucket that keeps a history, or does not. -/
private def emptyBucket (versioning : Bool) : Index :=
  Index.empty.setBucket "photos" { created := 3, versioning, lifecycle := [], objects := ∅ }

private def oneUpload : MultipartState :=
  { MultipartState.empty with uploads := (∅ : ExtTreeMap String Upload).insert "u" onePart }

private def beforeCompletion (versioning : Bool) : World :=
  (World.blank.setFile .index (some (.index (emptyBucket versioning)))).setFile .multipart
    (some (.multipart oneUpload))

/-- An attempt whose multipart state cannot be renamed into place. -/
private def tornAttempt : Attempt :=
  { handle := Store.fresh 1, crash := none
    env := { Env.calm CeRs.plain 8 "" with
      saveFails := fun f => if f = .multipart then some .rename else none } }

private def calmAttempt : Attempt :=
  { handle := Store.fresh 1, crash := none, env := Env.calm CeRs.plain 9 "" }

/-- The run: a torn attempt, and a second one that succeeds. -/
private def twoAttempts (versioning : Bool) : CompleteRun :=
  let w := (tornAttempt.run CeRs.plain "u" [(1, "e")] (beforeCompletion versioning)).2
  ⟨(calmAttempt.run CeRs.plain "u" [(1, "e")] w).2, true⟩

private theorem twoAttempts_reach {ok : CompleteRun → Attempt → Prop} {v : Bool}
    (hok : ∀ x a, ok x a) :
    Reach (CompleteRun.fire CeRs.plain "u" [(1, "e")]) ok ⟨beforeCompletion v, false⟩
      (twoAttempts v) := by
  cases v
  · exact .next (.next .start (hok _ tornAttempt) rfl) (hok _ calmAttempt) rfl
  · exact .next (.next .start (hok _ tornAttempt) rfl) (hok _ calmAttempt) rfl

/-- How many versions of `photos/a` an index file lists. -/
private def versionsIn : Option Text → Nat
  | some (.index i) => ((i.history "photos" "a").map (·.versions.length)).getD 0
  | _ => 0

/-- One binding is one more version on a bucket that keeps a history. -/
theorem Binds.history (h : Binds ce upload parts i j) :
    ∃ bk v, i.buckets[upload.bucket]? = some bk ∧
      j.history upload.bucket upload.key
        = some (Index.putVersion bk (i.history upload.bucket upload.key) v) := by
  obtain ⟨manifest, cid, now, -, hp⟩ := h
  obtain ⟨bk, hbk, hh⟩ := Index.history_put upload.bucket upload.key hp
  rw [if_pos ⟨rfl, rfl⟩] at hh
  exact ⟨bk, _, hbk, hh⟩

/-- A completion whose multipart state could not be saved, tried again on a
versioned bucket, has bound its target twice: not every run commits once. -/
theorem torn_completion_commits_twice :
    ¬ ∀ (ce : CeRs) (id : String) (parts : List (Nat × String)) (w₀ : World) (i₀ : Index)
        (st₀ : MultipartState) (upload : Upload) (x : CompleteRun),
      Index.decode (w₀.files .index) = .ok i₀ →
      MultipartState.decode (w₀.files .multipart) = .ok st₀ → st₀.uploads[id]? = some upload →
      Reach (CompleteRun.fire ce id parts) (fun _ _ => True) ⟨w₀, false⟩ x →
      CommittedOnce ce upload parts w₀ i₀ x := by
  intro h
  have hx : CommittedOnce CeRs.plain onePart [(1, "e")] (beforeCompletion true) (emptyBucket true)
      (twoAttempts true) :=
    h CeRs.plain "u" [(1, "e")] (beforeCompletion true) (emptyBucket true) oneUpload onePart
      (twoAttempts true) rfl rfl (by decide) (twoAttempts_reach fun _ _ => trivial)
  have htwo : versionsIn ((twoAttempts true).world.files .index) = 2 := by decide
  rcases hx with ⟨-, hend⟩ | ⟨j, hj, hindex⟩
  · exact nomatch hend
  · obtain ⟨bk, v, hbk, hh⟩ := hj.history
    have hold : (emptyBucket true).history onePart.bucket onePart.key = none := by decide
    have hone : j.history "photos" "a" = some (Index.putVersion bk none v) := hold ▸ hh
    rw [hindex] at htwo
    dsimp only [versionsIn] at htwo
    rw [hone] at htwo
    unfold Index.putVersion at htwo
    split at htwo <;> simp at htwo

/-- The theorem at the same two attempts on an unversioned bucket. -/
theorem complete_commits_once_unversioned :
    CommittedOnce CeRs.plain onePart [(1, "e")] (beforeCompletion false) (emptyBucket false)
      (twoAttempts false) := by
  refine complete_commits_once CeRs.plain "u" [(1, "e")] (beforeCompletion false)
    (emptyBucket false) oneUpload onePart (twoAttempts false) rfl rfl (by decide)
    (twoAttempts_reach fun _ _ _ => ?_)
  rintro ⟨bk, hbk, hv⟩
  have hb : (emptyBucket false).buckets["photos"]?
      = some { created := 3, versioning := false, lifecycle := [], objects := ∅ } := by decide
  rw [show (emptyBucket false).buckets[onePart.bucket]? = _ from hb] at hbk
  cases hbk
  exact nomatch hv

end CeStorage
