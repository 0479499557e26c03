import CeStorage.CeRs
import CeStorage.Index.Lemmas
import CeStorage.Store.Verbs

/-!
# What a call can come to

One lemma for each kind of call says everything it can do to the two files, with
what it returns; one for all calls says what they do to the blob store: it only
grows, and holds every blob under its own CID.
-/

namespace CeStorage

open Lib
open Std (ExtTreeMap)

variable {ce : CeRs} {env : Env} {s : Store} {w : World}

/-! ## Blobs -/

/-- The blob store answers as a content-addressed store does. -/
structure Env.Truthful (ce : CeRs) (env : Env) : Prop where
  putBlob : ∀ n bytes cid, env.putBlob n bytes = .ok cid → cid = ce.cid bytes
  putObject : ∀ bytes cid, env.putObject bytes = .ok cid →
    cid = ce.cid (ce.manifestJson (ce.chunkObject bytes ce.defaultChunkSize).1)

/-- Every blob is under its own CID. -/
def Addressed (ce : CeRs) (w : World) : Prop := ∀ cid b, w.blobs cid = some b → cid = ce.cid b

theorem blank_addressed {ce : CeRs} : Addressed ce World.blank := fun _ _ h => nomatch h

/-- No blob is lost or replaced. -/
def Grows (w w' : World) : Prop := ∀ cid b, w.blobs cid = some b → w'.blobs cid = some b

theorem Grows.refl (w : World) : Grows w w := fun _ _ h => h

theorem Grows.trans {w w' w'' : World} (h : Grows w w') (h' : Grows w' w'') : Grows w w'' :=
  fun cid b hb => h' cid b (h cid b hb)

theorem calm_truthful (ce : CeRs) (now : Nat) (id : String) : (Env.calm ce now id).Truthful ce where
  putBlob _ _ _ h := (Except.ok.inj h).symm
  putObject _ _ h := (Except.ok.inj h).symm

theorem setBlob_addressed {cid : String} {b : Bytes} (hce : ce.Lawful) (hw : Addressed ce w)
    (hc : cid = ce.cid b) : Addressed ce (w.setBlob cid b) ∧ Grows w (w.setBlob cid b) := by
  constructor
  · intro cid' b' h
    by_cases hcid : cid' = cid
    · subst hcid
      have hb : some b = some b' := (Function.update_self (β := fun _ => Option Bytes) _ _ _).symm.trans h
      cases hb
      exact hc
    · exact hw cid' b' ((Function.update_of_ne hcid _ _).symm.trans h)
  · intro cid' b' h
    by_cases hcid : cid' = cid
    · -- two blobs under one CID are the same blob
      subst hcid
      have hb : b = b' := hce.cid_injective (hc.symm.trans (hw _ _ h))
      subst hb
      exact Function.update_self _ _ _
    · exact (Function.update_of_ne hcid _ _).trans h

theorem setBlobs_addressed {l : List (String × Bytes)} (hce : ce.Lawful) (hw : Addressed ce w)
    (hl : ∀ p ∈ l, p.1 = ce.cid p.2) : Addressed ce (w.setBlobs l) ∧ Grows w (w.setBlobs l) := by
  induction l generalizing w with
  | nil => exact ⟨hw, .refl w⟩
  | cons p l ih =>
    obtain ⟨h1, h2⟩ := setBlob_addressed hce hw (hl p List.mem_cons_self)
    obtain ⟨h3, h4⟩ := ih h1 fun q hq => hl q (List.mem_cons_of_mem p hq)
    exact ⟨h3, h2.trans h4⟩

/-- A blob that was stored is there. -/
theorem blobs_setBlobs {l : List (String × Bytes)} (hce : ce.Lawful) (hw : Addressed ce w)
    (hl : ∀ p ∈ l, p.1 = ce.cid p.2) : ∀ p ∈ l, (w.setBlobs l).blobs p.1 = some p.2 := by
  induction l generalizing w with
  | nil => exact fun _ h => nomatch h
  | cons p l ih =>
    intro q hq
    have hp := setBlob_addressed hce hw (hl p List.mem_cons_self)
    have hl' : ∀ q ∈ l, q.1 = ce.cid q.2 := fun q hq => hl q (List.mem_cons_of_mem p hq)
    rcases List.mem_cons.mp hq with rfl | hq
    · exact (setBlobs_addressed hce hp.1 hl').2 _ _ (Function.update_self _ _ _)
    · exact ih hp.1 hl' q hq

/-- Whatever a method does, the blob store grows and stays content-addressed. -/
theorem exec_blobs {ε α : Type} (hce : ce.Lawful) (henv : env.Truthful ce) (x : Act ε α)
    (hw : Addressed ce w) :
    Addressed ce (exec ce env x s w).2 ∧ Grows w (exec ce env x s w).2 := by
  refine Prog.run_inv (A := fun _ => True) (I := fun w' => Addressed ce w' ∧ Grows w w') ?_
    (Prog.uses_true _) ⟨hw, .refl w⟩
  rintro c w' - ⟨hadd, hgrow⟩
  have keep : ∀ w'', w''.blobs = w'.blobs → Addressed ce w'' ∧ Grows w w'' := by
    intro w'' h
    unfold Addressed Grows at *
    rw [h]
    exact ⟨hadd, hgrow⟩
  cases c with
  | putObject bytes =>
    simp only [perform]
    cases hput : env.putObject bytes with
    | error e => exact ⟨hadd, hgrow⟩
    | ok cid =>
      have hch : ∀ p ∈ (ce.chunkObject bytes ce.defaultChunkSize).2, p.1 = ce.cid p.2 := by
        rw [hce.chunkObject_eq bytes _ hce.chunk_pos]
        intro p hp
        obtain ⟨c, -, rfl⟩ := List.mem_map.mp hp
        rfl
      obtain ⟨h1, h2⟩ := setBlobs_addressed hce hadd hch
      obtain ⟨h3, h4⟩ := setBlob_addressed hce h1 (henv.putObject bytes cid hput)
      exact ⟨h3, (hgrow.trans h2).trans h4⟩
  | putBlob n bytes =>
    simp only [perform]
    cases hput : env.putBlob n bytes with
    | error e => exact ⟨hadd, hgrow⟩
    | ok cid =>
      obtain ⟨h1, h2⟩ := setBlob_addressed hce hadd (henv.putBlob n bytes cid hput)
      exact ⟨h1, hgrow.trans h2⟩
  | createTemp f pid => exact keep _ (by unfold perform; dsimp only; split <;> rfl)
  | write f pid t => exact keep _ (by unfold perform; dsimp only; split <;> rfl)
  | rename f pid => exact keep _ (by unfold perform; dsimp only; split <;> rfl)
  | _ => exact keep _ rfl

theorem StoreCall.exec_blobs (hce : ce.Lawful) (henv : env.Truthful ce) (c : StoreCall)
    (hw : Addressed ce w) :
    Addressed ce (c.exec ce env s w).2 ∧ Grows w (c.exec ce env s w).2 := by
  unfold StoreCall.exec
  rcases Op.exec_cases ce env (c.op ce s) s w with ⟨e, h⟩ | h
  · rw [h]
    exact ⟨hw, .refl w⟩
  · rw [h]
    exact CeStorage.exec_blobs hce henv _ hw

/-! ## Files -/

/-- Nothing but an error. -/
def Fails (r : (Except Failure Value × Store) × World) (w : World) : Prop :=
  (∃ e, r.1.1 = .error e) ∧ r.2.files = w.files

theorem fails_into {ε α : Type} {f : ε → Failure} {g : α → Value} {o : Op ε α}
    {r : (Except ε α × Store) × World} (h : exec ce env o.prog s w = r) {e : ε}
    (he : r.1.1 = .error e) (hf : r.2.files = w.files) :
    Fails (exec ce env (o.into f g).prog s w) w := by
  rw [exec_into, h]
  exact ⟨⟨f e, by rw [he]; rfl⟩, hf⟩

/-- A call that got nowhere, or its program. -/
theorem StoreCall.exec_cases (ce : CeRs) (env : Env) (c : StoreCall) (s : Store) (w : World) :
    Fails (c.exec ce env s w) w ∨
      c.exec ce env s w = CeStorage.exec ce env (c.op ce s).prog s w := by
  unfold StoreCall.exec
  rcases Op.exec_cases ce env (c.op ce s) s w with ⟨e, h⟩ | h
  · exact .inl ⟨⟨e, by rw [h]⟩, by rw [h]⟩
  · exact .inr h

/-- The end of an operation on uploads. -/
theorem commitUploads_cases {ε α : Type} (env : Env) (wrap : String → ε) (st : MultipartState)
    (a : α) (s : Store) (w : World) :
    ((∃ e, (env.commitUploads wrap st a s w).1.1 = .error e) ∧
        (env.commitUploads wrap st a s w).2.files = w.files) ∨
      (env.commitUploads wrap st a s w).1.1 = .ok a ∧
        (env.commitUploads wrap st a s w).2
          = w.saved .multipart s.pid (.multipart st) := by
  unfold Env.commitUploads
  cases env.saveFails .multipart with
  | none => exact .inr ⟨rfl, rfl⟩
  | some step => exact .inl ⟨⟨_, rfl⟩, by simp⟩

theorem createMultipartUpload_cases (ce : CeRs) (env : Env) (b k : String) (opts : PutOptions)
    (s : Store) (w : World) :
    let r := (StoreCall.createMultipartUpload b k opts).exec ce env s w
    Fails r w ∨
      ∃ st st', MultipartState.decode (w.files .multipart) = .ok st ∧
        st.create env.uploadId (newUpload ce b k opts env.now) = .ok st' ∧
        r.1.1 = .ok (.text env.uploadId) ∧
        r.2.files = Function.update w.files .multipart (some (.multipart st')) := by
  dsimp only
  rcases (StoreCall.createMultipartUpload b k opts).exec_cases ce env s w with h | h
  · exact .inl h
  rw [h]
  have hx : exec ce env (Store.createMultipartUpload ce b k opts).prog s w = _ :=
    exec_createMultipartUpload b k opts
  dsimp only [StoreCall.op, Op.storage]
  revert hx
  cases createCheck k opts with
  | error e => intro hx; exact .inl (fails_into hx rfl rfl)
  | ok u =>
    cases hl : env.loadMultipart w with
    | error e => intro hx; exact .inl (fails_into hx rfl rfl)
    | ok st =>
      cases env.loadIndex w with
      | error e => intro hx; exact .inl (fails_into hx rfl rfl)
      | ok i =>
        dsimp only
        split
        next =>
          cases hc : st.create env.uploadId (newUpload ce b k opts env.now) with
          | error e => intro hx; exact .inl (fails_into hx rfl rfl)
          | ok st' =>
            intro hx
            rcases commitUploads_cases env StorageError.backend st' env.uploadId
              { s with index := i } w with ⟨⟨e, he⟩, hf⟩ | ⟨he, hf⟩
            · exact .inl (fails_into hx he hf)
            · refine .inr ⟨st, st', Env.decode_of_loadMultipart hl, hc, ?_, ?_⟩
              · rw [exec_into, hx]
                dsimp only
                rw [he]
                rfl
              · rw [exec_into, hx]
                dsimp only
                rw [hf]
                rfl
        next => intro hx; exact .inl (fails_into hx rfl rfl)

/-! ### Complete -/

/-- A completion that got its object bound and the index saved. -/
structure Assembled (ce : CeRs) (env : Env) (id : String) (parts : List (Nat × String)) (w : World)
    (st : MultipartState) (upload : Upload) (manifest : Manifest) (cid : String)
    (i j : Index) : Prop where
  loaded : MultipartState.decode (w.files .multipart) = .ok st
  found : st.uploads[id]? = some upload
  assembled : assembleManifest ce upload parts = .ok manifest
  stored : env.putBlob 0 (ce.manifestJson manifest) = .ok cid
  index : Index.decode (w.files .index) = .ok i
  bound : i.put upload.bucket upload.key (completeMeta upload manifest cid env.now) = (.ok (), j)
  reads : ∀ f, env.readFails f = false
  saved : env.saveFails .index = none

theorem bindUpload_ok {upload : Upload} {m : ObjectMeta} {i j : Index}
    (h : bindUpload upload m i = .ok j) : i.put upload.bucket upload.key m = (.ok (), j) := by
  unfold bindUpload at h
  grind

theorem bindUpload_error {upload : Upload} {m : ObjectMeta} {i : Index} {e : StorageError}
    (h : bindUpload upload m i = .error e) (k : String) : e ≠ .noSuchKey k := by
  rintro rfl
  unfold bindUpload at h
  grind

/-- Binding a manifest leaves both files alone and fails; or saves the index and
fails at the multipart state; or succeeds. -/
theorem bindManifest_cases (env : Env) (id : String) (upload : Upload) (manifest : Manifest)
    (cid : String) (st : MultipartState) (s : Store) (w : World) :
    let r := env.bindManifest id upload manifest cid st s w
    (r.2.files = w.files ∧ ∃ e, r.1.1 = .error e ∧ ∀ k, e ≠ .noSuchKey k) ∨
      ∃ i j, Index.decode (w.files .index) = .ok i ∧
        i.put upload.bucket upload.key (completeMeta upload manifest cid env.now) = (.ok (), j) ∧
        env.readFails .index = false ∧ env.saveFails .index = none ∧ r.2.blobs = w.blobs ∧
        ((∃ step, r.1.1 = .error (.backend (multipartSaveContext step))) ∧
            env.saveFails .multipart ≠ none ∧
              r.2.files = Function.update w.files .index (some (.index j)) ∨
          r.1.1 = .ok (completeMeta upload manifest cid env.now) ∧
              r.2.files = Function.update (Function.update w.files .index (some (.index j)))
                .multipart (some (.multipart (st.remove id)))) := by
  dsimp only
  unfold Env.bindManifest Env.loadIndex
  by_cases hri : env.readFails .index
  · rw [if_pos hri]
    exact .inl ⟨rfl, _, rfl, by simp⟩
  rw [if_neg hri]
  cases hi : Index.decode (w.files .index) with
  | error e => exact .inl ⟨rfl, _, rfl, by simp⟩
  | ok i =>
    dsimp only
    cases hb : bindUpload upload (completeMeta upload manifest cid env.now) i with
    | error e => exact .inl ⟨rfl, e, rfl, bindUpload_error hb⟩
    | ok j =>
      dsimp only
      cases hs : env.saveFails .index with
      | some step => exact .inl ⟨by simp, _, rfl, by simp⟩
      | none =>
        refine .inr ⟨i, j, rfl, bindUpload_ok hb, Bool.eq_false_iff.mpr hri, rfl, ?_⟩
        unfold Env.commitUploads
        cases hm : env.saveFails .multipart with
        | some step => exact ⟨by simp, .inl ⟨⟨step, rfl⟩, by simp, by simp⟩⟩
        | none => exact ⟨rfl, .inr ⟨rfl, by simp⟩⟩

/-- A completion leaves both files alone and fails; or saves the index and fails
at the multipart state; or succeeds. It says that the upload is unknown only
when it is. -/
theorem complete_prog_cases (ce : CeRs) (env : Env) (id : String) (parts : List (Nat × String))
    (s : Store) (w : World) :
    let r := exec ce env (Store.completeMultipartUpload ce id parts).prog s w
    (r.2.files = w.files ∧ ∃ e, r.1.1 = .error e ∧
        (e = .noSuchKey s!"multipart upload {id}" →
          ∃ st, MultipartState.decode (w.files .multipart) = .ok st ∧ st.uploads[id]? = none)) ∨
      ∃ st upload manifest cid i j, Assembled ce env id parts w st upload manifest cid i j ∧
        r.2.blobs = (w.setBlob cid (ce.manifestJson manifest)).blobs ∧
        ((∃ step, r.1.1 = .error (.backend (multipartSaveContext step))) ∧
            env.saveFails .multipart ≠ none ∧
              r.2.files = Function.update w.files .index (some (.index j)) ∨
          r.1.1 = .ok (completeMeta upload manifest cid env.now) ∧
              r.2.files = Function.update (Function.update w.files .index (some (.index j)))
                .multipart (some (.multipart (st.remove id)))) := by
  dsimp only
  rw [exec_completeMultipartUpload]
  unfold Env.loadMultipart
  by_cases hrm : env.readFails .multipart
  · rw [if_pos hrm]
    exact .inl ⟨rfl, _, rfl, by simp⟩
  rw [if_neg hrm]
  cases hst : MultipartState.decode (w.files .multipart) with
  | error e => exact .inl ⟨rfl, _, rfl, by simp⟩
  | ok st =>
    dsimp only
    unfold Env.complete MultipartState.get
    cases hu : st.uploads[id]? with
    | none => exact .inl ⟨rfl, _, rfl, fun _ => ⟨st, rfl, hu⟩⟩
    | some upload =>
      dsimp only
      cases hman : assembleManifest ce upload parts with
      | error e => exact .inl ⟨rfl, _, rfl, by simp⟩
      | ok manifest =>
        dsimp only
        split
        next =>
          cases hput : env.putBlob 0 (ce.manifestJson manifest) with
          | error e => exact .inl ⟨rfl, _, rfl, by simp⟩
          | ok cid =>
            dsimp only
            rcases bindManifest_cases env id upload manifest cid st s
              (w.setBlob cid (ce.manifestJson manifest)) with
              ⟨hf, e, he, hne⟩ | ⟨i, j, hi, hb, hri, hs, hblobs, hend⟩
            · exact .inl ⟨hf, e, he, fun h => absurd h (hne _)⟩
            · have hreads : ∀ f, env.readFails f = false := by
                intro f
                cases f
                · exact hri
                · exact Bool.eq_false_iff.mpr hrm
              exact .inr ⟨st, upload, manifest, cid, i, j,
                ⟨hst, hu, hman, hput, hi, hb, hreads, hs⟩, hblobs, hend⟩
        next => exact .inl ⟨rfl, _, rfl, by simp⟩

theorem completeMultipartUpload_cases (ce : CeRs) (env : Env) (id : String)
    (parts : List (Nat × String)) (s : Store) (w : World) :
    let r := (StoreCall.completeMultipartUpload id parts).exec ce env s w
    Fails r w ∨
      ∃ st upload manifest cid i j, Assembled ce env id parts w st upload manifest cid i j ∧
        r.2.blobs = (w.setBlob cid (ce.manifestJson manifest)).blobs ∧
        ((∃ e, r.1.1 = .error e) ∧ r.2.files = Function.update w.files .index (some (.index j)) ∨
          r.1.1 = .ok (.object (completeMeta upload manifest cid env.now)) ∧
              r.2.files = Function.update (Function.update w.files .index (some (.index j)))
                .multipart (some (.multipart (st.remove id)))) := by
  dsimp only
  rcases StoreCall.exec_cases ce env (.completeMultipartUpload id parts) s w with h | h
  · exact .inl h
  rw [h]
  dsimp only [StoreCall.op, Op.storage]
  rcases complete_prog_cases ce env id parts s w with ⟨hf, e, he, -⟩ |
    ⟨st, upload, manifest, cid, i, j, hass, hb, hend⟩
  · exact .inl (fails_into rfl he hf)
  · refine .inr ⟨st, upload, manifest, cid, i, j, hass, ?_⟩
    rw [exec_into]
    refine ⟨hb, ?_⟩
    rcases hend with ⟨⟨step, he⟩, -, hf⟩ | ⟨he, hf⟩
    · exact .inl ⟨⟨_, by rw [he]; rfl⟩, hf⟩
    · exact .inr ⟨by rw [he]; rfl, hf⟩

/-! ### Upload and abort -/

/-- When all chunks of a part were stored, they are what was stored. -/
theorem storeChunks_ok {n : Nat} {l : List (String × Bytes)}
    (h : (env.storeChunks n l).1 = .ok ()) : (env.storeChunks n l).2 = l := by
  induction l generalizing n with
  | nil => rfl
  | cons p rest ih =>
    obtain ⟨chunkCid, chunk⟩ := p
    unfold Env.storeChunks at h ⊢
    cases hp : env.putBlob n chunk with
    | error e => rw [hp] at h; cases h
    | ok stored =>
      rw [hp] at h
      dsimp only at h ⊢
      split at h
      next hs => rw [if_pos hs, ih h, hs]
      next => cases h

/-- The etag of a part: the CID of its own manifest. -/
def CeRs.objectCid (ce : CeRs) (bytes : Bytes) : String :=
  ce.cid (ce.manifestJson (ce.manifestOf bytes ce.defaultChunkSize))

/-- The blobs of an object are there: its chunks and its manifest. -/
structure Stored (ce : CeRs) (w : World) (bytes : Bytes) : Prop where
  chunk : ∀ c ∈ chunks ce.defaultChunkSize bytes, w.blobs (ce.cid c) = some c
  manifest : w.blobs (ce.objectCid bytes)
    = some (ce.manifestJson (ce.manifestOf bytes ce.defaultChunkSize))

theorem Stored.mono {w' : World} {bytes : Bytes} (h : Stored ce w bytes) (hg : Grows w w') :
    Stored ce w' bytes :=
  ⟨fun c hc => hg _ _ (h.chunk c hc), hg _ _ h.manifest⟩

/-- A part that was recorded: its chunks and its manifest are stored, under the
etag that the call returns. -/
structure PartKept (ce : CeRs) (env : Env) (id : String) (n : Nat) (bytes : Bytes) (w : World)
    (st st' : MultipartState) (etag : String) : Prop where
  loaded : MultipartState.decode (w.files .multipart) = .ok st
  chunks : (env.storeChunks 0 (ce.chunkObject bytes ce.defaultChunkSize).2).1 = .ok ()
  manifest : env.putBlob (ce.chunkObject bytes ce.defaultChunkSize).2.length
    (ce.manifestJson (ce.chunkObject bytes ce.defaultChunkSize).1) = .ok etag
  recorded : st.putPart id (newPart (ce.chunkObject bytes ce.defaultChunkSize).1 n etag bytes)
    = .ok st'

/-- A part is recorded or the files stay as they are, whatever the blob store
answers. -/
theorem uploadPart_outcomes (ce : CeRs) (env : Env) (id : String) (n : Nat) (bytes : Bytes)
    (s : Store) (w : World) :
    let r := (StoreCall.uploadPart id n bytes).exec ce env s w
    let obj := ce.chunkObject bytes ce.defaultChunkSize
    Fails r w ∨
      ∃ st st' etag, PartKept ce env id n bytes w st st' etag ∧ r.1.1 = .ok (.text etag) ∧
        r.2.files = Function.update w.files .multipart (some (.multipart st')) ∧
        r.2.blobs = ((w.setBlobs (env.storeChunks 0 obj.2).2).setBlob etag
          (ce.manifestJson obj.1)).blobs := by
  dsimp only
  rcases StoreCall.exec_cases ce env (.uploadPart id n bytes) s w with h | h
  · exact .inl h
  rw [h]
  have hx : exec ce env (Store.uploadPart ce s id n bytes).prog s w = _ :=
    exec_uploadPart s id n bytes
  dsimp only [StoreCall.op, Op.storage]
  revert hx
  split
  next => intro hx; exact .inl (fails_into hx rfl rfl)
  next =>
    cases hl : env.loadMultipart w with
    | error e => intro hx; exact .inl (fails_into hx rfl rfl)
    | ok st =>
      dsimp only
      split
      next =>
        unfold Env.storePart
        dsimp only
        -- a failure from here on has stored blobs, but no file
        cases hst : (env.storeChunks 0 (ce.chunkObject bytes ce.defaultChunkSize).2).1 with
        | error e => intro hx; exact .inl (fails_into hx rfl (by simp))
        | ok u =>
          dsimp only
          cases hput : env.putBlob _ (ce.manifestJson (ce.chunkObject bytes _).1) with
          | error e => intro hx; exact .inl (fails_into hx rfl (by simp))
          | ok etag =>
            dsimp only
            cases hp : st.putPart id _ with
            | error e => intro hx; exact .inl (fails_into hx rfl (by simp))
            | ok st' =>
              intro hx
              dsimp only at hx
              generalize hw' : (w.setBlobs (env.storeChunks 0 _).2).setBlob etag _ = w' at hx ⊢
              have hfiles : w'.files = w.files := by rw [← hw']; simp
              rcases commitUploads_cases env StorageError.backend st' etag s w' with
                ⟨⟨e, he⟩, hf⟩ | ⟨he, hf⟩
              · exact .inl (fails_into hx he (hf.trans hfiles))
              · refine .inr ⟨st, st', etag,
                  ⟨Env.decode_of_loadMultipart hl, hst, hput, hp⟩, ?_⟩
                rw [exec_into, hx, he, hf, hw']
                exact ⟨rfl, by rw [← hfiles]; rfl, rfl⟩
      next => intro hx; exact .inl (fails_into hx rfl rfl)

theorem uploadPart_cases (hce : ce.Lawful) (henv : env.Truthful ce) (hw : Addressed ce w)
    (id : String) (n : Nat) (bytes : Bytes) (s : Store) :
    let r := (StoreCall.uploadPart id n bytes).exec ce env s w
    Fails r w ∨
      ∃ st st', MultipartState.decode (w.files .multipart) = .ok st ∧
        st.putPart id (newPart (ce.manifestOf bytes ce.defaultChunkSize) n (ce.objectCid bytes)
          bytes) = .ok st' ∧
        r.1.1 = .ok (.text (ce.objectCid bytes)) ∧
        r.2.files = Function.update w.files .multipart (some (.multipart st')) ∧
        Stored ce r.2 bytes := by
  dsimp only
  rcases uploadPart_outcomes ce env id n bytes s w with
    h | ⟨st, st', etag, ⟨hst, hchunks, hput, hp⟩, hr, hf, hb⟩
  · exact .inl h
  rw [storeChunks_ok hchunks] at hb
  rw [hce.chunkObject_eq bytes _ hce.chunk_pos] at hput hp hb
  have hetag : etag = ce.objectCid bytes := henv.putBlob _ _ _ hput
  subst hetag
  refine .inr ⟨st, st', hst, hp, hr, hf, ?_⟩
  dsimp only at hb
  -- every chunk is stored under its own CID, and the manifest on top of them
  generalize hl : (chunks ce.defaultChunkSize bytes).map (fun c => (ce.cid c, c)) = l at hb
  have htrue : ∀ p ∈ l, p.1 = ce.cid p.2 := by
    intro p hp
    rw [← hl] at hp
    obtain ⟨c, -, rfl⟩ := List.mem_map.mp hp
    rfl
  obtain ⟨hadd, -⟩ := setBlobs_addressed hce hw htrue
  obtain ⟨-, hgrow⟩ := setBlob_addressed hce hadd (rfl : ce.objectCid bytes = ce.cid _)
  constructor
  · intro c hc
    rw [hb]
    refine hgrow _ _ (blobs_setBlobs hce hw htrue (ce.cid c, c) ?_)
    rw [← hl]
    exact List.mem_map.mpr ⟨c, hc, rfl⟩
  · rw [hb]
    exact Function.update_self _ _ _

theorem abortMultipartUpload_cases (ce : CeRs) (env : Env) (uploadId : String) (s : Store) (w : World) :
    let r := (StoreCall.abortMultipartUpload uploadId).exec ce env s w
    Fails r w ∨
      ∃ st, MultipartState.decode (w.files .multipart) = .ok st ∧ r.1.1 = .ok .unit ∧
        r.2.files = Function.update w.files .multipart (some (.multipart (st.remove uploadId))) := by
  dsimp only
  rcases StoreCall.exec_cases ce env (.abortMultipartUpload uploadId) s w with h | h
  · exact .inl h
  rw [h]
  have hx : exec ce env (Store.abortMultipartUpload uploadId).prog s w = _ :=
    exec_abortMultipartUpload uploadId
  dsimp only [StoreCall.op, Op.anyhow]
  revert hx
  cases hl : env.loadMultipart w with
  | error e => intro hx; exact .inl (fails_into hx rfl rfl)
  | ok st =>
    intro hx
    dsimp only at hx
    rcases commitUploads_cases env id (st.remove uploadId) () s w with
      ⟨⟨e, he⟩, hf⟩ | ⟨he, hf⟩
    · exact .inl (fails_into hx he hf)
    · refine .inr ⟨st, Env.decode_of_loadMultipart hl, ?_⟩
      rw [exec_into, hx, he, hf]
      exact ⟨rfl, rfl⟩

/-- An abort fails only for its environment. -/
theorem abortMultipartUpload_ok {st : MultipartState} (uploadId : String) (hlock : env.lock = .ok ())
    (hload : env.loadMultipart w = .ok st) (hsave : env.saveFails .multipart = none) :
    ((StoreCall.abortMultipartUpload uploadId).exec ce env s w).1.1 = .ok .unit := by
  have hrun : (StoreCall.abortMultipartUpload uploadId).exec ce env s w
      = exec ce env ((Store.abortMultipartUpload uploadId).anyhow fun _ => .unit).prog s w := by
    unfold StoreCall.exec Op.exec
    dsimp only [StoreCall.op, Op.anyhow, Store.abortMultipartUpload, Op.into, Op.prog]
    rw [hlock]
  rw [hrun, Op.anyhow, exec_into, exec_abortMultipartUpload, hload]
  dsimp only
  unfold Env.commitUploads
  rw [hsave]
  rfl

/-! ### Calls on the index -/

/-- A call on the index leaves the files alone, because it fails or its plan is to
keep the index; or it passed its check, saves what its plan says and succeeds. -/
theorem indexCall_cases {c : StoreCall}
    {d : Index → Decision Failure Value × List (String × Bytes)} (hd : c.plan ce env = some d)
    (s : Store) (w : World) :
    let r := c.exec ce env s w
    r.2.files = w.files ∧ ((∃ e, r.1.1 = .error e) ∨
        ∃ i a, Index.decode (w.files .index) = .ok i ∧ (d i).1 = .keep a ∧ r.1.1 = .ok a) ∨
      ∃ i j a, Index.decode (w.files .index) = .ok i ∧ (d i).1 = .save j a ∧ r.1.1 = .ok a ∧
        r.1.2.index = j ∧ r.2.files = Function.update w.files .index (some (.index j)) ∧
        r.2.blobs = (w.setBlobs (d i).2).blobs ∧ c.check s.maxObjectSize = .ok () := by
  dsimp only
  rw [StoreCall.exec_eq hd]
  cases c.check s.maxObjectSize with
  | error e => exact .inl ⟨rfl, .inl ⟨e, rfl⟩⟩
  | ok u =>
    cases env.lock with
    | error m => exact .inl ⟨rfl, .inl ⟨_, rfl⟩⟩
    | ok u =>
      rcases transact_cases env c.wrap d s w with
        ⟨e, -, he⟩ | ⟨i, hl, ⟨-, hf, hr⟩ | ⟨j, a, hsave, hj, hend⟩⟩
      · exact .inl ⟨congrArg (·.2.files) he, .inl ⟨_, congrArg (·.1.1) he⟩⟩
      · rcases hr with ⟨e, -, hr⟩ | ⟨a, hkeep, hr⟩
        · exact .inl ⟨hf, .inl ⟨e, hr⟩⟩
        · exact .inl ⟨hf, .inr ⟨i, a, Env.decode_of_loadIndex hl, hkeep, hr⟩⟩
      · rcases hend with ⟨-, ⟨e, he⟩, hf⟩ | ⟨-, hr, hf, hb⟩
        · exact .inl ⟨hf, .inl ⟨_, he⟩⟩
        · exact .inr ⟨i, j, a, Env.decode_of_loadIndex hl, hsave, hr,
            congrArg Store.index hj, hf, hb, rfl⟩

/-- A put refuses, or saves the binding to the CID that the blob store answered. -/
theorem putDecision_cases (ce : CeRs) (env : Env) (b k : String) (bytes : Bytes)
    (opts : PutOptions) (i : Index) :
    (∃ e, (putDecision ce env b k bytes opts i).1 = .refuse e) ∨
      ∃ cid, env.putObject bytes = .ok cid ∧ i.buckets.contains b = true ∧
        putCondition i b k opts = .ok () ∧
        putDecision ce env b k bytes opts i
          = (.save (i.put b k (putMeta cid bytes opts env.now)).2 (putMeta cid bytes opts env.now),
            objectBlobs ce bytes cid) := by
  unfold putDecision
  split
  next hb =>
    cases hcond : putCondition i b k opts with
    | error e => exact .inl ⟨e, rfl⟩
    | ok u =>
      cases hput : env.putObject bytes with
      | error e => exact .inl ⟨_, rfl⟩
      | ok cid => exact .inr ⟨cid, rfl, hb, rfl, rfl⟩
  next => exact .inl ⟨_, rfl⟩

theorem putCheck_ok {n : Nat} {k : String} {bytes : Bytes} {opts : PutOptions} {u : Unit}
    (h : putCheck n k bytes opts = .ok u) :
    validKey k = .ok () ∧ validateUserMetadata opts.metadata = .ok () := by
  unfold putCheck at h
  split at h
  · exact nomatch h
  · split at h
    · exact nomatch h
    next hk =>
      cases hm : validateUserMetadata opts.metadata with
      | error e => rw [hm] at h; exact nomatch h
      | ok u => exact ⟨hk, rfl⟩

/-- A put fails, or binds the key to the CID that the blob store answered, the
precondition having held of the index that was loaded. -/
theorem putObjectOpts_cases (ce : CeRs) (env : Env) (b k : String) (bytes : Bytes)
    (opts : PutOptions) (s : Store) (w : World) :
    let r := (StoreCall.putObjectOpts b k bytes opts).exec ce env s w
    Fails r w ∨
      ∃ cid i j, env.putObject bytes = .ok cid ∧ Index.decode (w.files .index) = .ok i ∧
        putCondition i b k opts = .ok () ∧
        i.put b k (putMeta cid bytes opts env.now) = (.ok (), j) ∧
        r.1.1 = .ok (.object (putMeta cid bytes opts env.now)) ∧
        r.2.files = Function.update w.files .index (some (.index j)) ∧
        r.2.blobs = (w.setBlobs (objectBlobs ce bytes cid)).blobs := by
  dsimp only
  have hplan : (StoreCall.putObjectOpts b k bytes opts).plan ce env = some fun i =>
      ((putDecision ce env b k bytes opts i).1.into .storage .object,
        (putDecision ce env b k bytes opts i).2) := rfl
  rcases indexCall_cases hplan s w with
    ⟨hf, ⟨e, he⟩ | ⟨i, a, hi, hkeep, -⟩⟩ | ⟨i, j, a, hi, hsave, hr, -, hf, hb, hcheck⟩
  · exact .inl ⟨⟨e, he⟩, hf⟩
  · rcases putDecision_cases ce env b k bytes opts i with ⟨e, hdec⟩ | ⟨cid, -, -, -, hdec⟩
    · rw [hdec] at hkeep
      exact nomatch hkeep
    · rw [hdec] at hkeep
      exact nomatch hkeep
  · rcases putDecision_cases ce env b k bytes opts i with
      ⟨e, hdec⟩ | ⟨cid, hput, hbucket, hcond, hdec⟩
    · rw [hdec] at hsave
      exact nomatch hsave
    · rw [hdec] at hsave hb
      cases hsave
      obtain ⟨hk, hm⟩ : validKey k = .ok () ∧ validateUserMetadata opts.metadata = .ok () := by
        cases hc : putCheck s.maxObjectSize k bytes opts with
        | error e =>
          dsimp only [StoreCall.check] at hcheck
          rw [hc] at hcheck
          exact nomatch hcheck
        | ok u => exact putCheck_ok hc
      have hok := Index.put_ok (m := putMeta cid bytes opts env.now) hbucket hk hm
      exact .inr ⟨cid, i, _, hput, hi, hcond, Prod.ext hok rfl, hr, hf, hb⟩

/-- Every other call is one of the four on uploads. -/
theorem StoreCall.plan_cases (ce : CeRs) (env : Env) (c : StoreCall) :
    (∃ d, c.plan ce env = some d) ∨ (∃ b k opts, c = .createMultipartUpload b k opts) ∨
      (∃ id n bytes, c = .uploadPart id n bytes) ∨
      (∃ id parts, c = .completeMultipartUpload id parts) ∨ ∃ id, c = .abortMultipartUpload id := by
  cases c with
  | createMultipartUpload b k opts => exact .inr (.inl ⟨b, k, opts, rfl⟩)
  | uploadPart id n bytes => exact .inr (.inr (.inl ⟨id, n, bytes, rfl⟩))
  | completeMultipartUpload id parts => exact .inr (.inr (.inr (.inl ⟨id, parts, rfl⟩)))
  | abortMultipartUpload id => exact .inr (.inr (.inr (.inr ⟨id, rfl⟩)))
  | _ => exact .inl ⟨_, rfl⟩

end CeStorage
