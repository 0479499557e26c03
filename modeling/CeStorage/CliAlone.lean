import CeStorage.Cli
import CeStorage.Index.Invariant
import CeStorage.Resume

/-!
# The upload command, left alone

While others leave its upload and the bucket alone and nothing fails, the upload
command gets through (`multipart_upload_completes`): every slice is taken, because
it is no larger than the file and not empty, and the upload can be completed,
because slices are whole chunks but for the last one.
-/

namespace CeStorage

open Lib
open Std (ExtTreeMap)

variable {ce : CeRs} {env : Env} {s : Store} {w : World} {id b : String} {x : Ledger}
  {u : Upload} {st : MultipartState}

/-! ## A bucket stays -/

namespace Index

/-- Only `removeBucket` takes a bucket away. -/
theorem contains_apply {i : Index} {e : IndexEdit} (hb : i.buckets.contains b = true)
    (he : ∀ force, e ≠ .removeBucket b force) : (e.apply i).buckets.contains b = true := by
  have set : ∀ (c : String) (bk : Bucket), (i.setBucket c bk).buckets.contains b = true := by
    intro c bk
    rw [ExtTreeMap.contains_eq_isSome_getElem?, buckets_setBucket]
    split
    · rfl
    · rwa [ExtTreeMap.contains_eq_isSome_getElem?] at hb
  have put : ∀ (c k : String) (m : ObjectMeta), (i.put c k m).2.buckets.contains b = true := by
    intro c k m
    unfold Index.put
    grind
  cases e with
  | makeBucket c t => unfold IndexEdit.apply makeBucket; grind
  | removeBucket c force =>
    have hne : c ≠ b := fun h => he force (by rw [h])
    unfold IndexEdit.apply removeBucket
    dsimp only
    split
    · exact hb
    · split
      · exact hb
      · show (i.buckets.erase c).contains b = true
        rw [ExtTreeMap.contains_eq_isSome_getElem?, get_erase_ne hne]
        rwa [ExtTreeMap.contains_eq_isSome_getElem?] at hb
  | setVersioning c on => unfold IndexEdit.apply setVersioning; grind
  | setLifecycle c rules => unfold IndexEdit.apply setLifecycle; grind
  | put c k m => exact put c k m
  | delete c k t => unfold IndexEdit.apply delete; grind
  | deleteVersion c k v => unfold IndexEdit.apply deleteVersion; grind
  | copy sb sk c k t => unfold IndexEdit.apply copy; grind

end Index

/-- The index can be loaded and has the bucket. -/
def HasBucket (x : Ledger) (b : String) : Prop :=
  ∃ i, Index.decode (x.world.files .index) = .ok i ∧ i.buckets.contains b = true

theorem HasBucket.after {e : Invocation} (h : HasBucket x b)
    (he : ∀ force, e.call ≠ .removeBucket b force) : HasBucket (x.after ce e) b := by
  obtain ⟨i, hi, hb⟩ := h
  rcases index_cases ce e.env e.call e.handle x.world with hf | ⟨i', j, hi', -, hj, hed⟩
  · exact ⟨i, (congrArg Index.decode hf).trans hi, hb⟩
  · cases hi.symm.trans hi'
    refine ⟨j, hj, ?_⟩
    refine hed.inv (I := fun l => l.buckets.contains b = true) hb fun l edit hl hmay => ?_
    refine Index.contains_apply hl ?_
    intro force hedit
    subst hedit
    obtain ⟨handle, env, call⟩ := e
    cases call with
    | removeBucket c force' =>
      cases hmay
      exact he force rfl
    | putObjectOpts c k bytes opts => obtain ⟨cid, -, hput⟩ := hmay; exact nomatch hput
    | deleteObjects c keys => obtain ⟨k, -, hdel⟩ := hmay; exact nomatch hdel
    | sweepExpired c => obtain ⟨k, hdel⟩ := hmay; exact nomatch hdel
    | sweepAll => obtain ⟨c, k, hdel⟩ := hmay; exact nomatch hdel
    | completeMultipartUpload id parts =>
      obtain ⟨st, u, manifest, cid, i, j, -, hput⟩ := hmay
      exact nomatch hput
    | _ => exact nomatch hmay

/-! ## One call in an environment in which nothing fails -/

theorem exec_create_works (ce : CeRs) (hworks : env.Works) {k : String} {opts : PutOptions}
    (hk : validKey k = .ok ()) (hm : validateUserMetadata opts.metadata = .ok ())
    (hst : MultipartState.decode (w.files .multipart) = .ok st)
    (hroom : st.uploads.size < maxInflightUploads) {i : Index}
    (hi : Index.decode (w.files .index) = .ok i) (hb : i.buckets.contains b = true) :
    ((StoreCall.createMultipartUpload b k opts).exec ce env s w).1.1
      = .ok (.text env.uploadId) := by
  rw [StoreCall.exec_free _ hworks.lock]
  show (exec ce env ((Store.createMultipartUpload ce b k opts).into _ _).prog s w).1.1 = _
  rw [exec_into, exec_createMultipartUpload]
  unfold createCheck
  rw [hk, hm, hworks.loadMultipart hst, hworks.loadIndex hi]
  dsimp only [Except.mapError]
  rw [if_pos hb]
  unfold MultipartState.create
  rw [if_neg fun h => absurd h.1 (Nat.not_le_of_lt hroom)]
  dsimp only
  unfold Env.commitUploads
  rw [hworks.saves .multipart]
  rfl

/-- All chunks of a part are stored. -/
theorem storeChunks_works (hworks : env.Works) (henv : env.Truthful ce) (n : Nat)
    (l : List (String × Bytes)) (hl : ∀ p ∈ l, p.1 = ce.cid p.2) :
    (env.storeChunks n l).1 = .ok () := by
  induction l generalizing n with
  | nil => rfl
  | cons p rest ih =>
    obtain ⟨cid, chunk⟩ := p
    obtain ⟨stored, hput⟩ := hworks.putBlob n chunk
    have hstored : stored = cid := by
      rw [henv.putBlob n chunk stored hput, ← hl _ List.mem_cons_self]
    unfold Env.storeChunks
    rw [hput]
    dsimp only
    rw [if_pos hstored]
    exact ih (n + 1) fun p hp => hl p (List.mem_cons_of_mem _ hp)

theorem exec_uploadPart_works (hce : ce.Lawful) (hworks : env.Works) (henv : env.Truthful ce)
    {n : Nat} {bytes : Bytes} (hn : 1 ≤ n ∧ n ≤ maxParts) (hne : bytes ≠ [])
    (hsize : bytes.length ≤ s.maxObjectSize)
    (hst : MultipartState.decode (w.files .multipart) = .ok st) (hu : st.uploads[id]? = some u) :
    ∃ v, ((StoreCall.uploadPart id n bytes).exec ce env s w).1.1 = .ok v := by
  have hcontains : st.uploads.contains id = true := by
    rw [ExtTreeMap.contains_eq_isSome_getElem?, hu]
    rfl
  have hchunks : (env.storeChunks 0 (ce.chunkObject bytes ce.defaultChunkSize).2).1 = .ok () := by
    refine storeChunks_works hworks henv 0 _ ?_
    rw [hce.chunkObject_eq bytes _ hce.chunk_pos]
    intro p hp
    obtain ⟨c, -, rfl⟩ := List.mem_map.mp hp
    rfl
  have hlen : bytes.length ≠ 0 := fun h => hne (List.length_eq_zero_iff.mp h)
  rw [StoreCall.exec_free _ hworks.lock]
  show ∃ v, (exec ce env ((Store.uploadPart ce s id n bytes).into _ _).prog s w).1.1 = _
  rw [exec_into, exec_uploadPart, if_neg (Nat.not_lt_of_le hsize), hworks.loadMultipart hst]
  dsimp only
  rw [if_pos hcontains]
  unfold Env.storePart
  dsimp only
  rw [hchunks]
  obtain ⟨etag, hetag⟩ := hworks.putBlob (ce.chunkObject bytes ce.defaultChunkSize).2.length
    (ce.manifestJson (ce.chunkObject bytes ce.defaultChunkSize).1)
  rw [hetag]
  dsimp only
  unfold MultipartState.putPart MultipartState.get newPart
  dsimp only
  rw [if_neg (by omega), if_neg hlen, hu]
  dsimp only [Except.map]
  unfold Env.commitUploads
  rw [hworks.saves .multipart]
  exact ⟨_, rfl⟩

theorem exec_put_works (hworks : env.Works) {k : String} {bytes : Bytes} {opts : PutOptions}
    (hcheck : putCheck s.maxObjectSize k bytes opts = .ok ())
    (hcond : opts.preconditions.any = false)
    {i : Index} (hi : Index.decode (w.files .index) = .ok i)
    (hb : i.buckets.contains b = true) :
    ∃ v, ((StoreCall.putObjectOpts b k bytes opts).exec ce env s w).1.1 = .ok v := by
  rw [StoreCall.exec_free _ hworks.lock]
  show ∃ v, (exec ce env ((s.putObjectOpts b k bytes opts).into _ _).prog s w).1.1 = _
  obtain ⟨cid, hcid⟩ := hworks.putObject bytes
  have hdecision : (putDecision ce env b k bytes opts i).1
      = .save (i.put b k (putMeta cid bytes opts env.now)).2 (putMeta cid bytes opts env.now) := by
    unfold putDecision putCondition
    rw [if_pos hb, hcond, hcid]
    rfl
  rw [exec_into, exec_putObjectOpts, hcheck]
  dsimp only
  unfold Env.transact
  rw [hworks.loadIndex hi]
  dsimp only
  rw [hdecision]
  dsimp only
  unfold Env.commit
  rw [hworks.saves .index]
  exact ⟨_, rfl⟩

/-! ## The command and the others -/

/-- An honest call of another client that leaves the upload and the bucket alone. -/
structure LeavesAlone (ce : CeRs) (b id : String) (x : Ledger) (e : Invocation) : Prop where
  honest : Honest ce x e
  record : e.call.about e.env ≠ some id
  bucket : ∀ force, e.call ≠ .removeBucket b force

/-- The cap on uploads in flight is not reached. -/
def HasRoom (x : Ledger) : Prop :=
  ∀ st, MultipartState.decode (x.world.files .multipart) = .ok st →
    st.uploads.size < maxInflightUploads

/-- A call of the command in an environment in which nothing fails; `id` is the
upload id it is given. -/
structure Unhindered (ce : CeRs) (id : String) (max : Nat) (x : Ledger) (e : Invocation) :
    Prop where
  honest : Honest ce x e
  works : e.env.Works
  create : ∀ b k opts, e.call = .createMultipartUpload b k opts →
    e.env.uploadId = id ∧ HasRoom x
  max : e.handle.maxObjectSize = max

/-- The store is sound and has the bucket. -/
structure Ready (ce : CeRs) (b : String) (x : Ledger) : Prop where
  uploads : UploadInv ce x
  sound : x.world.SoundUploads ce
  bucket : HasBucket x b

theorem Ready.after (hce : ce.Lawful) {e : Invocation} (h : Ready ce b x) (he : Honest ce x e)
    (hb : ∀ force, e.call ≠ .removeBucket b force) : Ready ce b (x.after ce e) where
  uploads := after_uploadInv hce h.uploads he
  sound := exec_sound ce e.env e.call e.handle h.sound
  bucket := h.bucket.after hb

/-- The slices `done` are the parts of the upload, which is for the bucket. -/
structure SentTo (ce : CeRs) (b id : String) (done : List Bytes) (x : Ledger) : Prop extends
    Ready ce b x where
  record : ∃ u, x.upload id = some u ∧ u.bucket = b ∧
    ∀ q ∈ numbered 0 done, u.parts[q.1]? = some (ce.partOf q.1 q.2)

theorem stable_ready (hce : ce.Lawful) :
    Prog.Stable (Among ce (LeavesAlone ce b id)) (Ready ce b) :=
  stable_among fun _ _ he hx => hx.after hce he.honest he.bucket

theorem stable_sentTo (hce : ce.Lawful) {done : List Bytes} :
    Prog.Stable (Among ce (LeavesAlone ce b id)) (SentTo ce b id done) := by
  refine stable_among fun x e he hx => ⟨hx.toReady.after hce he.honest he.bucket, ?_⟩
  obtain ⟨u, hu, hrest⟩ := hx.record
  refine ⟨u, ?_, hrest⟩
  exact (inFlight_other e.call e.handle he.record).trans hu

/-! ### Part numbers -/

theorem numbered_append (n : Nat) (done : List Bytes) (slice : Bytes) :
    numbered n (done ++ [slice]) = numbered n done ++ [(n + done.length + 1, slice)] := by
  induction done generalizing n with
  | nil => rfl
  | cons c done ih =>
    show (n + 1, c) :: numbered (n + 1) (done ++ [slice]) = _
    rw [ih, List.length_cons]
    show _ = (n + 1, c) :: (numbered (n + 1) done ++ [_])
    rw [show n + 1 + done.length + 1 = n + (done.length + 1) + 1 by omega]

theorem mem_numbered {n : Nat} {slices : List Bytes} {q : Nat × Bytes}
    (h : q ∈ numbered n slices) : n < q.1 ∧ q.1 ≤ n + slices.length := by
  induction slices generalizing n with
  | nil => exact nomatch h
  | cons c slices ih =>
    rw [List.length_cons]
    rcases List.mem_cons.mp h with rfl | h
    · dsimp only
      omega
    · have := ih h
      omega

theorem numbered_sorted (n : Nat) (slices : List Bytes) :
    (numbered n slices).Pairwise fun p q => p.1 < q.1 := by
  induction slices generalizing n with
  | nil => exact .nil
  | cons c slices ih =>
    refine List.pairwise_cons.mpr ⟨?_, ih (n + 1)⟩
    intro q hq
    exact (mem_numbered hq).1

/-! ### Sending the slices -/

/-- One more slice. -/
theorem SentTo.send (hce : ce.Lawful) {done : List Bytes} {slice : Bytes} {max : Nat}
    {e : Invocation} (h : SentTo ce b id done x) (he : Unhindered ce id max x e)
    (hcall : e.call = .uploadPart id (done.length + 1) slice) (hne : slice ≠ [])
    (hsize : slice.length ≤ max) (hfew : done.length + 1 ≤ maxParts) :
    e.result ce x = .ok (.text (ce.objectCid slice)) ∧
      SentTo ce b id (done ++ [slice]) (x.after ce e) := by
  obtain ⟨u, hu, hbucket, hparts⟩ := h.record
  obtain ⟨st, hst, hsound⟩ := h.sound
  have hfound : st.uploads[id]? = some u := (upload_of_decode hst id).symm.trans hu
  have hready := h.toReady.after hce he.honest (by
    intro force hc
    rw [hcall] at hc
    exact nomatch hc)
  obtain ⟨handle, env, call⟩ := e
  cases hcall
  obtain ⟨v, hv⟩ := exec_uploadPart_works (s := handle) hce he.works he.honest.truthful
    ⟨by omega, hfew⟩ hne (he.max.symm ▸ hsize) hst hfound
  rcases uploadPart_cases hce he.honest.truthful h.uploads.addressed id (done.length + 1) slice
    handle with ⟨⟨f, hf⟩, -⟩ | ⟨st', st'', hst', hput, hr, hfiles, -⟩
  · exact nomatch hv.symm.trans hf
  cases hst.symm.trans hst'
  obtain ⟨u', hu', hschema, huploads⟩ := putPart_uploads hput
  cases hfound.symm.trans hu'
  refine ⟨hr, hready, u.withPart (done.length + 1) (ce.partOf (done.length + 1) slice), ?_, hbucket,
    ?_⟩
  · have hdecode : MultipartState.decode (((StoreCall.uploadPart id (done.length + 1) slice).exec
        ce env handle x.world).2.files .multipart) = .ok st'' := by
      rw [hfiles, Function.update_self]
      exact MultipartState.decode_kept hst hschema
    refine (upload_of_decode hdecode id).trans ?_
    rw [huploads]
    exact get_insert_self
  · intro q hq
    show (u.parts.insert (done.length + 1) _)[q.1]? = _
    rw [numbered_append, Nat.zero_add] at hq
    rcases List.mem_append.mp hq with hq | hq
    · have hle := (mem_numbered hq).2
      rw [get_insert_ne (by omega)]
      exact hparts q hq
    · cases List.mem_singleton.mp hq
      exact get_insert_self

/-- All slices are taken. -/
theorem sendParts_alone (hce : ce.Lawful) {max : Nat} (slices : List Bytes) (done : List Bytes)
    (hne : ∀ c ∈ slices, c ≠ []) (hsize : ∀ c ∈ slices, c.length ≤ max)
    (hfew : done.length + slices.length ≤ maxParts) :
    Prog.Meets (Among ce (LeavesAlone ce b id)) (Made ce (Unhindered ce id max))
      (SentTo ce b id done)
      (Cli.sendParts id done.length slices (ce.listing (numbered 0 done))) fun r x =>
        r = .ok (ce.listing (numbered 0 (done ++ slices))) ∧ SentTo ce b id (done ++ slices) x := by
  induction slices generalizing done with
  | nil =>
    refine Prog.meets_ret ?_
    intro x hx
    rw [List.append_nil]
    exact ⟨rfl, hx⟩
  | cons slice rest ih =>
    rw [List.length_cons] at hfew
    refine Prog.meets_call (T := fun r x => r = .ok (.text (ce.objectCid slice)) ∧
      SentTo ce b id (done ++ [slice]) x) (stable_sentTo hce) ?_ ?_
    · intro x r y hx hmade
      obtain ⟨e, he, hcall, rfl, rfl⟩ := hmade
      exact hx.send hce he hcall (hne slice List.mem_cons_self) (hsize slice List.mem_cons_self)
        (by omega)
    · intro r x a z hx hrun
      obtain ⟨rfl, hx⟩ := hx
      have hlisting : ce.listing (numbered 0 (done ++ [slice]))
          = ce.listing (numbered 0 done) ++ [(done.length + 1, ce.objectCid slice)] := by
        unfold CeRs.listing
        rw [numbered_append, List.map_append, Nat.zero_add]
        rfl
      have hmeets := ih (done ++ [slice]) (fun c hc => hne c (List.mem_cons_of_mem slice hc))
        (fun c hc => hsize c (List.mem_cons_of_mem slice hc)) (by
          rw [List.length_append, List.length_singleton]
          omega)
      rw [hlisting, List.length_append, List.length_singleton, List.append_assoc,
        List.singleton_append] at hmeets
      exact hmeets x a z hx hrun

/-! ### The whole command -/

/-- The upload is created. -/
theorem Ready.create (hce : ce.Lawful) {k : String} {opts : PutOptions} {max : Nat}
    {e : Invocation} (h : Ready ce b x) (he : Unhindered ce id max x e)
    (hcall : e.call = .createMultipartUpload b k opts) (hk : validKey k = .ok ())
    (hm : validateUserMetadata opts.metadata = .ok ()) :
    e.result ce x = .ok (.text id) ∧ SentTo ce b id [] (x.after ce e) := by
  obtain ⟨hid, hroom⟩ := he.create b k opts hcall
  obtain ⟨st, hst, hsound⟩ := h.sound
  obtain ⟨i, hi, hb⟩ := h.bucket
  have hready := h.after hce he.honest (by
    intro force hc
    rw [hcall] at hc
    exact nomatch hc)
  obtain ⟨handle, env, call⟩ := e
  cases hcall
  have hok := exec_create_works (s := handle) ce he.works hk hm hst (hroom st hst) hi hb
  have hid' : env.uploadId = id := hid
  rcases createMultipartUpload_cases ce env b k opts handle x.world with
    ⟨⟨f, hf⟩, -⟩ | ⟨st', st'', hst', hc, hr, hfiles⟩
  · exact nomatch hok.symm.trans hf
  cases hst.symm.trans hst'
  obtain ⟨huploads, hschema⟩ := create_uploads hc
  rw [hid'] at hr huploads
  refine ⟨hr, hready, newUpload ce b k opts env.now, ?_, rfl, fun _ hq => nomatch hq⟩
  have hdecode : MultipartState.decode (((StoreCall.createMultipartUpload b k opts).exec ce env
      handle x.world).2.files .multipart) = .ok st'' := by
    rw [hfiles, Function.update_self]
    exact MultipartState.decode_kept hst hschema
  refine (upload_of_decode hdecode id).trans ?_
  rw [huploads]
  exact get_insert_self

/-- The parts of slices, with their records. -/
def CeRs.recorded (ce : CeRs) (sent : List (Nat × Bytes)) : List (Nat × Part) :=
  sent.map fun q => (q.1, ce.partOf q.1 q.2)

theorem requestOf_recorded (sent : List (Nat × Bytes)) :
    requestOf (ce.recorded sent) = ce.listing sent := by
  unfold requestOf CeRs.recorded CeRs.listing
  rw [List.map_map]
  rfl

theorem totalOf_recorded (n : Nat) (slices : List Bytes) :
    totalOf (ce.recorded (numbered n slices)) = slices.flatten.length := by
  have h : (ce.recorded (numbered n slices)).map (fun q => q.2.size) = slices.map List.length := by
    rw [← congrArg (List.map List.length) (numbered_snd n slices), List.map_map]
    unfold CeRs.recorded
    rw [List.map_map]
    rfl
  unfold totalOf
  rw [h, List.length_flatten]

/-- The upload of aligned slices can be completed. -/
theorem SentTo.complete {slices : List Bytes} {max : Nat} {e : Invocation}
    (h : SentTo ce b id slices x) (he : Unhindered ce id max x e)
    (hcall : e.call = .completeMultipartUpload id (ce.listing (numbered 0 slices)))
    (hne : slices ≠ []) (hfew : slices.length ≤ maxParts)
    (haligned : ∀ c ∈ slices.dropLast, ce.defaultChunkSize ∣ c.length)
    (hsize : slices.flatten.length ≤ max) (hfits : slices.flatten.length < 2 ^ 64) :
    ∃ m, e.result ce x = .ok (.object m) := by
  obtain ⟨u, hu, hbucket, hparts⟩ := h.record
  obtain ⟨st, hst, hsound⟩ := h.sound
  obtain ⟨i, hi, hb⟩ := h.bucket
  have hfound : st.uploads[id]? = some u := (upload_of_decode hst id).symm.trans hu
  have hus : u.Sound ce := hsound.upload id u hfound
  obtain ⟨handle, env, call⟩ := e
  cases hcall
  refine (complete_ok_iff (s := handle) he.works hst hfound hus hi).mpr ?_
  have hown : OwnParts u 0 (ce.recorded (numbered 0 slices)) := by
    refine ⟨?_, ?_, (numbered_sorted 0 slices).map _ fun _ _ h => h⟩
    · intro q hq
      obtain ⟨p, hp, rfl⟩ := List.mem_map.mp hq
      exact hparts p hp
    · intro q hq
      obtain ⟨p, hp, rfl⟩ := List.mem_map.mp hq
      exact (mem_numbered hp).1
  have hal : Aligned u (ce.recorded (numbered 0 slices)) := by
    intro q hq
    unfold CeRs.recorded at hq
    rw [← List.map_dropLast] at hq
    obtain ⟨p, hp, rfl⟩ := List.mem_map.mp hq
    have hmem : p.2 ∈ slices.dropLast := by
      rw [← numbered_snd 0 slices, ← List.map_dropLast]
      exact List.mem_map_of_mem hp
    rw [hus.partChunk]
    exact Nat.mod_eq_zero_of_dvd (haligned p.2 hmem)
  have htotal : 0 + totalOf (ce.recorded (numbered 0 slices)) = slices.flatten.length := by
    rw [totalOf_recorded, Nat.zero_add]
  have hok := (assembleParts_own _ [] hown (by decide)).1 ⟨hal, htotal.symm ▸ hfits⟩
  rw [requestOf_recorded, htotal] at hok
  have hlength : (ce.listing (numbered 0 slices)).length = slices.length := by
    rw [← List.length_map Prod.snd, etags_numbered, List.length_map]
  have hempty : ¬(ce.listing (numbered 0 slices)).isEmpty = true := by
    intro hnil
    rw [List.isEmpty_iff.mp hnil] at hlength
    exact hne (List.length_eq_zero_iff.mp hlength.symm)
  refine ⟨⟨ce.manifestKindV1, u.partChunk, slices.flatten.length,
    [] ++ (ce.recorded (numbered 0 slices)).flatMap (·.2.chunkCids)⟩, ?_,
    (he.max.symm ▸ hsize : slices.flatten.length ≤ handle.maxObjectSize), hbucket.symm ▸ hb⟩
  unfold assembleManifest
  rw [if_neg hempty, hlength, if_neg (Nat.not_lt_of_le hfew), hok]
  rfl

theorem Ready.abort {max : Nat} {e : Invocation} (h : Ready ce b x) (he : Unhindered ce id max x e)
    (hcall : e.call = .abortMultipartUpload id) : e.result ce x = .ok .unit := by
  obtain ⟨st, hst, -⟩ := h.sound
  unfold Invocation.result
  rw [hcall]
  exact abortMultipartUpload_ok id he.works.lock (he.works.loadMultipart hst)
    (he.works.saves .multipart)

theorem Ready.put (hce : ce.Lawful) {k : String} {bytes : Bytes} {opts : PutOptions} {max : Nat}
    {e : Invocation} (h : Ready ce b x) (he : Unhindered ce id max x e)
    (hcall : e.call = .putObjectOpts b k bytes opts)
    (hcheck : putCheck e.handle.maxObjectSize k bytes opts = .ok ())
    (hcond : opts.preconditions.any = false) : ∃ m, e.result ce x = .ok (.object m) := by
  obtain ⟨i, hi, hb⟩ := h.bucket
  obtain ⟨v, hv⟩ : ∃ v, e.result ce x = .ok v := by
    unfold Invocation.result
    rw [hcall]
    exact exec_put_works he.works hcheck hcond hi hb
  obtain ⟨m, rfl, -⟩ := put_stores hce h.uploads he.honest hcall hv
  exact ⟨m, hv⟩

/-- The calls of the command all succeed. -/
theorem upload_alone (hce : ce.Lawful) {k : String} {slices : List Bytes} {bytes : Bytes}
    {opts : PutOptions} {max : Nat} (hcat : slices.flatten = bytes)
    (hne : ∀ c ∈ slices, c ≠ []) (hkey : validKey k = .ok ())
    (hfew : slices.length ≤ maxParts) (hfits : bytes.length < 2 ^ 64)
    (haligned : ∀ c ∈ slices.dropLast, ce.defaultChunkSize ∣ c.length)
    (hopts : validateUserMetadata opts.metadata = .ok () ∧ opts.preconditions.any = false)
    (hsize : bytes.length ≤ max) :
    Prog.Meets (Among ce (LeavesAlone ce b id)) (Made ce (Unhindered ce id max)) (Ready ce b)
      (Cli.upload b k opts slices) fun r _ => ∃ m, r = .ok (.object m) := by
  refine Prog.meets_call (T := fun r x => r = .ok (.text id) ∧ SentTo ce b id [] x)
    (stable_ready hce) ?_ ?_
  · intro x r y hx hmade
    obtain ⟨e, he, hcall, rfl, rfl⟩ := hmade
    exact hx.create hce he hcall hkey hopts.1
  intro r x a z hx hrun
  obtain ⟨rfl, hx⟩ := hx
  change Prog.Amid _ _ (Prog.bind (Cli.sendParts id 0 slices []) _) x a z at hrun
  obtain ⟨sent, y, hsend, hrest⟩ := hrun.split
  have hsmall : ∀ c ∈ slices, c.length ≤ max := by
    intro c hc
    have hle : c.length ≤ slices.flatten.length := by
      rw [List.length_flatten]
      exact List.le_sum_of_mem (List.mem_map_of_mem hc)
    rw [hcat] at hle
    omega
  obtain ⟨rfl, hy⟩ := sendParts_alone hce slices [] hne hsmall
    (by rw [List.length_nil]; omega) x sent y hx hsend
  rw [List.nil_append] at hrest hy
  change Prog.Amid _ _ (if (ce.listing (numbered 0 slices)).isEmpty = true then _ else _ :
    Command Value) y a z at hrest
  split at hrest
  next hempty =>
    -- the empty file: drop the upload and put no bytes
    cases hrest with
    | call before now rest =>
      obtain ⟨e, he, hcall, rfl, rfl⟩ := now
      have hz := stable_sentTo hce _ _ hy before
      have habort : e.result ce _ = .ok .unit := hz.toReady.abort he hcall
      have hnext := hz.toReady.after hce he.honest (by
        intro force hc
        rw [hcall] at hc
        exact nomatch hc)
      rw [habort] at rest
      cases rest with
      | call before' now' rest' =>
        cases rest'
        obtain ⟨e', he', hcall', hr, rfl⟩ := now'
        obtain ⟨m, hm⟩ := (stable_ready hce _ _ hnext before').put hce he' hcall' (by
          unfold putCheck
          rw [List.length_nil, if_neg (Nat.not_lt_zero _), hkey, hopts.1]
          rfl) hopts.2
        exact ⟨m, hr.symm.trans hm⟩
  next hempty =>
    cases hrest with
    | call before now rest =>
      cases rest
      obtain ⟨e, he, hcall, hr, rfl⟩ := now
      have hz := stable_sentTo hce _ _ hy before
      obtain ⟨m, hm⟩ := hz.complete he hcall (by
        intro h
        rw [h] at hempty
        exact hempty rfl) hfew haligned (hcat.symm ▸ hsize) (hcat.symm ▸ hfits)
      exact ⟨m, hr.symm.trans hm⟩

theorem chunk_dvd_sliceSize (hce : ce.defaultChunkSize ∣ Cli.chunk) (partSize : Nat) :
    ce.defaultChunkSize ∣ Cli.sliceSize partSize :=
  Nat.dvd_mul_left_of_dvd hce _

/-- **Left alone, the upload command gets through.** While the calls of others
leave its upload and its bucket alone, nothing fails and there is room for the
upload, the command stores any file of a legal size in no more than 10,000 slices,
under a legal key in a bucket that is there. -/
theorem multipart_upload_completes (ce : CeRs) (hce : ce.Lawful)
    (hchunk : ce.defaultChunkSize ∣ Cli.chunk) (w₀ : World) (hw : Addressed ce w₀)
    (hnone : w₀.NoUploads) (hs : w₀.SoundUploads ce) (x : Ledger)
    (hx : Reach (Ledger.fire ce) (Honest ce) (Ledger.start w₀) x) (target b k id : String)
    (bytes : Bytes) (partSize max : Nat) (contentType extension : Option String)
    (htarget : Cli.splitTarget target true = .ok (b, k)) (hpart : partSize ≠ 0)
    (hkey : validKey k = .ok ()) (hbucket : HasBucket x b) (hsize : bytes.length ≤ max)
    (hfits : bytes.length < 2 ^ 64) (hfew : bytes.length ≤ maxParts * Cli.sliceSize partSize)
    (r : Except Failure Value) (z : Ledger)
    (hrun : Prog.Amid (Among ce (LeavesAlone ce b id)) (Made ce (Unhindered ce id max))
      (Cli.multipartUpload target (.ok bytes) partSize contentType extension (.ok ())) x r z) :
    ∃ m, r = .ok (.object m) ∧ Bound ce b k bytes m z := by
  have hready : Ready ce b x := ⟨reach_uploadInv hce hw hnone hx, reach_sound hs hx, hbucket⟩
  have hpos := Cli.sliceSize_pos partSize
  have hdone : ∃ m, r = .ok (.object m) := by
    unfold Cli.multipartUpload at hrun
    rw [htarget] at hrun
    dsimp only at hrun
    rw [if_neg hpart] at hrun
    refine upload_alone hce (chunks_flatten hpos bytes) ?_ hkey ?_ hfits ?_ ⟨by rfl, rfl⟩ hsize
      x r z hready hrun
    · exact ne_nil_of_mem_chunks hpos bytes
    · exact (length_chunks_le hpos).mpr hfew
    · intro c hc
      rw [length_of_mem_dropLast_chunks hpos bytes c hc]
      exact chunk_dvd_sliceSize hchunk partSize
  obtain ⟨m, rfl⟩ := hdone
  have hstored := multipart_upload_stores ce hce w₀ hw hnone x hx target (.ok bytes) partSize
    contentType extension (.ok ()) (.object m) z (hrun.mono ?_ ?_)
  · obtain ⟨b', k', bytes', m', htarget', hfile, hm, hbound, -⟩ := hstored
    cases htarget.symm.trans htarget'
    cases hfile
    cases hm
    exact ⟨m, rfl, hbound⟩
  · intro x y hreach
    exact Reach.mono (fun _ _ he => he.honest) hreach
  · intro c x r y hmade
    obtain ⟨e, he, hrest⟩ := hmade
    exact ⟨e, he.honest, hrest⟩

/-! A file of two slices, the second of which is not full. Another client makes a bucket
before the first is sent. -/

private def photosMade : Ledger :=
  (Ledger.start World.blank).after CeRs.plain (.calm 1 (.makeBucket "photos"))

private def twoCreation : Invocation :=
  .calm 2 (.createMultipartUpload "photos" "a" { contentType := "image/png" })

private def otherBucket : Invocation := .calm 3 (.makeBucket "videos")

private def sliceSent (n : Nat) (slice : Bytes) : Invocation :=
  .calm (3 + n) (.uploadPart "u" n slice)

private def twoCompletion (c d : Bytes) : Invocation :=
  .calm 6 (.completeMultipartUpload "u" (CeRs.plain.listing (numbered 0 [c, d])))

private def bothSent (c d : Bytes) : Ledger :=
  (((photosMade.after CeRs.plain twoCreation).after CeRs.plain otherBucket).after CeRs.plain
    (sliceSent 1 c)).after CeRs.plain (sliceSent 2 d)

private theorem calm_unhindered {y : Ledger} {now : Nat} {c : StoreCall}
    (h : ∀ b k opts, c ≠ .createMultipartUpload b k opts) :
    Unhindered CeRs.plain "u" (Store.fresh 1).maxObjectSize y (.calm now c) :=
  ⟨calm_honest (.inr h), calm_works _ _, fun b k opts hc => absurd hc (h b k opts), rfl⟩

private theorem photosMade_room : HasRoom photosMade := by
  intro st hst
  have hblank : MultipartState.decode (photosMade.world.files .multipart) = .ok .empty := rfl
  cases hst.symm.trans hblank
  decide

private theorem photosMade_reach :
    Reach (Ledger.fire CeRs.plain) (Honest CeRs.plain) (Ledger.start World.blank) photosMade :=
  .next .start (calm_honest (.inl rfl)) rfl

private theorem photosMade_ready : Ready CeRs.plain "photos" photosMade :=
  ⟨reach_uploadInv CeRs.plain_lawful blank_addressed blank_noUploads photosMade_reach,
    reach_sound blank_soundUploads photosMade_reach, _, rfl, rfl⟩

private theorem twoCreation_unhindered :
    Unhindered CeRs.plain "u" (Store.fresh 1).maxObjectSize photosMade twoCreation :=
  ⟨calm_honest (.inl rfl), calm_works _ _, fun _ _ _ _ => ⟨rfl, photosMade_room⟩, rfl⟩

/-- A full slice and a shorter one. -/
private structure TwoSlices (c d : Bytes) : Prop where
  full : c.length = Cli.sliceSize 5
  short : d.length ≤ Cli.sliceSize 5
  ne : d ≠ []

private theorem TwoSlices.ne_first {c d : Bytes} (h : TwoSlices c d) : c ≠ [] := by
  intro hc
  have hpos := Cli.sliceSize_pos 5
  rw [← h.full, hc] at hpos
  exact absurd hpos (Nat.lt_irrefl 0)

private theorem TwoSlices.chunks {c d : Bytes} (h : TwoSlices c d) :
    Lib.chunks (Cli.sliceSize 5) (c ++ d) = [c, d] := by
  have hpos := Cli.sliceSize_pos 5
  rw [chunks_of_ne_nil hpos (List.append_ne_nil_of_left_ne_nil h.ne_first d),
    List.take_left' h.full, List.drop_left' h.full, chunks_of_ne_nil hpos h.ne,
    List.take_of_length_le h.short, List.drop_of_length_le h.short, chunks_nil]

private theorem slice_fits {slice : Bytes} (h : slice.length ≤ Cli.sliceSize 5) :
    slice.length ≤ (Store.fresh 1).maxObjectSize :=
  Nat.le_trans h (by decide)

/-- The command runs through. -/
private theorem two_run {c d : Bytes} (h : TwoSlices c d) :
    Prog.Amid (Among CeRs.plain (LeavesAlone CeRs.plain "photos" "u"))
      (Made CeRs.plain (Unhindered CeRs.plain "u" (Store.fresh 1).maxObjectSize))
      (Cli.multipartUpload "photos/a" (.ok (c ++ d)) 5 none (some "png") (.ok ())) photosMade
      ((twoCompletion c d).result CeRs.plain (bothSent c d))
      ((bothSent c d).after CeRs.plain (twoCompletion c d)) := by
  have hcommand : Cli.multipartUpload "photos/a" (.ok (c ++ d)) 5 none (some "png") (.ok ())
      = Cli.upload "photos" "a" { contentType := "image/png" } [c, d] :=
    congrArg (Cli.upload "photos" "a" { contentType := "image/png" }) h.chunks
  have hc : c ≠ [] := h.ne_first
  obtain ⟨hcreate, hcreated⟩ := photosMade_ready.create CeRs.plain_lawful twoCreation_unhindered
    rfl (by decide +kernel) rfl
  have hother : Among CeRs.plain (LeavesAlone CeRs.plain "photos" "u")
      (photosMade.after CeRs.plain twoCreation)
      ((photosMade.after CeRs.plain twoCreation).after CeRs.plain otherBucket) :=
    .next .start ⟨calm_honest (.inr (by simp)), by simp [Invocation.calm,
      StoreCall.about], by simp [Invocation.calm]⟩ rfl
  have hfirst : Unhindered CeRs.plain "u" (Store.fresh 1).maxObjectSize
      ((photosMade.after CeRs.plain twoCreation).after CeRs.plain otherBucket) (sliceSent 1 c) :=
    calm_unhindered (by simp)
  obtain ⟨hpart, hsent⟩ := (stable_sentTo CeRs.plain_lawful _ _ hcreated hother).send
    CeRs.plain_lawful hfirst rfl hc (slice_fits (Nat.le_of_eq h.full)) (by decide)
  have hsecond : Unhindered CeRs.plain "u" (Store.fresh 1).maxObjectSize
      (((photosMade.after CeRs.plain twoCreation).after CeRs.plain otherBucket).after CeRs.plain
        (sliceSent 1 c)) (sliceSent 2 d) := calm_unhindered (by simp)
  obtain ⟨hlast, -⟩ := hsent.send CeRs.plain_lawful hsecond rfl h.ne (slice_fits h.short)
    (show 2 ≤ maxParts by decide)
  rw [hcommand]
  refine .call .start ⟨twoCreation, twoCreation_unhindered, rfl, hcreate, rfl⟩ ?_
  refine .call hother ⟨sliceSent 1 c, hfirst, rfl, hpart, rfl⟩ ?_
  refine .call .start ⟨sliceSent 2 d, hsecond, rfl, hlast, rfl⟩ ?_
  exact .call .start ⟨twoCompletion c d, calm_unhindered (by simp), rfl, rfl, rfl⟩ (.ret _ _)

private def fullSlice : Bytes := List.replicate (Cli.sliceSize 5) 7

private theorem fullSlice_two : TwoSlices fullSlice [1] :=
  ⟨List.length_replicate, by decide, by decide⟩

theorem multipart_upload_completes_twoSlices : ∃ m,
    (twoCompletion fullSlice [1]).result CeRs.plain (bothSent fullSlice [1]) = .ok (.object m) ∧
      Bound CeRs.plain "photos" "a" (fullSlice ++ [1]) m
        ((bothSent fullSlice [1]).after CeRs.plain (twoCompletion fullSlice [1])) := by
  have hlength : (fullSlice ++ [1]).length = Cli.sliceSize 5 + 1 := by
    rw [List.length_append, fullSlice_two.full, List.length_singleton]
  exact multipart_upload_completes CeRs.plain CeRs.plain_lawful (by decide) World.blank
    blank_addressed blank_noUploads blank_soundUploads photosMade photosMade_reach "photos/a" "photos"
    "a" "u" (fullSlice ++ [1]) 5 (Store.fresh 1).maxObjectSize none (some "png") rfl (by decide)
    (by decide +kernel) ⟨_, rfl, rfl⟩ (by rw [hlength]; decide) (by rw [hlength]; decide)
    (by rw [hlength]; decide) _ _ (two_run fullSlice_two)

end CeStorage
