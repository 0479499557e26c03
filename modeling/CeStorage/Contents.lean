import CeStorage.Store.Edits
import CeStorage.Uploads

/-!
# ETags and contents

A live version is described by its content (`ContentOf`): the content is stored,
its manifest's CID is the etag, and its length is the recorded size. Puts,
completions and copies make only such versions, from bytes that were put or
sent, and no other call makes any. So over every honest run two live versions
have one etag exactly when they have one content.
-/

namespace CeStorage

open Lib
open Std (ExtTreeMap)

variable {ce : CeRs} {env : Env} {s : Store} {w w' : World} {bytes : Bytes} {m : ObjectMeta}

/-- `bytes` is the content of the version that `m` describes. -/
structure ContentOf (ce : CeRs) (w : World) (m : ObjectMeta) (bytes : Bytes) : Prop where
  stored : Stored ce w bytes
  cid : m.cid = ce.objectCid bytes
  etag : m.etag = m.cid
  versionId : m.versionId = m.cid
  size : m.size = bytes.length

theorem ContentOf.mono (h : ContentOf ce w m bytes) (hg : Grows w w') : ContentOf ce w' m bytes :=
  { h with stored := h.stored.mono hg }

theorem ContentOf.at_time (h : ContentOf ce w m bytes) (t : Nat) :
    ContentOf ce w { m with lastModified := t } bytes :=
  ⟨h.stored, h.cid, h.etag, h.versionId, h.size⟩

theorem ContentOf.read (hce : ce.Lawful) (h : ContentOf ce w m bytes) :
    ce.readObject w m.cid = some bytes := by
  rw [h.cid]
  exact h.stored.read hce

/-- Contents are told apart by their etags. -/
theorem ContentOf.etag_eq_iff (hce : ce.Lawful) {m' : ObjectMeta} {bytes' : Bytes}
    (h : ContentOf ce w m bytes) (h' : ContentOf ce w' m' bytes') :
    m.etag = m'.etag ↔ bytes = bytes' := by
  rw [h.etag, h'.etag, h.cid, h'.cid]
  constructor
  · intro hcid
    exact objectCid_injective hce hcid
  · intro hb
    rw [hb]

/-! ## What each call makes -/

/-- What the client sent in a call that makes a version of it. -/
def StoreCall.Sent (log : List (StoreCall × Except Failure Value)) (bytes : Bytes) :
    StoreCall → Prop
  | .putObjectOpts _ _ bytes' _ => bytes' = bytes
  | .completeMultipartUpload id parts => ∃ bss : List Bytes,
      parts.map (fun p => lastSent log id p.1) = bss.map some ∧ bss.flatten = bytes
  | _ => False

theorem putMeta_content {cid : String} {opts : PutOptions} (hce : ce.Lawful)
    (henv : env.Truthful ce) (hw : Addressed ce w) (hput : env.putObject bytes = .ok cid)
    (hw' : w'.blobs = (w.setBlobs (objectBlobs ce bytes cid)).blobs) (now : Nat) :
    ContentOf ce w' (putMeta cid bytes opts now) bytes := by
  have hobj := hce.chunkObject_eq bytes _ hce.chunk_pos
  have hcid : cid = ce.objectCid bytes := by
    rw [henv.putObject bytes cid hput, hobj]
    rfl
  have haddr : ∀ p ∈ objectBlobs ce bytes cid, p.1 = ce.cid p.2 := by
    unfold objectBlobs
    rw [hobj]
    intro p hp
    rcases List.mem_append.mp hp with hp | hp
    · obtain ⟨c, -, rfl⟩ := List.mem_map.mp hp
      rfl
    · cases List.mem_singleton.mp hp
      exact hcid
  have hblobs := blobs_setBlobs hce hw haddr
  refine ⟨⟨?_, ?_⟩, hcid, rfl, rfl, rfl⟩
  · intro c hc
    rw [hw']
    refine hblobs (ce.cid c, c) ?_
    unfold objectBlobs
    rw [hobj]
    exact List.mem_append_left _ (List.mem_map.mpr ⟨c, hc, rfl⟩)
  · rw [hw', ← hcid]
    refine hblobs (cid, ce.manifestJson (ce.manifestOf bytes ce.defaultChunkSize)) ?_
    unfold objectBlobs
    rw [hobj]
    exact List.mem_append_right _ (List.mem_singleton.mpr rfl)

theorem completeMeta_content {id : String} {parts : List (Nat × String)} {st : MultipartState}
    {u : Upload} {manifest : Manifest} {cid : String} {i j : Index} {sent : Nat → Option Bytes}
    (hce : ce.Lawful) (henv : env.Truthful ce) (hw : Addressed ce w)
    (hass : Assembled ce env id parts w st u manifest cid i j) (hu : PartsOf ce w sent u)
    (hw' : w'.blobs = (w.setBlob cid (ce.manifestJson manifest)).blobs) :
    ∃ bss : List Bytes, parts.map (fun p => sent p.1) = bss.map some ∧
      ContentOf ce w' (completeMeta u manifest cid env.now) bss.flatten := by
  obtain ⟨bss, hbss, -, hsize, hcid, hst⟩ := hass.object hce henv hw hu hw'
  exact ⟨bss, hbss, hst, hcid, rfl, rfl, hsize⟩

/-! ## Runs -/

/-- Besides what `UploadInv` says, every live version has a content. -/
structure ContentsInv (ce : CeRs) (x : Ledger) : Prop where
  uploads : UploadInv ce x
  version : ∀ i, Index.decode (x.world.files .index) = .ok i → ∀ m, i.Live m →
    ∃ bytes, ContentOf ce x.world m bytes

/-- There are no versions. -/
def World.NoVersions (w : World) : Prop :=
  ∀ i, Index.decode (w.files .index) = .ok i → ∀ m, ¬i.Live m

theorem blank_noVersions : World.blank.NoVersions := by
  intro i hi m hm
  cases hi
  obtain ⟨b, k, entry, v, hh, -⟩ := hm
  exact nomatch hh

theorem start_contentsInv {w₀ : World} (hw : Addressed ce w₀) (hu : w₀.NoUploads)
    (hv : w₀.NoVersions) : ContentsInv ce (Ledger.start w₀) where
  uploads := start_uploadInv hw hu
  version i hi m hm := absurd hm (hv i hi m)

/-- Every version that a call puts has a content that its client sent. -/
theorem put_content (hce : ce.Lawful) {x : Ledger} {e : Invocation} (hI : UploadInv ce x)
    (he : Honest ce x e)
    (hsaved : (x.after ce e).world.files .index ≠ x.world.files .index) {b k : String}
    (h : e.call.MayEdit ce e.env x.world (.put b k m)) :
    ∃ bytes, ContentOf ce (x.after ce e).world m bytes := by
  obtain ⟨handle, env, call⟩ := e
  cases call with
  | putObjectOpts b' k' bytes opts =>
    obtain ⟨cid, hput, hm⟩ := h
    cases hm
    rcases putObjectOpts_cases ce env b k bytes opts handle x.world with
      ⟨-, hf⟩ | ⟨cid', i, j, hput', -, -, -, -, -, hb⟩
    · exact absurd (congrFun hf .index) hsaved
    · cases hput.symm.trans hput'
      exact ⟨bytes, putMeta_content hce he.truthful hI.addressed hput hb env.now⟩
  | completeMultipartUpload id parts =>
    obtain ⟨st, u, manifest, cid, i, j, hass, hm⟩ := h
    cases hm
    rcases completeMultipartUpload_cases ce env id parts handle x.world with
      ⟨-, hf⟩ | ⟨st', u', manifest', cid', i', j', hass', hb, -⟩
    · exact absurd (congrFun hf .index) hsaved
    · -- both describe the one run, so they name the same upload and manifest
      cases hass.loaded.symm.trans hass'.loaded
      cases hass.found.symm.trans hass'.found
      cases hass.assembled.symm.trans hass'.assembled
      cases hass.stored.symm.trans hass'.stored
      have hrec := hI.record id u ((upload_of_decode hass.loaded id).trans hass.found)
      obtain ⟨bss, -, hc⟩ := completeMeta_content hce he.truthful hI.addressed hass hrec.parts hb
      exact ⟨bss.flatten, hc⟩
  -- the other index calls put nothing
  | sweepExpired b' => obtain ⟨k', hk⟩ := h; exact nomatch hk
  | sweepAll => obtain ⟨b', k', hk⟩ := h; exact nomatch hk
  | deleteObjects b' keys => obtain ⟨k', -, hk⟩ := h; exact nomatch hk
  | _ => exact nomatch h

/-- One call keeps the invariant. -/
theorem after_contentsInv (hce : ce.Lawful) {x : Ledger} {e : Invocation}
    (hI : ContentsInv ce x) (he : Honest ce x e) : ContentsInv ce (x.after ce e) := by
  obtain ⟨hadd, hgrow⟩ := e.call.exec_blobs (s := e.handle) hce he.truthful hI.uploads.addressed
  refine ⟨after_uploadInv hce hI.uploads he, ?_⟩
  by_cases hsaved : (x.after ce e).world.files .index = x.world.files .index
  · rw [hsaved]
    intro i hi m hm
    obtain ⟨bytes, hc⟩ := hI.version i hi m hm
    exact ⟨bytes, hc.mono hgrow⟩
  rcases index_cases ce e.env e.call e.handle x.world with hf | ⟨i, j, hi, -, hj, hed⟩
  · exact absurd hf hsaved
  intro j' hj'
  cases hj.symm.trans hj'
  refine Index.live_edited hed ?_ ?_ ?_
  · intro b k m hm
    exact put_content hce hI.uploads he hsaved hm
  · rintro m t ⟨bytes, hc⟩
    exact ⟨bytes, hc.at_time t⟩
  · intro m hm
    obtain ⟨bytes, hc⟩ := hI.version i hi m hm
    exact ⟨bytes, hc.mono hgrow⟩

theorem reach_contentsInv (hce : ce.Lawful) {w₀ : World} (hw : Addressed ce w₀)
    (hu : w₀.NoUploads) (hv : w₀.NoVersions) {x : Ledger}
    (hx : Reach (Ledger.fire ce) (Honest ce) (Ledger.start w₀) x) : ContentsInv ce x := by
  refine hx.inv (start_contentsInv hw hu hv) ?_
  intro y e y' _ hI hok hf
  cases hf
  exact after_contentsInv hce hI hok

/-- What a put or a completion returns has the content that was sent. -/
theorem result_content (hce : ce.Lawful) {x : Ledger} {e : Invocation} (hI : UploadInv ce x)
    (he : Honest ce x e) {v : Value} (hok : e.result ce x = .ok v)
    (hcall : (∃ b k bytes opts, e.call = .putObjectOpts b k bytes opts) ∨
      ∃ id parts, e.call = .completeMultipartUpload id parts) :
    ∃ m bytes, v = .object m ∧ e.call.Sent x.log bytes ∧
      ContentOf ce (x.after ce e).world m bytes := by
  rcases hcall with ⟨b, k, bytes, opts, hcall⟩ | ⟨id, parts, hcall⟩
  · obtain ⟨handle, env, call⟩ := e
    cases hcall
    have hr : ((StoreCall.putObjectOpts b k bytes opts).exec ce env handle x.world).1.1 = .ok v :=
      hok
    rcases putObjectOpts_cases ce env b k bytes opts handle x.world with
      ⟨⟨f, hf⟩, -⟩ | ⟨cid, i, j, hput, -, -, -, hr', -, hb⟩
    · exact nomatch hr.symm.trans hf
    · cases hr.symm.trans hr'
      exact ⟨_, bytes, rfl, rfl, putMeta_content hce he.truthful hI.addressed hput hb env.now⟩
  · obtain ⟨st, u, manifest, i, j, bss, hass, hrec, hbss, hv, hsize, hst, -⟩ :=
      hI.complete hce he hcall hok
    refine ⟨_, bss.flatten, hv, ?_, hst, rfl, rfl, rfl, hsize⟩
    rw [hcall]
    exact ⟨bss, hbss, rfl⟩

/-- **ETag equality is byte equality.** In every state of every honest run from
a store without versions, any two live versions read back, their etags are equal
exactly when what they read back as is, and each records the length of its bytes
and its CID as etag and version id. What a put or a completion returns reads
back as the bytes that were sent. -/
theorem etag_eq_iff_bytes_eq (ce : CeRs) (hce : ce.Lawful) (w₀ : World) (hw : Addressed ce w₀)
    (hu : w₀.NoUploads) (hv : w₀.NoVersions) (x : Ledger)
    (hx : Reach (Ledger.fire ce) (Honest ce) (Ledger.start w₀) x) :
    (∀ i, Index.decode (x.world.files .index) = .ok i → ∀ m m', i.Live m → i.Live m' →
      ∃ bytes bytes', ce.readObject x.world m.cid = some bytes ∧
        ce.readObject x.world m'.cid = some bytes' ∧ (m.etag = m'.etag ↔ bytes = bytes') ∧
        (m.size = bytes.length ∧ m.etag = m.cid ∧ m.cid = m.versionId) ∧
        (m'.size = bytes'.length ∧ m'.etag = m'.cid ∧ m'.cid = m'.versionId)) ∧
      ∀ e, Honest ce x e → ∀ v, e.result ce x = .ok v →
        ((∃ b k bytes opts, e.call = .putObjectOpts b k bytes opts) ∨
          ∃ id parts, e.call = .completeMultipartUpload id parts) →
        ∃ m bytes, v = .object m ∧ e.call.Sent x.log bytes ∧
          ce.readObject (x.after ce e).world m.cid = some bytes := by
  have hI := reach_contentsInv hce hw hu hv hx
  constructor
  · intro i hi m m' hm hm'
    obtain ⟨bytes, hc⟩ := hI.version i hi m hm
    obtain ⟨bytes', hc'⟩ := hI.version i hi m' hm'
    exact ⟨bytes, bytes', hc.read hce, hc'.read hce, hc.etag_eq_iff hce hc',
      ⟨hc.size, hc.etag, hc.versionId.symm⟩, ⟨hc'.size, hc'.etag, hc'.versionId.symm⟩⟩
  · intro e he v hok hcall
    obtain ⟨m, bytes, hv, hsent, hc⟩ := result_content hce hI.uploads he hok hcall
    exact ⟨m, bytes, hv, hsent, hc.read hce⟩

/-! A run: the same bytes are put under one key, and uploaded in two parts and
completed under another. -/

private def twoPaths : List Invocation :=
  [.calm 1 (.makeBucket "photos"), .calm 2 (.putObjectOpts "photos" "a" [1, 2, 3] {}),
    .calm 3 (.createMultipartUpload "photos" "b" {}), .calm 4 (.uploadPart "u" 1 [1, 2]),
    .calm 5 (.uploadPart "u" 2 [3]), .calm 6 (.completeMultipartUpload "u"
      [(1, CeRs.plain.objectCid [1, 2]), (2, CeRs.plain.objectCid [3])])]

private def bothPaths : Ledger :=
  twoPaths.foldl (fun x e => x.after CeRs.plain e) (Ledger.start World.blank)

private theorem bothPaths_reach :
    Reach (Ledger.fire CeRs.plain) (Honest CeRs.plain) (Ledger.start World.blank) bothPaths := by
  refine .next (.next (.next (.next (.next (.next .start ?_ rfl) ?_ rfl) ?_ rfl) ?_ rfl) ?_ rfl)
    ?_ rfl
  · exact calm_honest (.inl rfl)
  · exact calm_honest (.inl rfl)
  · exact calm_honest (.inl rfl)
  · exact calm_honest (.inr (by simp))
  · exact calm_honest (.inr (by simp))
  · exact calm_honest (.inr (by simp))

private def bothIndex : Index :=
  (Index.decode (bothPaths.world.files .index)).toOption.getD Index.empty

set_option maxRecDepth 8000 in
private theorem bothIndex_decode :
    Index.decode (bothPaths.world.files .index) = .ok bothIndex := by
  rfl

set_option maxRecDepth 8000 in
private theorem bothIndex_heads : (bothIndex.head "photos" "a").toBool = true ∧
    (bothIndex.head "photos" "b").toBool = true := by
  decide

theorem etag_eq_iff_bytes_eq_bothPaths :
    ∃ m m' bytes bytes', bothIndex.head "photos" "a" = .ok m ∧
      bothIndex.head "photos" "b" = .ok m' ∧
      CeRs.plain.readObject bothPaths.world m.cid = some bytes ∧
      CeRs.plain.readObject bothPaths.world m'.cid = some bytes' ∧
      (m.etag = m'.etag ↔ bytes = bytes') := by
  obtain ⟨ha, hb⟩ := bothIndex_heads
  cases hm : bothIndex.head "photos" "a" with
  | error e =>
    rw [hm] at ha
    exact nomatch ha
  | ok m =>
    cases hm' : bothIndex.head "photos" "b" with
    | error e =>
      rw [hm'] at hb
      exact nomatch hb
    | ok m' =>
      have h := etag_eq_iff_bytes_eq CeRs.plain CeRs.plain_lawful World.blank
        blank_addressed blank_noUploads blank_noVersions bothPaths bothPaths_reach
      obtain ⟨bytes, bytes', hr, hr', heq, -⟩ := h.1 bothIndex bothIndex_decode m m'
        (Index.live_head hm) (Index.live_head hm')
      exact ⟨m, m', bytes, bytes', rfl, rfl, hr, hr', heq⟩

end CeStorage
