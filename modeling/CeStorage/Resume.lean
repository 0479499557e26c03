import CeStorage.InFlight
import CeStorage.Uploads

/-!
# Resuming an upload

A client that lost its notes asks `listParts` which parts of its upload are
there, and completes the upload with their numbers and etags. This module says
when that works, for a record as the calls leave it (`Upload.Completable`): what
was sent so far has to end on a chunk boundary after every part but the last, and
has to fit. What it makes is then everything that was sent, in order
(`resume_iff`).
-/

namespace CeStorage

open Lib
open Std (ExtTreeMap)

variable {ce : CeRs} {env : Env} {s : Store} {w : World} {id : String} {u : Upload}
  {st : MultipartState} {i : Index}

/-! ## Assembling all of an upload's own parts -/

theorem nat_toList_sorted {β : Type} (m : ExtTreeMap Nat β) :
    m.toList.Pairwise fun a b => a.1 < b.1 := by
  have h := m.ordered_keys_toList
  refine h.imp ?_
  intro a b hab
  exact Nat.compare_eq_lt.mp hab

/-- The list a client completes an upload with that goes by the record alone. -/
def requestOf (parts : List (Nat × Part)) : List (Nat × String) :=
  parts.map fun q => (q.1, q.2.etag)

def totalOf (parts : List (Nat × Part)) : Nat := (parts.map fun q => q.2.size).sum

/-- All parts but the last are whole chunks. -/
def Aligned (u : Upload) (parts : List (Nat × Part)) : Prop :=
  ∀ q ∈ parts.dropLast, q.2.size % u.partChunk = 0

instance (u : Upload) (parts : List (Nat × Part)) : Decidable (Aligned u parts) :=
  inferInstanceAs (Decidable (∀ q ∈ parts.dropLast, _))

/-- Parts of an upload, by number, all after `last`. -/
structure OwnParts (u : Upload) (last : Nat) (parts : List (Nat × Part)) : Prop where
  own : ∀ q ∈ parts, u.parts[q.1]? = some q.2
  after : ∀ q ∈ parts, last < q.1
  sorted : parts.Pairwise fun a b => a.1 < b.1

theorem OwnParts.tail {last : Nat} {q : Nat × Part} {parts : List (Nat × Part)}
    (h : OwnParts u last (q :: parts)) : OwnParts u q.1 parts where
  own p hp := h.own p (List.mem_cons_of_mem q hp)
  after := (List.pairwise_cons.mp h.sorted).1
  sorted := (List.pairwise_cons.mp h.sorted).2

theorem aligned_cons {q : Nat × Part} {parts : List (Nat × Part)} :
    Aligned u (q :: parts) ↔ (parts ≠ [] → q.2.size % u.partChunk = 0) ∧ Aligned u parts := by
  unfold Aligned
  cases parts with
  | nil => simp
  | cons p parts => simp

/-- The loop splices an upload's own parts if they are aligned and their sizes can
be added up; it fails otherwise. -/
theorem assembleParts_own (parts : List (Nat × Part)) {last total : Nat} (cids : List String)
    (h : OwnParts u last parts) (htotal : total < 2 ^ 64) :
    (Aligned u parts ∧ total + totalOf parts < 2 ^ 64 →
      assembleParts u (requestOf parts) last total cids
        = .ok (total + totalOf parts, cids ++ parts.flatMap (·.2.chunkCids))) ∧
    (¬(Aligned u parts ∧ total + totalOf parts < 2 ^ 64) →
      ∃ e, assembleParts u (requestOf parts) last total cids = .error e) := by
  induction parts generalizing last total cids with
  | nil =>
    constructor
    · intro _
      show Except.ok (total, cids) = Except.ok (total + 0, cids ++ [])
      rw [List.append_nil, Nat.add_zero]
    · intro hn
      refine absurd ⟨?_, htotal⟩ hn
      intro q hq
      exact nomatch hq
  | cons q parts ih =>
    have hlast : ¬q.1 ≤ last := Nat.not_le_of_lt (h.after q List.mem_cons_self)
    have hrest : requestOf parts ≠ [] ↔ parts ≠ [] := by
      unfold requestOf
      rw [ne_eq, List.map_eq_nil_iff]
    have hsum : totalOf (q :: parts) = q.2.size + totalOf parts := List.sum_cons
    have hstep : assembleParts u (requestOf (q :: parts)) last total cids
        = if parts ≠ [] ∧ q.2.size % u.partChunk ≠ 0 then
            .error s!"part {q.1} size {q.2.size} is not a multiple of the part chunk size {u.partChunk} (only the final part may be short)"
          else if 2 ^ 64 ≤ total + q.2.size then .error "assembled object size overflow"
          else assembleParts u (requestOf parts) q.1 (total + q.2.size)
            (cids ++ q.2.chunkCids) := by
      show assembleParts u ((q.1, q.2.etag) :: requestOf parts) last total cids = _
      rw [assembleParts]
      rw [if_neg hlast, h.own q List.mem_cons_self]
      dsimp only
      rw [if_neg (not_not_intro rfl)]
      simp only [hrest]
    rw [hstep, hsum, aligned_cons]
    by_cases halign : parts ≠ [] ∧ q.2.size % u.partChunk ≠ 0
    · rw [if_pos halign]
      refine ⟨fun hall => absurd (hall.1.1 halign.1) halign.2, fun _ => ⟨_, rfl⟩⟩
    · rw [if_neg halign]
      by_cases hover : 2 ^ 64 ≤ total + q.2.size
      · rw [if_pos hover]
        refine ⟨fun hall => ?_, fun _ => ⟨_, rfl⟩⟩
        have := hall.2
        omega
      · rw [if_neg hover]
        obtain ⟨hok, herror⟩ := ih (cids ++ q.2.chunkCids) h.tail
          (Nat.lt_of_not_le hover)
        rw [← Nat.add_assoc]
        constructor
        · rintro ⟨⟨-, hrest⟩, hfits⟩
          rw [hok ⟨hrest, hfits⟩, List.flatMap_cons, List.append_assoc]
        · intro hn
          refine herror fun hall => hn ⟨⟨?_, hall.1⟩, hall.2⟩
          intro hne
          exact not_not.mp fun hsize => halign ⟨hne, hsize⟩

/-- Numbers from 1 to `n`, each larger than the one before, are no more than `n`. -/
theorem length_le_of_sorted {n : Nat} {l : List Nat} (hs : l.Pairwise (· < ·))
    (h : ∀ a ∈ l, 1 ≤ a ∧ a ≤ n) : l.length ≤ n := by
  have hsub : l ⊆ List.range' 1 n := by
    intro a ha
    obtain ⟨h1, hn⟩ := h a ha
    rw [List.mem_range'_1]
    omega
  have hlen := (List.subperm_of_subset (hs.imp Nat.ne_of_lt) hsub).length_le
  rwa [List.length_range'] at hlen

/-- The parts of a sound record, as `listParts` answers them. -/
theorem Upload.Sound.own (h : u.Sound ce) : OwnParts u 0 u.parts.toList where
  own _ hq := ExtTreeMap.mem_toList_iff_getElem?_eq_some.mp hq
  after _ hq := (h.part _ _ (ExtTreeMap.mem_toList_iff_getElem?_eq_some.mp hq)).numbered.1
  sorted := nat_toList_sorted u.parts

theorem Upload.Sound.length_le (h : u.Sound ce) : u.parts.toList.length ≤ maxParts := by
  have hlen : (u.parts.toList.map (·.1)).length ≤ maxParts := by
    refine length_le_of_sorted ((nat_toList_sorted u.parts).map _ fun _ _ h => h) ?_
    intro n hn
    obtain ⟨q, hq, rfl⟩ := List.mem_map.mp hn
    exact (h.part q.1 q.2 (ExtTreeMap.mem_toList_iff_getElem?_eq_some.mp hq)).numbered
  rwa [List.length_map] at hlen

/-- The parts of a record are listed under their own numbers. -/
theorem Upload.Sound.number (h : u.Sound ce) : ∀ q ∈ u.parts.toList, q.2.partNumber = q.1 := by
  intro q hq
  obtain ⟨bytes, etag, -, hp⟩ :=
    (h.part q.1 q.2 (ExtTreeMap.mem_toList_iff_getElem?_eq_some.mp hq)).cut
  rw [hp]
  rfl

theorem Upload.Sound.numbers (h : u.Sound ce) :
    (u.parts.toList.map (·.2)).map (·.partNumber) = u.parts.toList.map (·.1) := by
  rw [List.map_map]
  exact List.map_congr_left h.number

theorem Upload.Sound.request (h : u.Sound ce) :
    (u.parts.toList.map (·.2)).map (fun p => (p.partNumber, p.etag))
      = requestOf u.parts.toList := by
  unfold requestOf
  rw [List.map_map]
  exact List.map_congr_left fun q hq => congrArg (·, q.2.etag) (h.number q hq)

/-! ## Completing in an environment in which nothing fails -/

/-- Nothing fails: the lock is free, the files can be read and saved, and the blob
store takes what it is given. -/
structure Env.Works (env : Env) : Prop where
  lock : env.lock = .ok ()
  reads : ∀ f, env.readFails f = false
  saves : ∀ f, env.saveFails f = none
  putObject : ∀ bytes, ∃ cid, env.putObject bytes = .ok cid
  putBlob : ∀ n bytes, ∃ cid, env.putBlob n bytes = .ok cid

theorem calm_works (now : Nat) (id : String) : (Env.calm ce now id).Works where
  lock := rfl
  reads _ := rfl
  saves _ := rfl
  putObject _ := ⟨_, rfl⟩
  putBlob _ _ := ⟨_, rfl⟩

theorem Env.Works.loadMultipart (h : env.Works)
    (hst : MultipartState.decode (w.files .multipart) = .ok st) :
    env.loadMultipart w = .ok st := by
  unfold Env.loadMultipart
  rw [if_neg (ne_true_of_eq_false (h.reads .multipart)), hst]

theorem Env.Works.loadIndex (h : env.Works) (hi : Index.decode (w.files .index) = .ok i) :
    env.loadIndex w = .ok i := by
  unfold Env.loadIndex
  rw [if_neg (ne_true_of_eq_false (h.reads .index)), hi]

/-- With the lock free, a call is its program. -/
theorem StoreCall.exec_free (c : StoreCall) (h : env.lock = .ok ()) :
    c.exec ce env s w = CeStorage.exec ce env (c.op ce s).prog s w := by
  unfold StoreCall.exec Op.exec
  cases c.op ce s with
  | refused e => rfl
  | locked busy body =>
    dsimp only
    rw [h]
    rfl

theorem bindUpload_eq_ok {m : ObjectMeta} (hk : validKey u.key = .ok ())
    (hm : validateUserMetadata m.metadata = .ok ()) :
    (∃ j, bindUpload u m i = .ok j) ↔ i.buckets.contains u.bucket = true := by
  unfold bindUpload
  by_cases hb : i.buckets.contains u.bucket = true
  · rw [if_pos hb, hm]
    have hput := Index.put_ok hb hk hm
    rcases hp : i.put u.bucket u.key m with ⟨e | _, j⟩
    · rw [hp] at hput
      exact nomatch hput
    · exact ⟨fun _ => hb, fun _ => ⟨j, rfl⟩⟩
  · rw [if_neg hb]
    refine ⟨?_, fun h => absurd h hb⟩
    rintro ⟨j, hj⟩
    exact nomatch hj

/-- Where nothing fails, a completion of a sound record succeeds if its parts can
be assembled into an object of a legal size and the bucket is there. -/
theorem complete_ok_iff (hworks : env.Works) {parts : List (Nat × String)}
    (hst : MultipartState.decode (w.files .multipart) = .ok st) (hu : st.uploads[id]? = some u)
    (hsound : u.Sound ce) (hi : Index.decode (w.files .index) = .ok i) :
    (∃ m, ((StoreCall.completeMultipartUpload id parts).exec ce env s w).1.1 = .ok (.object m)) ↔
      ∃ manifest, assembleManifest ce u parts = .ok manifest ∧
        manifest.totalSize ≤ s.maxObjectSize ∧ i.buckets.contains u.bucket = true := by
  have hget : st.get id = .ok u := by
    unfold MultipartState.get
    rw [hu]
  rw [StoreCall.exec_free _ hworks.lock]
  show (∃ m, (exec ce env ((Store.completeMultipartUpload ce id parts).into _ _).prog s w).1.1
    = _) ↔ _
  rw [exec_into, exec_completeMultipartUpload, hworks.loadMultipart hst]
  dsimp only
  unfold Env.complete
  rw [hget]
  dsimp only
  cases hass : assembleManifest ce u parts with
  | error e =>
    constructor
    · rintro ⟨m, hm⟩
      exact nomatch hm
    · rintro ⟨manifest, hm, -⟩
      exact nomatch hm
  | ok manifest =>
    dsimp only
    by_cases hsize : manifest.totalSize ≤ s.maxObjectSize
    · obtain ⟨cid, hcid⟩ := hworks.putBlob 0 (ce.manifestJson manifest)
      rw [if_pos hsize, hcid]
      dsimp only
      unfold Env.bindManifest
      rw [hworks.loadIndex (w := w.setBlob cid (ce.manifestJson manifest)) hi]
      dsimp only
      have hbind := bindUpload_eq_ok (i := i)
        (m := completeMeta u manifest cid env.now) hsound.key hsound.metadata
      cases hb : bindUpload u (completeMeta u manifest cid env.now) i with
      | error e =>
        rw [hb] at hbind
        constructor
        · rintro ⟨m, hm⟩
          exact nomatch hm
        · rintro ⟨_, -, -, hyes⟩
          obtain ⟨j, hj⟩ := hbind.mpr hyes
          exact nomatch hj
      | ok j =>
        have hyes : i.buckets.contains u.bucket = true := hbind.mp ⟨j, hb⟩
        rw [hworks.saves .index]
        dsimp only
        unfold Env.commitUploads
        rw [hworks.saves .multipart]
        refine ⟨fun _ => ⟨manifest, rfl, hsize, hyes⟩, fun _ => ⟨_, rfl⟩⟩
    · rw [if_neg hsize]
      constructor
      · rintro ⟨m, hm⟩
        exact nomatch hm
      · rintro ⟨manifest', hm, hle, -⟩
        cases hm
        exact absurd hle hsize

/-! ## What was sent is recorded -/

/-- Each part that was sent is in the record of its upload, as long as the upload
is in flight. -/
structure SentInv (x : Ledger) : Prop where
  target : ∀ id n, lastSent x.log id n ≠ none → targetOf x.log id ≠ none
  recorded : ∀ (id : String) (n : Nat) (u : Upload), lastSent x.log id n ≠ none →
    x.upload id = some u → u.parts[n]? ≠ none

theorem start_sentInv (w : World) : SentInv (Ledger.start w) :=
  ⟨fun _ _ h => absurd rfl h, fun _ _ _ h => absurd rfl h⟩

theorem lastSent_snoc_ne_none {log : List (StoreCall × Except Failure Value)}
    {d : StoreCall × Except Failure Value} {n : Nat} (h : lastSent (log ++ [d]) id n ≠ none) :
    sends id n d ≠ none ∨ lastSent log id n ≠ none := by
  rw [lastSent_snoc] at h
  cases hd : sends id n d with
  | none =>
    rw [hd] at h
    exact .inr h
  | some bytes => exact .inl (by simp)

/-- What was sent for the records of a map is in them. -/
def SentIn (log : List (StoreCall × Except Failure Value)) (us : ExtTreeMap String Upload) : Prop :=
  ∀ (id : String) (n : Nat) (u : Upload), lastSent log id n ≠ none → us[id]? = some u →
    u.parts[n]? ≠ none

/-- A move records what it sends. -/
theorem moves_sent {x : Ledger} {w' : World} {c : StoreCall} {r : Except Failure Value}
    {us us' : ExtTreeMap String Upload} (hm : Moves ce env w' c r us us')
    (hfresh : ∀ b k opts, c = .createMultipartUpload b k opts →
      targetOf x.log env.uploadId = none)
    (htarget : ∀ id n, lastSent x.log id n ≠ none → targetOf x.log id ≠ none)
    (h : SentIn x.log us) : SentIn (x.log ++ [(c, r)]) us' := by
  intro id n u hsent hu
  cases hm with
  | create b k opts us =>
    have hold : lastSent x.log id n ≠ none :=
      (lastSent_snoc_ne_none hsent).resolve_left fun hn => hn rfl
    have hid : env.uploadId ≠ id := by
      rintro rfl
      exact htarget _ n hold (hfresh b k opts rfl)
    rw [get_insert_ne hid] at hu
    exact h id n u hold hu
  | upload id' n' bytes v us hv hst =>
    have hor := lastSent_snoc_ne_none hsent
    rw [sends_upload] at hor
    by_cases hid : id' = id
    · subst hid
      rw [get_insert_self] at hu
      cases hu
      show (v.parts.insert n' _)[n]? ≠ none
      rw [get_insert]
      by_cases hn : n' = n
      · rw [if_pos hn]
        simp
      · rw [if_neg hn]
        refine h id' n v (hor.resolve_left fun hs => hs ?_) hv
        exact if_neg fun hh => hn hh.2
    · rw [get_insert_ne hid] at hu
      refine h id n u (hor.resolve_left fun hs => hs ?_) hu
      exact if_neg fun hh => hid hh.1
  | complete id' parts m us =>
    rw [get_erase] at hu
    split at hu
    · exact nomatch hu
    · exact h id n u ((lastSent_snoc_ne_none hsent).resolve_left fun hn => hn rfl) hu
  | abort id' us =>
    rw [get_erase] at hu
    split at hu
    · exact nomatch hu
    · exact h id n u ((lastSent_snoc_ne_none hsent).resolve_left fun hn => hn rfl) hu

/-- A part is sent for an upload in flight. -/
theorem moves_in_flight {w' : World} {c : StoreCall} {r : Except Failure Value}
    {us us' : ExtTreeMap String Upload} {n : Nat} (hm : Moves ce env w' c r us us')
    (h : sends id n (c, r) ≠ none) : ∃ u, us[id]? = some u := by
  cases hm with
  | upload id' n' bytes v us hv hst =>
    rw [sends_upload] at h
    by_cases hid : id' = id ∧ n' = n
    · obtain ⟨rfl, -⟩ := hid
      exact ⟨v, hv⟩
    · exact absurd (if_neg hid) h
  | _ => exact absurd rfl h

/-- So parts are only sent for uploads that were created. -/
theorem after_sentTarget (hce : ce.Lawful) {x : Ledger} {e : Invocation} (hI : UploadInv ce x)
    (hS : SentInv x) (he : Honest ce x e) {n : Nat}
    (h : lastSent (x.after ce e).log id n ≠ none) : targetOf (x.after ce e).log id ≠ none := by
  refine targetOf_after ?_
  rcases lastSent_snoc_ne_none h with hsend | hold
  · rcases uploads_cases hce he.truthful hI.addressed e.call e.handle with
      ⟨-, hs, -⟩ | ⟨st, st', hst, -, hm⟩
    · exact absurd (hs id n) hsend
    · obtain ⟨u, hu⟩ := moves_in_flight hm hsend
      rw [(hI.record id u ((upload_of_decode hst id).trans hu)).target]
      exact Option.some_ne_none _
  · exact hS.target id n hold

/-- One call keeps the invariant. -/
theorem after_sentInv (hce : ce.Lawful) {x : Ledger} {e : Invocation} (hI : UploadInv ce x)
    (hS : SentInv x) (he : Honest ce x e) : SentInv (x.after ce e) := by
  refine ⟨fun id n => after_sentTarget hce hI hS he, ?_⟩
  rcases uploads_cases hce he.truthful hI.addressed e.call e.handle with
    ⟨hf, hs, -⟩ | ⟨st, st', hst, hst', hm⟩
  · intro id n u h hu
    rw [upload_of_files hf] at hu
    refine hS.recorded id n u ((lastSent_snoc_ne_none h).resolve_left fun hn => hn ?_) hu
    exact hs id n
  · intro id n u h hu
    refine moves_sent hm he.fresh hS.target ?_ id n u h ((upload_of_decode hst' id).symm.trans hu)
    intro id n u h hu
    exact hS.recorded id n u h ((upload_of_decode hst id).trans hu)

/-! ## Resuming -/

/-- When an upload can be completed from its record: there are parts, all but the
last of them whole chunks, they fit, and the bucket is there. -/
structure Upload.Completable (u : Upload) (i : Index) (max : Nat) : Prop where
  nonempty : u.parts.toList ≠ []
  aligned : Aligned u u.parts.toList
  fits : u.assembledSize < 2 ^ 64
  small : u.assembledSize ≤ max
  bucket : i.buckets.contains u.bucket = true

theorem Upload.Completable.manifest {max : Nat} (h : u.Sound ce) (hc : u.Completable i max) :
    assembleManifest ce u (requestOf u.parts.toList) = .ok
      { kind := ce.manifestKindV1, chunkSize := u.partChunk, totalSize := u.assembledSize
        chunks := u.parts.toList.flatMap (·.2.chunkCids) } := by
  have hlen : ¬maxParts < (requestOf u.parts.toList).length := by
    have := h.length_le
    unfold requestOf
    rw [List.length_map]
    omega
  have hne : ¬(requestOf u.parts.toList).isEmpty = true := by
    unfold requestOf
    rw [List.isEmpty_iff, List.map_eq_nil_iff]
    exact hc.nonempty
  have hfits : 0 + totalOf u.parts.toList < 2 ^ 64 := (Nat.zero_add _).symm ▸ hc.fits
  unfold assembleManifest
  rw [if_neg hne, if_neg hlen,
    (assembleParts_own _ [] h.own (by decide)).1 ⟨hc.aligned, hfits⟩, Nat.zero_add, List.nil_append]
  rfl

theorem completable_iff (h : u.Sound ce) {max : Nat} :
    (∃ manifest, assembleManifest ce u (requestOf u.parts.toList) = .ok manifest ∧
        manifest.totalSize ≤ max ∧ i.buckets.contains u.bucket = true) ↔ u.Completable i max := by
  constructor
  · rintro ⟨manifest, hman, hmax, hb⟩
    obtain ⟨r, hr, rfl⟩ := assembleManifest_eq_ok hman
    have hne : u.parts.toList ≠ [] := by
      intro hnil
      rw [hnil] at hman
      exact nomatch hman
    obtain ⟨hok, herror⟩ := assembleParts_own (u := u) _ [] h.own (show 0 < 2 ^ 64 by decide)
    have hall : Aligned u u.parts.toList ∧ 0 + totalOf u.parts.toList < 2 ^ 64 := by
      by_contra hn
      obtain ⟨e, he⟩ := herror hn
      exact nomatch hr.symm.trans he
    cases hr.symm.trans (hok hall)
    rw [Nat.zero_add] at hall hmax
    exact ⟨hne, hall.1, hall.2, hmax, hb⟩
  · intro hc
    exact ⟨_, hc.manifest h, hc.small, hc.bucket⟩

/-- The multipart state stays sound along calls one after another. -/
theorem reach_sound {w₀ : World} (hs : w₀.SoundUploads ce) {x : Ledger}
    (hx : Reach (Ledger.fire ce) (Honest ce) (Ledger.start w₀) x) : x.world.SoundUploads ce := by
  refine hx.inv (I := fun y => y.world.SoundUploads ce) hs fun y e y' _ hI _ hf => ?_
  cases hf
  exact exec_sound ce e.env e.call e.handle hI

theorem reach_sentInv (hce : ce.Lawful) {w₀ : World} (hw : Addressed ce w₀)
    (hnone : w₀.NoUploads) {x : Ledger}
    (hx : Reach (Ledger.fire ce) (Honest ce) (Ledger.start w₀) x) :
    UploadInv ce x ∧ SentInv x := by
  refine hx.inv (I := fun y => UploadInv ce y ∧ SentInv y)
    ⟨start_uploadInv hw hnone, start_sentInv w₀⟩ fun y e y' _ hI hok hf => ?_
  cases hf
  exact ⟨after_uploadInv hce hI.1 hok, after_sentInv hce hI.1 hI.2 hok⟩

theorem exec_listParts (hread : env.readFails .multipart = false)
    (hst : MultipartState.decode (w.files .multipart) = .ok st) (hu : st.uploads[id]? = some u) :
    exec ce env (Store.listParts id) s w = ((.ok (u.parts.toList.map (·.2)), s), w) := by
  unfold Store.listParts
  rw [exec_bind, exec_multipartLoad]
  unfold Env.loadMultipart
  rw [if_neg (ne_true_of_eq_false hread), hst]
  dsimp only
  unfold MultipartState.listParts MultipartState.get
  rw [hu]
  rfl

/-- What a completion of the listed parts of an upload did. -/
structure CompletedFrom (ce : CeRs) (x : Ledger) (id : String) (u : Upload) (ps : List Part)
    (e : Invocation) (m : ObjectMeta) : Prop where
  size : m.size = u.assembledSize
  read : ∃ (j : Index) (bss : List Bytes),
    ps.map (fun p => lastSent x.log id p.partNumber) = bss.map some ∧
    Index.decode ((x.after ce e).world.files .index) = .ok j ∧
    j.head u.bucket u.key = .ok m ∧
    ce.readObject (x.after ce e).world m.cid = some bss.flatten
  gone : (x.after ce e).upload id = none

/-- **An upload can be resumed from its record.** After any honest run, for an
upload in flight: a handle that can read gets the parts that were ever sent for
it, by number, from `listParts`. A completion with their numbers and etags, in an
environment in which nothing fails, succeeds if and only if the record is
completable; the object is then everything that was sent, in order. -/
theorem resume_iff (ce : CeRs) (hce : ce.Lawful) (w₀ : World) (hw : Addressed ce w₀)
    (hnone : w₀.NoUploads) (hs : w₀.SoundUploads ce) (x : Ledger)
    (hx : Reach (Ledger.fire ce) (Honest ce) (Ledger.start w₀) x) (id : String) (u : Upload)
    (hu : x.upload id = some u) (i : Index) (hi : Index.decode (x.world.files .index) = .ok i) :
    ∃ ps : List Part,
      (∀ (env : Env) (s : Store), env.readFails .multipart = false →
        exec ce env (Store.listParts id) s x.world = ((.ok ps, s), x.world)) ∧
      (ps.map (·.partNumber)).Pairwise (· < ·) ∧
      (∀ n, n ∈ ps.map (·.partNumber) ↔ lastSent x.log id n ≠ none) ∧
      ∀ e, Honest ce x e → e.env.Works →
        e.call = .completeMultipartUpload id (ps.map fun p => (p.partNumber, p.etag)) →
        ((∃ m, e.result ce x = .ok (.object m)) ↔
            u.Completable i e.handle.maxObjectSize) ∧
          ∀ m, e.result ce x = .ok (.object m) → CompletedFrom ce x id u ps e m := by
  obtain ⟨hI, hS⟩ := reach_sentInv hce hw hnone hx
  obtain ⟨st, hst, hsound⟩ := reach_sound hs hx
  have hfound : st.uploads[id]? = some u := (upload_of_decode hst id).symm.trans hu
  have hus : u.Sound ce := hsound.upload id u hfound
  have hrec : RecordOk ce x id u := hI.record id u hu
  refine ⟨u.parts.toList.map (·.2), fun env s hread => exec_listParts hread hst hfound, ?_, ?_, ?_⟩
  · rw [hus.numbers]
    exact (nat_toList_sorted u.parts).map _ fun _ _ h => h
  · intro n
    rw [hus.numbers, List.mem_map]
    constructor
    · rintro ⟨q, hq, rfl⟩
      obtain ⟨bytes, hsent, -⟩ :=
        hrec.parts.part q.1 q.2 (ExtTreeMap.mem_toList_iff_getElem?_eq_some.mp hq)
      rw [hsent]
      exact Option.some_ne_none _
    · intro hsent
      obtain ⟨p, hp⟩ := Option.ne_none_iff_exists'.mp (hS.recorded id n u hsent hu)
      exact ⟨(n, p), ExtTreeMap.mem_toList_iff_getElem?_eq_some.mpr hp, rfl⟩
  · intro e he hworks hcall
    constructor
    · unfold Invocation.result
      rw [hcall, hus.request, complete_ok_iff hworks hst hfound hus hi, completable_iff hus]
    · intro m hm
      obtain ⟨st', u', manifest, i', j, bss, hass, -, hbss, hv, hsize, hstored, hfiles⟩ :=
        hI.complete hce he hcall hm
      cases hst.symm.trans hass.loaded
      cases hfound.symm.trans hass.found
      cases hv
      have hdecode : MultipartState.decode ((x.after ce e).world.files .multipart)
          = .ok (st.remove id) := by
        rw [hfiles]
        exact MultipartState.decode_kept hst rfl
      refine ⟨?_, ⟨j, bss, ?_, ?_, Index.head_put hass.bound, hstored.read hce⟩, ?_⟩
      · show manifest.totalSize = u.assembledSize
        have hman := hass.assembled
        rw [hus.request] at hman
        have hc : u.Completable i e.handle.maxObjectSize := by
          rw [← completable_iff hus, ← complete_ok_iff hworks hst hfound hus hi, ← hus.request,
            ← hcall]
          exact ⟨_, hm⟩
        cases hman.symm.trans (hc.manifest hus)
        rfl
      · rwa [List.map_map] at hbss
      · rw [hfiles, Function.update_of_ne (by decide), Function.update_self]
        exact Index.decode_put hass.index hass.bound
      · rw [upload_of_decode hdecode]
        exact get_erase_self

/-! Two parts are sent, the second one twice; the client forgets all about it. -/

private def forgotten : Ledger :=
  [.calm 1 (.makeBucket "photos"), .calm 2 (.createMultipartUpload "photos" "a" {}),
    .calm 3 (.uploadPart "u" 1 [1, 2]), .calm 4 (.uploadPart "u" 2 [9]),
    .calm 5 (.uploadPart "u" 2 [3])].foldl (fun x e => x.after CeRs.plain e)
      (Ledger.start World.blank)

private theorem forgotten_reach :
    Reach (Ledger.fire CeRs.plain) (Honest CeRs.plain) (Ledger.start World.blank) forgotten := by
  refine .next (.next (.next (.next (.next .start ?_ rfl) ?_ rfl) ?_ rfl) ?_ rfl) ?_ rfl
  · exact calm_honest (.inl rfl)
  · exact calm_honest (.inl rfl)
  · exact calm_honest (.inr (by simp))
  · exact calm_honest (.inr (by simp))
  · exact calm_honest (.inr (by simp))

private def kept : Upload :=
  (forgotten.upload "u").getD (newUpload CeRs.plain "photos" "a" {} 2)

private def buckets : Index := ((Index.decode (forgotten.world.files .index)).toOption).getD .empty

private theorem kept_completable : kept.Completable buckets (Store.fresh 1).maxObjectSize where
  nonempty := by decide +kernel
  aligned := by decide +kernel
  fits := by decide +kernel
  small := by decide +kernel
  bucket := by decide +kernel

theorem resume_iff_forgotten : ∃ (ps : List Part) (e : Invocation) (m : ObjectMeta),
    e.call = .completeMultipartUpload "u" (ps.map fun p => (p.partNumber, p.etag)) ∧
      e.result CeRs.plain forgotten = .ok (.object m) ∧
      CompletedFrom CeRs.plain forgotten "u" kept ps e m := by
  obtain ⟨ps, -, -, -, h⟩ := resume_iff CeRs.plain CeRs.plain_lawful World.blank
    blank_addressed blank_noUploads blank_soundUploads forgotten forgotten_reach "u" kept
    (by decide +kernel) buckets (by decide +kernel)
  have hcall := h (.calm 6 (.completeMultipartUpload "u" (ps.map fun p => (p.partNumber, p.etag))))
    (calm_honest (.inr (by simp))) (calm_works 6 "u") rfl
  obtain ⟨m, hm⟩ := hcall.1.mpr kept_completable
  exact ⟨ps, _, m, rfl, hm, hcall.2 m hm⟩

end CeStorage
