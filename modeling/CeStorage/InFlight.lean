import CeStorage.Crashes
import CeStorage.Store.Records

/-!
# What the multipart state holds

The records of in-flight uploads, as every method leaves them: no more than the
cap, each with a key and metadata that a put would accept and the one chunk size,
its parts numbered from 1 to 10,000 under their own numbers, none of them empty,
each with the chunk list of some bytes that were sent for it (`Upload.Sound`).

One call keeps this, whatever its environment answers (`exec_sound`), so calls one
after another do; and the files of a run with crashes are those of calls one after
another (`Crashes`).
-/

namespace CeStorage

open Lib FileLock
open Std (ExtTreeMap)

variable {P : Type} [DecidableEq P] {ce : CeRs} {env : Env} {s : Store} {w : World} {id : String}

/-- What a part of an upload is like that is recorded under `n`. -/
structure Part.Sound (ce : CeRs) (n : Nat) (p : Part) : Prop where
  numbered : 1 ≤ n ∧ n ≤ maxParts
  cut : ∃ bytes etag, bytes ≠ [] ∧
    p = newPart (ce.chunkObject bytes ce.defaultChunkSize).1 n etag bytes

/-- What a record in flight is like. -/
structure Upload.Sound (ce : CeRs) (u : Upload) : Prop where
  key : validKey u.key = .ok ()
  metadata : validateUserMetadata u.metadata = .ok ()
  contentType : u.contentType ≠ ""
  partChunk : u.partChunk = ce.defaultChunkSize
  part : ∀ (n : Nat) (p : Part), u.parts[n]? = some p → p.Sound ce n

/-- What the multipart state is like. -/
structure MultipartState.Sound (ce : CeRs) (st : MultipartState) : Prop where
  schema : st.schema ≤ multipartSchema
  few : st.uploads.size ≤ maxInflightUploads
  upload : ∀ (id : String) (u : Upload), st.uploads[id]? = some u → u.Sound ce

/-- The multipart file can be loaded, and what is in it is sound. -/
def World.SoundUploads (ce : CeRs) (w : World) : Prop :=
  ∃ st, MultipartState.decode (w.files .multipart) = .ok st ∧ st.Sound ce

theorem blank_soundUploads : World.blank.SoundUploads ce :=
  ⟨MultipartState.empty, rfl, Nat.le_refl _, Nat.zero_le _, fun _ _ h => nomatch h⟩

theorem World.SoundUploads.congr {v : World} (h : w.SoundUploads ce)
    (hf : v.files .multipart = w.files .multipart) : v.SoundUploads ce := by
  obtain ⟨st, hst, hs⟩ := h
  exact ⟨st, (congrArg MultipartState.decode hf).trans hst, hs⟩

/-! ## One call -/

/-- An upload is only begun for a key and metadata that a put would accept. -/
theorem created_checked {b k : String} {opts : PutOptions} {v : Value}
    (h : ((StoreCall.createMultipartUpload b k opts).exec ce env s w).1.1 = .ok v) :
    validKey k = .ok () ∧ validateUserMetadata opts.metadata = .ok () := by
  have hcheck : createCheck k opts = .ok () := by
    rcases (StoreCall.createMultipartUpload b k opts).exec_cases ce env s w with ⟨⟨e, he⟩, -⟩ | hx
    · exact nomatch h.symm.trans he
    · rw [hx] at h
      have hrun : exec ce env (Store.createMultipartUpload ce b k opts).prog s w = _ :=
        exec_createMultipartUpload b k opts
      cases hc : createCheck k opts with
      | ok u => rfl
      | error e =>
        rw [hc] at hrun
        dsimp only [StoreCall.op, Op.storage] at h
        rw [exec_into, hrun] at h
        exact nomatch h
  unfold createCheck at hcheck
  split at hcheck
  · exact nomatch hcheck
  next hk =>
    refine ⟨hk, ?_⟩
    cases hm : validateUserMetadata opts.metadata with
    | ok u => rfl
    | error e =>
      rw [hm] at hcheck
      exact nomatch hcheck

theorem newUpload_sound {b k : String} {opts : PutOptions} (now : Nat)
    (hk : validKey k = .ok ()) (hm : validateUserMetadata opts.metadata = .ok ()) :
    (newUpload ce b k opts now).Sound ce where
  key := hk
  metadata := hm
  contentType := by
    show opts.recordedType ≠ ""
    unfold PutOptions.recordedType
    split
    next => decide
    next h =>
      intro he
      rw [he] at h
      exact h rfl
  partChunk := rfl
  part n p h := nomatch h

theorem MultipartState.Sound.create {st st' : MultipartState} {u : Upload} (h : st.Sound ce)
    (hc : st.create id u = .ok st') (hu : u.Sound ce) : st'.Sound ce := by
  obtain ⟨huploads, hschema⟩ := create_uploads hc
  refine ⟨hschema ▸ h.schema, ?_, ?_⟩
  · -- a new record, below the cap, or one that is replaced
    rw [huploads, ExtTreeMap.size_insert]
    unfold MultipartState.create at hc
    split at hc
    · exact nomatch hc
    next hcap =>
      have hfew := h.few
      split
      next => exact hfew
      next hnot =>
        have hlt : ¬maxInflightUploads ≤ st.uploads.size := by
          intro hle
          refine hcap ⟨hle, ?_⟩
          rw [Bool.not_eq_true] at hnot
          rw [hnot]
          rfl
        omega
  · intro id' u' hu'
    rw [huploads, get_insert] at hu'
    split at hu'
    · cases hu'
      exact hu
    · exact h.upload id' u' hu'

theorem MultipartState.Sound.remove {st : MultipartState} (h : st.Sound ce) (id : String) :
    (st.remove id).Sound ce where
  schema := h.schema
  few := Nat.le_trans ExtTreeMap.size_erase_le h.few
  upload id' u hu := by
    have hu' : (st.uploads.erase id)[id']? = some u := hu
    rw [get_erase] at hu'
    split at hu'
    · exact nomatch hu'
    · exact h.upload id' u hu'

theorem MultipartState.Sound.putPart {st st' : MultipartState} {n : Nat} {bytes : Bytes}
    {etag : String} (h : st.Sound ce)
    (hp : st.putPart id (newPart (ce.chunkObject bytes ce.defaultChunkSize).1 n etag bytes)
      = .ok st') : st'.Sound ce := by
  obtain ⟨u, hu, hschema, huploads⟩ := putPart_uploads hp
  have hnumber : (1 ≤ n ∧ n ≤ maxParts) ∧ bytes ≠ [] := by
    unfold MultipartState.putPart at hp
    split at hp
    · exact nomatch hp
    next hn =>
      split at hp
      · exact nomatch hp
      next hsize =>
        have hn' : ¬(n = 0 ∨ maxParts < n) := hn
        refine ⟨by omega, ?_⟩
        rintro rfl
        exact hsize rfl
  refine ⟨hschema ▸ h.schema, ?_, ?_⟩
  · rw [huploads, ExtTreeMap.size_insert, if_pos]
    · exact h.few
    · rw [ExtTreeMap.contains_eq_isSome_getElem?, hu]
      rfl
  · intro id' u' hu'
    rw [huploads, get_insert] at hu'
    split at hu'
    · cases hu'
      have hold := h.upload id u hu
      refine { hold with part := ?_ }
      intro m p hm
      have hm' : (u.parts.insert n _)[m]? = some p := hm
      rw [get_insert] at hm'
      split at hm'
      next hnm =>
        cases hm'
        rw [← hnm]
        exact ⟨hnumber.1, bytes, etag, hnumber.2, rfl⟩
      next => exact hold.part m p hm'
    · exact h.upload id' u' hu'

/-- One call keeps the multipart state sound, whatever the environment answers. -/
theorem exec_sound (ce : CeRs) (env : Env) (c : StoreCall) (s : Store)
    (h : w.SoundUploads ce) : (c.exec ce env s w).2.SoundUploads ce := by
  obtain ⟨st, hst, hs⟩ := h
  have same : (c.exec ce env s w).2.files .multipart = w.files .multipart →
      (c.exec ce env s w).2.SoundUploads ce :=
    fun hf => World.SoundUploads.congr ⟨st, hst, hs⟩ hf
  have saved : ∀ st', (c.exec ce env s w).2.files
      = Function.update w.files .multipart (some (.multipart st')) → st'.Sound ce →
      st'.schema = st.schema → (c.exec ce env s w).2.SoundUploads ce := by
    intro st' hf hs' hschema
    refine ⟨st', ?_, hs'⟩
    rw [hf, Function.update_self]
    exact MultipartState.decode_kept hst hschema
  rcases c.plan_cases ce env with ⟨d, hd⟩ | ⟨b, k, opts, rfl⟩ | ⟨id, n, bytes, rfl⟩ |
    ⟨id, parts, rfl⟩ | ⟨id, rfl⟩
  · rcases indexCall_cases hd s w with ⟨hf, -⟩ | ⟨i, j, a, -, -, -, -, hf, -⟩
    · exact same (congrFun hf _)
    · exact same (congrFun hf _)
  · rcases createMultipartUpload_cases ce env b k opts s w with
      ⟨-, hf⟩ | ⟨st₀, st', hst₀, hc, hr, hf⟩
    · exact same (congrFun hf _)
    · cases hst.symm.trans hst₀
      obtain ⟨hk, hm⟩ := created_checked hr
      exact saved st' hf (hs.create hc (newUpload_sound env.now hk hm)) (create_uploads hc).2
  · rcases uploadPart_outcomes ce env id n bytes s w with
      ⟨-, hf⟩ | ⟨st₀, st', etag, hkept, -, hf, -⟩
    · exact same (congrFun hf _)
    · cases hst.symm.trans hkept.loaded
      obtain ⟨-, -, hschema, -⟩ := putPart_uploads hkept.recorded
      exact saved st' hf (hs.putPart hkept.recorded) hschema
  · rcases completeMultipartUpload_cases ce env id parts s w with
      ⟨-, hf⟩ | ⟨st₀, u, manifest, cid, i, j, hass, -, ⟨-, hf⟩ | ⟨-, hf⟩⟩
    · exact same (congrFun hf _)
    · exact same (congrFun hf _)
    · cases hst.symm.trans hass.loaded
      refine ⟨st.remove id, ?_, hs.remove id⟩
      rw [hf, Function.update_self]
      exact MultipartState.decode_kept hst rfl
  · rcases abortMultipartUpload_cases ce env id s w with ⟨-, hf⟩ | ⟨st₀, hst₀, -, hf⟩
    · exact same (congrFun hf _)
    · cases hst.symm.trans hst₀
      exact saved _ hf (hs.remove id) rfl

/-! ## Runs -/

private def partSent : List (GuardedEvent (Fin 2) Request) :=
  [.begin early (.makeBucket "photos", Env.calm CeRs.plain 1 "") true, .lock (.create early),
    .enter early true] ++ List.replicate 7 (.call early) ++ [.leave early, .drop early true,
    .begin early (.createMultipartUpload "photos" "a" {}, Env.calm CeRs.plain 2 "u") true,
    .lock (.create early), .enter early true] ++ List.replicate 9 (.call early)
    ++ [.leave early, .drop early true,
    .begin early (.uploadPart "u" 1 [1, 2, 3], Env.calm CeRs.plain 3 "") true,
    .lock (.create early), .enter early true] ++ List.replicate 9 (.call early)
    ++ [.leave early, .drop early true,
    .begin early (.uploadPart "u" 2 [4], Env.calm CeRs.plain 4 "") true, .lock (.create early),
    .enter early true] ++ List.replicate 6 (.call early) ++ [.crash early]

end CeStorage
