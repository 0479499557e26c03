import CeStorage.Store.Outcomes

/-!
# What a call does to the records of uploads

The counterpart of `index_cases` for the other file: a call leaves the multipart
state alone, or saves what `StoreCall.Records` says it makes of the records it
loaded (`multipart_cases`). Only the record that the call is about changes, and a
part sent to an upload leaves its target as it is.
-/

namespace CeStorage

open Lib
open Std (ExtTreeMap)

variable {ce : CeRs} {env : Env} {s : Store} {w : World}

/-- The record of an upload, if it is in flight. -/
def World.inFlight (w : World) (id : String) : Option Upload :=
  match MultipartState.decode (w.files .multipart) with
  | .ok st => st.uploads[id]?
  | .error _ => none

/-- The bucket and key an upload is for. -/
def Upload.target (u : Upload) : String × String := (u.bucket, u.key)

/-- The record of an upload after part `n` was sent. -/
def Upload.withPart (u : Upload) (n : Nat) (p : Part) : Upload :=
  { u with parts := u.parts.insert n p }

namespace StoreCall

/-- The upload a call is about. -/
def about (env : Env) : StoreCall → Option String
  | createMultipartUpload .. => some env.uploadId
  | uploadPart id .. | completeMultipartUpload id _ | abortMultipartUpload id => some id
  | _ => none

/-- What a call makes of the records it loads, if it saves any. -/
def Records (ce : CeRs) (env : Env) : StoreCall → MultipartState → MultipartState → Prop
  | createMultipartUpload b k opts, st, st' =>
    st.create env.uploadId (newUpload ce b k opts env.now) = .ok st'
  | uploadPart id _ _, st, st' => ∃ p, st.putPart id p = .ok st'
  | completeMultipartUpload id _, st, st' | abortMultipartUpload id, st, st' =>
    st' = st.remove id
  | _, _, _ => False

end StoreCall

theorem create_uploads {st st' : MultipartState} {id : String} {u : Upload}
    (h : st.create id u = .ok st') :
    st'.uploads = st.uploads.insert id u ∧ st'.schema = st.schema := by
  unfold MultipartState.create at h
  split at h
  · exact nomatch h
  · cases h
    exact ⟨rfl, rfl⟩

theorem putPart_uploads {st st' : MultipartState} {id : String} {p : Part}
    (h : st.putPart id p = .ok st') :
    ∃ u, st.uploads[id]? = some u ∧ st'.schema = st.schema ∧
      st'.uploads = st.uploads.insert id (u.withPart p.partNumber p) := by
  unfold MultipartState.putPart MultipartState.get at h
  cases hu : st.uploads[id]? with
  | none => grind [Except.map]
  | some u =>
    rw [hu] at h
    split at h
    · exact nomatch h
    · split at h
      · exact nomatch h
      · cases h
        exact ⟨u, rfl, rfl, rfl⟩

/-- A call leaves the multipart file alone, or saves its records. -/
theorem multipart_cases (ce : CeRs) (env : Env) (c : StoreCall) (s : Store) (w : World) :
    let r := c.exec ce env s w
    r.2.files .multipart = w.files .multipart ∨
      ∃ st st', MultipartState.decode (w.files .multipart) = .ok st ∧
        MultipartState.decode (r.2.files .multipart) = .ok st' ∧ c.Records ce env st st' := by
  dsimp only
  rcases c.plan_cases ce env with ⟨d, hd⟩ | ⟨b, k, opts, rfl⟩ | ⟨id, n, bytes, rfl⟩ |
    ⟨id, parts, rfl⟩ | ⟨id, rfl⟩
  · rcases indexCall_cases hd s w with ⟨hf, -⟩ | ⟨i, j, a, -, -, -, -, hf, -⟩
    · exact .inl (by rw [hf])
    · exact .inl (by rw [hf]; rfl)
  · rcases createMultipartUpload_cases ce env b k opts s w with ⟨-, hf⟩ | ⟨st, st', hst, hc, -, hf⟩
    · exact .inl (by rw [hf])
    · obtain ⟨-, hschema⟩ := create_uploads hc
      refine .inr ⟨st, st', hst, ?_, hc⟩
      rw [hf]
      exact MultipartState.decode_kept hst hschema
  · rcases uploadPart_outcomes ce env id n bytes s w with
      ⟨-, hf⟩ | ⟨st, st', etag, hkept, -, hf, -⟩
    · exact .inl (by rw [hf])
    · obtain ⟨-, -, hschema, -⟩ := putPart_uploads hkept.recorded
      refine .inr ⟨st, st', hkept.loaded, ?_, ⟨_, hkept.recorded⟩⟩
      rw [hf]
      exact MultipartState.decode_kept hkept.loaded hschema
  · rcases completeMultipartUpload_cases ce env id parts s w with
      ⟨-, hf⟩ | ⟨st, u, manifest, cid, i, j, hass, -, ⟨-, hf⟩ | ⟨-, hf⟩⟩
    · exact .inl (by rw [hf])
    · exact .inl (by rw [hf]; rfl)
    · refine .inr ⟨st, st.remove id, hass.loaded, ?_, rfl⟩
      rw [hf]
      exact MultipartState.decode_kept hass.loaded rfl
  · rcases abortMultipartUpload_cases ce env id s w with ⟨-, hf⟩ | ⟨st, hst, -, hf⟩
    · exact .inl (by rw [hf])
    · refine .inr ⟨st, st.remove id, hst, ?_, rfl⟩
      rw [hf]
      exact MultipartState.decode_kept hst rfl

/-! ## Which records change -/

theorem inFlight_of_decode {st : MultipartState} (id : String)
    (h : MultipartState.decode (w.files .multipart) = .ok st) : w.inFlight id = st.uploads[id]? := by
  unfold World.inFlight
  rw [h]

theorem inFlight_of_files {w' : World} (id : String)
    (h : w'.files .multipart = w.files .multipart) : w'.inFlight id = w.inFlight id := by
  unfold World.inFlight
  rw [h]

theorem records_other {c : StoreCall} {st st' : MultipartState} {id : String}
    (h : c.Records ce env st st') (hid : c.about env ≠ some id) :
    st'.uploads[id]? = st.uploads[id]? := by
  cases c with
  | createMultipartUpload b k opts =>
    have hne : env.uploadId ≠ id := fun e => hid (congrArg some e)
    rw [(create_uploads h).1, get_insert_ne hne]
  | uploadPart id' n bytes =>
    have hne : id' ≠ id := fun e => hid (congrArg some e)
    obtain ⟨p, hp⟩ := h
    obtain ⟨u, -, -, hus⟩ := putPart_uploads hp
    rw [hus, get_insert_ne hne]
  | completeMultipartUpload id' parts =>
    have hne : id' ≠ id := fun e => hid (congrArg some e)
    rw [show st' = st.remove id' from h]
    exact get_erase_ne hne
  | abortMultipartUpload id' =>
    have hne : id' ≠ id := fun e => hid (congrArg some e)
    rw [show st' = st.remove id' from h]
    exact get_erase_ne hne
  | _ => exact h.elim

/-- **A call changes no record but the one it is about.** -/
theorem inFlight_other (c : StoreCall) (s : Store) {id : String}
    (hid : c.about env ≠ some id) : (c.exec ce env s w).2.inFlight id = w.inFlight id := by
  rcases multipart_cases ce env c s w with hf | ⟨st, st', hst, hst', hr⟩
  · exact inFlight_of_files id hf
  · rw [inFlight_of_decode id hst, inFlight_of_decode id hst']
    exact records_other hr hid

/-- A call that is about an upload in flight leaves its target as it is, as long
as it leaves the record at all. -/
theorem inFlight_target (c : StoreCall) (s : Store) {id : String} {u' : Upload}
    (hc : ∀ b k opts, c ≠ .createMultipartUpload b k opts)
    (h : (c.exec ce env s w).2.inFlight id = some u') :
    ∃ u, w.inFlight id = some u ∧ u'.target = u.target := by
  rcases multipart_cases ce env c s w with hf | ⟨st, st', hst, hst', hr⟩
  · rw [inFlight_of_files id hf] at h
    exact ⟨u', h, rfl⟩
  rw [inFlight_of_decode id hst'] at h
  rw [inFlight_of_decode id hst]
  by_cases hid : c.about env = some id
  · cases c with
    | createMultipartUpload b k opts => exact absurd rfl (hc b k opts)
    | uploadPart id' n bytes =>
      obtain rfl : id' = id := Option.some.inj hid
      obtain ⟨p, hp⟩ := hr
      obtain ⟨u, hu, -, hus⟩ := putPart_uploads hp
      rw [hus, get_insert_self] at h
      cases h
      exact ⟨u, hu, rfl⟩
    | completeMultipartUpload id' parts =>
      obtain rfl : id' = id := Option.some.inj hid
      rw [show st' = st.remove id' from hr] at h
      unfold MultipartState.remove at h
      dsimp only at h
      rw [get_erase_self] at h
      exact nomatch h
    | abortMultipartUpload id' =>
      obtain rfl : id' = id := Option.some.inj hid
      rw [show st' = st.remove id' from hr] at h
      unfold MultipartState.remove at h
      dsimp only at h
      rw [get_erase_self] at h
      exact nomatch h
    | _ => exact hr.elim
  · rw [records_other hr hid] at h
    exact ⟨u', h, rfl⟩

end CeStorage
