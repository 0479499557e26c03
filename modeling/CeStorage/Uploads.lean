import CeStorage.Assemble
import CeStorage.Lib.Runs
import CeStorage.Store.Records

/-!
# Runs of calls, and what an upload holds

A `Ledger` is a world together with the calls made on it so far and their
results. Runs are over all fifteen mutating calls, from any handles and with any
failures; what is asked of them (`Honest`) is that the blob store is
content-addressed and that upload ids are not handed out twice.

The log of a run says what a client knows: the target an upload was created for
(`targetOf`) and the bytes last sent for a part (`lastSent`). `UploadInv` ties
the records on disk to the log. A completed object is then the concatenation of
what was last sent, because cutting each part into chunks and splicing the cuts
is cutting the whole (`Lib.chunks_append_flatten`): every part but the last ends
on a chunk boundary.
-/

namespace CeStorage

open Lib
open Std (ExtTreeMap)

variable {ce : CeRs} {env : Env} {s : Store} {w : World}

/-! ## Runs -/

/-- One call, the handle it goes through, and the environment's answers. -/
structure Invocation where
  handle : Store
  env : Env
  call : StoreCall

/-- A world, and the calls that were made on it with their results. -/
structure Ledger where
  world : World
  log : List (StoreCall × Except Failure Value)

/-- What a call returns on a ledger. -/
def Invocation.result (ce : CeRs) (e : Invocation) (x : Ledger) : Except Failure Value :=
  (e.call.exec ce e.env e.handle x.world).1.1

namespace Ledger

/-- No calls so far. -/
def start (w : World) : Ledger := ⟨w, []⟩

/-- The ledger after a call. -/
def after (ce : CeRs) (e : Invocation) (x : Ledger) : Ledger :=
  ⟨(e.call.exec ce e.env e.handle x.world).2, x.log ++ [(e.call, e.result ce x)]⟩

def fire (ce : CeRs) (e : Invocation) (x : Ledger) : Option Ledger := some (x.after ce e)

/-- The record of an upload, if it is in flight. -/
def upload (x : Ledger) (id : String) : Option Upload := x.world.inFlight id

end Ledger

/-! ### The log -/

/-- The bytes an entry of the log sent for part `n` of an upload. -/
def sends (id : String) (n : Nat) : StoreCall × Except Failure Value → Option Bytes
  | (.uploadPart id' n' bytes, .ok _) => if id' = id ∧ n' = n then some bytes else none
  | _ => none

/-- The target an entry of the log created an upload for. -/
def creates (id : String) : StoreCall × Except Failure Value → Option (String × String)
  | (.createMultipartUpload b k _, .ok (.text id')) => if id' = id then some (b, k) else none
  | _ => none

/-- The bytes of the most recent successful `uploadPart` of part `n`. -/
def lastSent (log : List (StoreCall × Except Failure Value)) (id : String) (n : Nat) :
    Option Bytes :=
  log.reverse.findSome? (sends id n)

/-- The target of the successful `createMultipartUpload` that returned `id`. -/
def targetOf (log : List (StoreCall × Except Failure Value)) (id : String) :
    Option (String × String) :=
  log.reverse.findSome? (creates id)

/-- A search from the end, after one more entry. -/
theorem findSome_reverse_snoc {α β : Type} (f : α → Option β) (l : List α) (d : α) :
    (l ++ [d]).reverse.findSome? f = (f d).or (l.reverse.findSome? f) := by
  rw [List.reverse_append]
  cases h : f d <;> simp [h]

theorem lastSent_snoc (log : List (StoreCall × Except Failure Value))
    (d : StoreCall × Except Failure Value) (id : String) (n : Nat) :
    lastSent (log ++ [d]) id n = (sends id n d).or (lastSent log id n) :=
  findSome_reverse_snoc _ _ _

theorem targetOf_snoc (log : List (StoreCall × Except Failure Value))
    (d : StoreCall × Except Failure Value) (id : String) :
    targetOf (log ++ [d]) id = (creates id d).or (targetOf log id) :=
  findSome_reverse_snoc _ _ _

/-- What is asked of the environment of a call: a content-addressed blob store,
and an upload id that was not handed out before. -/
structure Honest (ce : CeRs) (x : Ledger) (e : Invocation) : Prop where
  truthful : e.env.Truthful ce
  fresh : ∀ b k opts, e.call = .createMultipartUpload b k opts →
    targetOf x.log e.env.uploadId = none

/-! ## What a call does to the records -/

/-- A change of the records in flight that leads to the world `w'`, and the call
and result it goes with. -/
inductive Moves (ce : CeRs) (env : Env) (w' : World) :
    StoreCall → Except Failure Value → ExtTreeMap String Upload → ExtTreeMap String Upload → Prop
  | create (b k : String) (opts : PutOptions) (us : ExtTreeMap String Upload) :
    Moves ce env w' (.createMultipartUpload b k opts) (.ok (.text env.uploadId)) us
      (us.insert env.uploadId (newUpload ce b k opts env.now))
  | upload (id : String) (n : Nat) (bytes : Bytes) (u : Upload) (us : ExtTreeMap String Upload)
      (h : us[id]? = some u) (hst : Stored ce w' bytes) :
    Moves ce env w' (.uploadPart id n bytes) (.ok (.text (ce.objectCid bytes))) us
      (us.insert id (u.withPart n (ce.partOf n bytes)))
  | complete (id : String) (parts : List (Nat × String)) (m : ObjectMeta)
      (us : ExtTreeMap String Upload) :
    Moves ce env w' (.completeMultipartUpload id parts) (.ok (.object m)) us (us.erase id)
  | abort (id : String) (us : ExtTreeMap String Upload) :
    Moves ce env w' (.abortMultipartUpload id) (.ok .unit) us (us.erase id)

/-- The call neither created an upload nor sent a part. -/
def Silent (d : StoreCall × Except Failure Value) : Prop :=
  (∀ id n, sends id n d = none) ∧ ∀ id, creates id d = none

theorem silent_error (c : StoreCall) (e : Failure) : Silent (c, .error e) := by
  constructor
  · intro id n
    cases c <;> rfl
  · intro id
    cases c <;> rfl

theorem silent_of_plan {c : StoreCall}
    {d : Index → Decision Failure Value × List (String × Bytes)} (hd : c.plan ce env = some d)
    (r : Except Failure Value) : Silent (c, r) := by
  cases c with
  | createMultipartUpload b k opts => exact nomatch hd
  | uploadPart id n bytes => exact nomatch hd
  | _ => exact ⟨fun _ _ => rfl, fun _ => rfl⟩

/-- A call leaves the records alone and is silent in the log, or it is one of the
four moves. -/
theorem uploads_cases (hce : ce.Lawful) (henv : env.Truthful ce) (hw : Addressed ce w)
    (c : StoreCall) (s : Store) :
    let r := c.exec ce env s w
    (r.2.files .multipart = w.files .multipart ∧ Silent (c, r.1.1)) ∨
      ∃ st st', MultipartState.decode (w.files .multipart) = .ok st ∧
        MultipartState.decode (r.2.files .multipart) = .ok st' ∧
        Moves ce env r.2 c r.1.1 st.uploads st'.uploads := by
  dsimp only
  have failed : ∀ c : StoreCall, Fails (c.exec ce env s w) w →
      (c.exec ce env s w).2.files .multipart = w.files .multipart ∧
        Silent (c, (c.exec ce env s w).1.1) := by
    rintro c ⟨⟨e, he⟩, hf⟩
    rw [hf, he]
    exact ⟨rfl, silent_error c e⟩
  -- an index call does not touch the file; of the four others, one case each
  rcases c.plan_cases ce env with ⟨d, hd⟩ | ⟨b, k, opts, rfl⟩ | ⟨id, n, bytes, rfl⟩ |
    ⟨id, parts, rfl⟩ | ⟨id, rfl⟩
  · refine .inl ⟨?_, ?_⟩
    · rcases indexCall_cases hd s w with ⟨hf, -⟩ | ⟨i, j, a, -, -, -, -, hf, -⟩
      · rw [hf]
      · rw [hf]
        rfl
    · exact silent_of_plan hd _
  · rcases createMultipartUpload_cases ce env b k opts s w with
      h | ⟨st, st', hst, hc, hr, hf⟩
    · exact .inl (failed _ h)
    · obtain ⟨hus, hschema⟩ := create_uploads hc
      refine .inr ⟨st, st', hst, ?_, ?_⟩
      · rw [hf]
        exact MultipartState.decode_kept hst hschema
      · rw [hr, hus]
        exact .create b k opts st.uploads
  · rcases uploadPart_cases hce henv hw id n bytes s with h | ⟨st, st', hst, hp, hr, hf, hstored⟩
    · exact .inl (failed _ h)
    · obtain ⟨u, hu, hschema, hus⟩ := putPart_uploads hp
      refine .inr ⟨st, st', hst, ?_, ?_⟩
      · rw [hf]
        exact MultipartState.decode_kept hst hschema
      · rw [hr, hus]
        exact .upload id n bytes u st.uploads hu hstored
  · rcases completeMultipartUpload_cases ce env id parts s w with
      h | ⟨st, upload, manifest, cid, i, j, hass, -, ⟨⟨e, he⟩, hf⟩ | ⟨hr, hf⟩⟩
    · exact .inl (failed _ h)
    · -- the index was saved, the uploads were not
      refine .inl ⟨by rw [hf]; rfl, ?_⟩
      rw [he]
      exact silent_error _ e
    · refine .inr ⟨st, st.remove id, hass.loaded, ?_, ?_⟩
      · rw [hf]
        exact MultipartState.decode_kept hass.loaded rfl
      · rw [hr]
        exact .complete id parts _ st.uploads
  · rcases abortMultipartUpload_cases ce env id s w with h | ⟨st, hst, hr, hf⟩
    · exact .inl (failed _ h)
    · refine .inr ⟨st, st.remove id, hst, ?_, ?_⟩
      · rw [hf]
        exact MultipartState.decode_kept hst rfl
      · rw [hr]
        exact .abort id st.uploads

/-! ## The records and the log -/

/-- A record in flight is what the log says of its upload: the target it was
created for, and for each part the bytes last sent for it, which are stored. -/
structure RecordOk (ce : CeRs) (x : Ledger) (id : String) (u : Upload) : Prop where
  target : targetOf x.log id = some (u.bucket, u.key)
  parts : PartsOf ce x.world (lastSent x.log id) u

/-- Every blob is under its own CID and every record in flight is what the log
says. -/
structure UploadInv (ce : CeRs) (x : Ledger) : Prop where
  addressed : Addressed ce x.world
  record : ∀ id u, x.upload id = some u → RecordOk ce x id u

/-- No upload is in flight. -/
def World.NoUploads (w : World) : Prop := ∀ id, (Ledger.start w).upload id = none

theorem blank_noUploads : World.blank.NoUploads := fun _ => rfl

theorem upload_of_decode {x : Ledger} {st : MultipartState}
    (h : MultipartState.decode (x.world.files .multipart) = .ok st) (id : String) :
    x.upload id = st.uploads[id]? := inFlight_of_decode id h

theorem upload_of_files {x y : Ledger}
    (h : y.world.files .multipart = x.world.files .multipart) (id : String) :
    y.upload id = x.upload id := inFlight_of_files id h

theorem start_uploadInv {w₀ : World} (hw : Addressed ce w₀) (h : w₀.NoUploads) :
    UploadInv ce (Ledger.start w₀) where
  addressed := hw
  record id _ hu := nomatch (h id).symm.trans hu

/-- A call that is silent about an upload leaves its record right. -/
theorem RecordOk.snoc {x y : Ledger} {id : String} {u : Upload}
    {d : StoreCall × Except Failure Value} (h : RecordOk ce x id u) (hg : Grows x.world y.world)
    (hlog : y.log = x.log ++ [d]) (hs : ∀ n, sends id n d = none) (hc : creates id d = none) :
    RecordOk ce y id u := by
  have hsent : lastSent y.log id = lastSent x.log id := by
    funext n
    rw [hlog, lastSent_snoc, hs n]
    rfl
  constructor
  · rw [hlog, targetOf_snoc, hc]
    exact h.target
  · rw [hsent]
    exact h.parts.mono hg

/-- A new part is what was last sent for it, and the others still are. -/
theorem RecordOk.send {x y : Ledger} {id : String} {u : Upload} {n : Nat} {bytes : Bytes}
    {d : StoreCall × Except Failure Value} (h : RecordOk ce x id u) (hg : Grows x.world y.world)
    (hlog : y.log = x.log ++ [d])
    (hs : ∀ m, sends id m d = if n = m then some bytes else none) (hc : creates id d = none)
    (hst : Stored ce y.world bytes) : RecordOk ce y id (u.withPart n (ce.partOf n bytes)) := by
  constructor
  · rw [hlog, targetOf_snoc, hc]
    exact h.target
  · refine ⟨h.parts.partChunk, ?_⟩
    intro m p hp
    unfold Upload.withPart at hp
    dsimp only at hp
    rw [get_insert] at hp
    rw [hlog, lastSent_snoc, hs m]
    by_cases hm : n = m
    · subst hm
      rw [if_pos rfl] at hp ⊢
      exact ⟨bytes, rfl, (Option.some.inj hp).symm, hst⟩
    · rw [if_neg hm] at hp ⊢
      obtain ⟨bytes', hsent, hpart, hstored⟩ := h.parts.part m p hp
      exact ⟨bytes', hsent, hpart, hstored.mono hg⟩

/-- A record that was just created has a target and no parts. -/
theorem recordOk_create {x y : Ledger} {b k : String} {opts : PutOptions}
    {d : StoreCall × Except Failure Value} (hlog : y.log = x.log ++ [d])
    (hc : creates env.uploadId d = some (b, k)) :
    RecordOk ce y env.uploadId (newUpload ce b k opts env.now) := by
  constructor
  · rw [hlog, targetOf_snoc, hc]
    rfl
  · exact ⟨rfl, fun _ _ h => nomatch h⟩

theorem sends_upload (id id' : String) (n m : Nat) (bytes : Bytes) (v : Value) :
    sends id' m (.uploadPart id n bytes, .ok v)
      = if id = id' ∧ n = m then some bytes else none := rfl

theorem creates_create (b k id id' : String) (opts : PutOptions) :
    creates id' (.createMultipartUpload b k opts, .ok (.text id))
      = if id = id' then some (b, k) else none := rfl

/-- A move keeps every record what the log says. -/
theorem moves_records {x y : Ledger} {c : StoreCall} {r : Except Failure Value}
    {us us' : ExtTreeMap String Upload} (hm : Moves ce env y.world c r us us')
    (hlog : y.log = x.log ++ [(c, r)]) (hg : Grows x.world y.world)
    (h : ∀ id u, us[id]? = some u → RecordOk ce x id u) :
    ∀ id u, us'[id]? = some u → RecordOk ce y id u := by
  intro id u hu
  cases hm with
  | create b k opts us =>
    rw [get_insert] at hu
    by_cases hid : env.uploadId = id
    · subst hid
      rw [if_pos rfl] at hu
      cases hu
      exact recordOk_create hlog (by rw [creates_create, if_pos rfl])
    · rw [if_neg hid] at hu
      exact (h id u hu).snoc hg hlog (fun _ => rfl) (by rw [creates_create, if_neg hid])
  | upload id' n bytes v us hv hst =>
    rw [get_insert] at hu
    by_cases hid : id' = id
    · subst hid
      rw [if_pos rfl] at hu
      cases hu
      -- the part replaces an earlier one of its number
      refine (h id' v hv).send hg hlog ?_ rfl hst
      intro m
      rw [sends_upload]
      simp
    · rw [if_neg hid] at hu
      refine (h id u hu).snoc hg hlog ?_ rfl
      intro m
      rw [sends_upload, if_neg fun hh => hid hh.1]
  | complete id' parts m us =>
    rw [get_erase] at hu
    split at hu
    · exact nomatch hu
    · exact (h id u hu).snoc hg hlog (fun _ => rfl) rfl
  | abort id' us =>
    rw [get_erase] at hu
    split at hu
    · exact nomatch hu
    · exact (h id u hu).snoc hg hlog (fun _ => rfl) rfl

/-- One call keeps the invariant. -/
theorem after_uploadInv (hce : ce.Lawful) {x : Ledger} {e : Invocation} (hI : UploadInv ce x)
    (he : Honest ce x e) : UploadInv ce (x.after ce e) := by
  obtain ⟨hadd, hgrow⟩ := e.call.exec_blobs (s := e.handle) hce he.truthful hI.addressed
  refine ⟨hadd, ?_⟩
  rcases uploads_cases hce he.truthful hI.addressed e.call e.handle with
    ⟨hf, hs, hc⟩ | ⟨st, st', hst, hst', hm⟩
  · intro id u hu
    rw [upload_of_files hf] at hu
    exact (hI.record id u hu).snoc hgrow rfl (fun n => hs id n) (hc id)
  · have hrec : ∀ id u, st.uploads[id]? = some u → RecordOk ce x id u := by
      intro id u hu
      exact hI.record id u ((upload_of_decode hst id).trans hu)
    have hnext := moves_records (y := x.after ce e) hm rfl hgrow hrec
    intro id u hu
    exact hnext id u ((upload_of_decode hst' id).symm.trans hu)

/-- **The records in flight are what the log says**, in every state of every
honest run. -/
theorem reach_uploadInv (hce : ce.Lawful) {w₀ : World} (hw : Addressed ce w₀)
    (h : w₀.NoUploads) {x : Ledger}
    (hx : Reach (Ledger.fire ce) (Honest ce) (Ledger.start w₀) x) : UploadInv ce x := by
  refine hx.inv (start_uploadInv hw h) ?_
  intro y e y' _ hI hok hf
  cases hf
  exact after_uploadInv hce hI hok

/-! ## An upload that is gone -/

/-- The upload was handed out and is no longer in flight; the multipart state
can be read. -/
structure Gone (x : Ledger) (id : String) : Prop where
  used : targetOf x.log id ≠ none
  absent : ∃ st, MultipartState.decode (x.world.files .multipart) = .ok st ∧
    st.uploads[id]? = none

theorem targetOf_after {x : Ledger} {e : Invocation} {id : String}
    (h : targetOf x.log id ≠ none) : targetOf (x.after ce e).log id ≠ none := by
  show targetOf (x.log ++ _) id ≠ none
  rw [targetOf_snoc]
  cases creates id (e.call, e.result ce x) with
  | none => exact h
  | some t => simp

/-- Nothing brings an upload back whose id was handed out once. -/
theorem moves_absent {x : Ledger} {c : StoreCall} {r : Except Failure Value} {w' : World}
    {us us' : ExtTreeMap String Upload} {id : String} (hm : Moves ce env w' c r us us')
    (hfresh : ∀ b k opts, c = .createMultipartUpload b k opts →
      targetOf x.log env.uploadId = none)
    (hused : targetOf x.log id ≠ none) (h : us[id]? = none) : us'[id]? = none := by
  cases hm with
  | create b k opts us =>
    have hid : env.uploadId ≠ id := by
      rintro rfl
      exact hused (hfresh b k opts rfl)
    rw [get_insert_ne hid, h]
  | upload id' n bytes v us hv hst =>
    have hid : id' ≠ id := by
      rintro rfl
      exact nomatch h.symm.trans hv
    rw [get_insert_ne hid, h]
  | complete id' parts m us =>
    rw [get_erase]
    split
    · rfl
    · exact h
  | abort id' us =>
    rw [get_erase]
    split
    · rfl
    · exact h

theorem Gone.after (hce : ce.Lawful) {x : Ledger} {e : Invocation} {id : String}
    (hadd : Addressed ce x.world) (h : Gone x id) (he : Honest ce x e) :
    Gone (x.after ce e) id := by
  refine ⟨targetOf_after h.used, ?_⟩
  obtain ⟨st, hst, hid⟩ := h.absent
  rcases uploads_cases hce he.truthful hadd e.call e.handle with
    ⟨hf, -⟩ | ⟨st', st'', hst', hst'', hm⟩
  · exact ⟨st, (congrArg MultipartState.decode hf).trans hst, hid⟩
  · cases hst.symm.trans hst'
    exact ⟨st'', hst'', moves_absent hm he.fresh h.used hid⟩

/-- Once gone, always gone. -/
theorem Gone.reach (hce : ce.Lawful) {x y : Ledger} {id : String}
    (hadd : Addressed ce x.world) (h : Gone x id)
    (hy : Reach (Ledger.fire ce) (Honest ce) x y) : Addressed ce y.world ∧ Gone y id := by
  refine hy.inv (I := fun z => Addressed ce z.world ∧ Gone z id) ⟨hadd, h⟩
    fun z e z' _ hI hok hf => ?_
  cases hf
  exact ⟨(e.call.exec_blobs hce hok.truthful hI.1).1, hI.2.after hce hI.1 hok⟩

/-- What the calls on an upload that is gone return. -/
structure Refused (ce : CeRs) (y : Ledger) (id : String) (e : Invocation) : Prop where
  upload : ∀ n bytes, e.call = .uploadPart id n bytes → ∃ f, e.result ce y = .error f
  complete : ∀ parts, e.call = .completeMultipartUpload id parts → ∃ f, e.result ce y = .error f
  /-- An abort succeeds as soon as it gets the lock and can read and save. -/
  abort : e.call = .abortMultipartUpload id → e.env.lock = .ok () →
    e.env.readFails .multipart = false → e.env.saveFails .multipart = none →
    e.result ce y = .ok .unit

theorem Gone.refused (hce : ce.Lawful) {y : Ledger} {id : String} {e : Invocation}
    (hadd : Addressed ce y.world) (h : Gone y id) (he : Honest ce y e) : Refused ce y id e := by
  obtain ⟨handle, env, call⟩ := e
  obtain ⟨st, hst, hid⟩ := h.absent
  constructor
  · rintro n bytes rfl
    rcases uploadPart_cases hce he.truthful hadd id n bytes handle with
      ⟨hfail, -⟩ | ⟨st', st'', hst', hp, -⟩
    · exact hfail
    · cases hst.symm.trans hst'
      obtain ⟨u, hu, -⟩ := putPart_uploads hp
      exact nomatch hid.symm.trans hu
  · rintro parts rfl
    rcases completeMultipartUpload_cases ce env id parts handle y.world with
      ⟨hfail, -⟩ | ⟨st', u, manifest, cid, i, j, hass, -⟩
    · exact hfail
    · cases hst.symm.trans hass.loaded
      exact nomatch hid.symm.trans hass.found
  · intro hcall hlock hread hsave
    cases hcall
    have hload : env.loadMultipart y.world = .ok st := by
      unfold Env.loadMultipart
      rw [if_neg (ne_true_of_eq_false hread), hst]
    exact abortMultipartUpload_ok id hlock hload hsave

/-! ## Completion -/

/-- What a completion that succeeded did, on a ledger whose records are what the
log says. -/
theorem UploadInv.complete (hce : ce.Lawful) {x : Ledger} {e : Invocation} (hI : UploadInv ce x)
    (he : Honest ce x e) {id : String} {parts : List (Nat × String)} {v : Value}
    (hcall : e.call = .completeMultipartUpload id parts) (hok : e.result ce x = .ok v) :
    ∃ (st : MultipartState) (u : Upload) (manifest : Manifest) (i j : Index) (bss : List Bytes),
      Assembled ce e.env id parts x.world st u manifest (ce.objectCid bss.flatten) i j ∧
      RecordOk ce x id u ∧
      parts.map (fun p => lastSent x.log id p.1) = bss.map some ∧
      v = .object (completeMeta u manifest (ce.objectCid bss.flatten) e.env.now) ∧
      manifest.totalSize = bss.flatten.length ∧
      Stored ce (x.after ce e).world bss.flatten ∧
      (x.after ce e).world.files = Function.update
        (Function.update x.world.files .index (some (.index j)))
        .multipart (some (.multipart (st.remove id))) := by
  obtain ⟨handle, env, call⟩ := e
  cases hcall
  have hr : ((StoreCall.completeMultipartUpload id parts).exec ce env handle x.world).1.1 = .ok v :=
    hok
  rcases completeMultipartUpload_cases ce env id parts handle x.world with
    ⟨⟨f, hfail⟩, -⟩ | ⟨st, u, manifest, cid, i, j, hass, hb, ⟨⟨f, hfail⟩, -⟩ | ⟨hr', hf⟩⟩
  · exact nomatch hr.symm.trans hfail
  · exact nomatch hr.symm.trans hfail
  · have hrec : RecordOk ce x id u :=
      hI.record id u ((upload_of_decode hass.loaded id).trans hass.found)
    obtain ⟨bss, hbss, -, hsize, rfl, hst⟩ := hass.object hce he.truthful hI.addressed hrec.parts hb
    cases hr.symm.trans hr'
    exact ⟨st, u, manifest, i, j, bss, hass, hrec, hbss, rfl, hsize, hst, hf⟩

/-- **A completed object is what its uploader last sent.** After any honest run,
a completion of `id` that succeeds makes the target `id` was created for an
object that reads back as the concatenation, in the listed order, of the bytes
last sent for each listed part. It leaves every other record alone, and `id` is
refused in every honest run from there, except to an abort. -/
theorem completed_object_is_last_sent (ce : CeRs) (hce : ce.Lawful) (w₀ : World)
    (hw : Addressed ce w₀) (hnone : w₀.NoUploads) (x : Ledger)
    (hx : Reach (Ledger.fire ce) (Honest ce) (Ledger.start w₀) x) (e : Invocation)
    (he : Honest ce x e) (id : String) (parts : List (Nat × String)) (v : Value)
    (hcall : e.call = .completeMultipartUpload id parts) (hok : e.result ce x = .ok v) :
    (∃ (b k : String) (m : ObjectMeta) (j : Index) (bss : List Bytes),
        targetOf x.log id = some (b, k) ∧
        parts.map (fun p => lastSent x.log id p.1) = bss.map some ∧ v = .object m ∧
        Index.decode ((x.after ce e).world.files .index) = .ok j ∧ j.head b k = .ok m ∧
        ce.readObject (x.after ce e).world m.cid = some bss.flatten) ∧
      (∀ id', id' ≠ id → (x.after ce e).upload id' = x.upload id') ∧
      ∀ y, Reach (Ledger.fire ce) (Honest ce) (x.after ce e) y →
        ∀ e', Honest ce y e' → Refused ce y id e' := by
  have hI := reach_uploadInv hce hw hnone hx
  obtain ⟨st, u, manifest, i, j, bss, hass, hrec, hbss, hv, -, hst, hf⟩ :=
    hI.complete hce he hcall hok
  have hdecode : MultipartState.decode ((x.after ce e).world.files .multipart)
      = .ok (st.remove id) := by
    rw [hf]
    exact MultipartState.decode_kept hass.loaded rfl
  refine ⟨⟨u.bucket, u.key, _, j, bss, hrec.target, hbss, hv, ?_, Index.head_put hass.bound,
    hst.read hce⟩, ?_, ?_⟩
  · rw [hf, Function.update_of_ne (by decide), Function.update_self]
    exact Index.decode_put hass.index hass.bound
  · intro id' hid'
    rw [upload_of_decode hdecode, upload_of_decode hass.loaded]
    exact get_erase_ne hid'.symm
  · intro y hy e' he'
    have hadd := (after_uploadInv hce hI he).addressed
    -- no later call brings the id back: ids are fresh
    have hgone : Gone (x.after ce e) id := by
      refine ⟨targetOf_after ?_, st.remove id, hdecode, get_erase_self⟩
      rw [hrec.target]
      simp
    have hboth := hgone.reach hce hadd hy
    exact hboth.2.refused hce hboth.1 he'

/-! A run: two parts are sent, the second one twice, and the upload is
completed. -/

/-- A call from a fresh handle, for which nothing goes wrong. -/
def Invocation.calm (now : Nat) (c : StoreCall) : Invocation :=
  { handle := Store.fresh 1, env := Env.calm CeRs.plain now "u", call := c }

theorem calm_honest {x : Ledger} {now : Nat} {c : StoreCall}
    (h : targetOf x.log "u" = none ∨ ∀ b k opts, c ≠ .createMultipartUpload b k opts) :
    Honest CeRs.plain x (.calm now c) where
  truthful := calm_truthful _ _ _
  fresh b k opts hc := by
    rcases h with h | h
    · exact h
    · exact absurd hc (h b k opts)

private def sending : List Invocation :=
  [.calm 1 (.makeBucket "photos"), .calm 2 (.createMultipartUpload "photos" "a" {}),
    .calm 3 (.uploadPart "u" 1 [1, 2]), .calm 4 (.uploadPart "u" 2 [9]),
    .calm 5 (.uploadPart "u" 2 [3])]

private def sentParts : List (Nat × String) :=
  [(1, CeRs.plain.objectCid [1, 2]), (2, CeRs.plain.objectCid [3])]

private def sent : Ledger :=
  sending.foldl (fun x e => x.after CeRs.plain e) (Ledger.start World.blank)

private theorem sent_reach :
    Reach (Ledger.fire CeRs.plain) (Honest CeRs.plain) (Ledger.start World.blank) sent := by
  have hsend : ∀ x n k bytes, Honest CeRs.plain x (.calm n (.uploadPart "u" k bytes)) := by
    intro x n k bytes
    exact calm_honest (.inr (by simp))
  refine .next (.next (.next (.next (.next .start ?_ rfl) ?_ rfl) (hsend _ 3 1 _) rfl)
    (hsend _ 4 2 _) rfl) (hsend _ 5 2 _) rfl
  · exact calm_honest (.inl rfl)
  · exact calm_honest (.inl rfl)

private def completion : Invocation := .calm 6 (.completeMultipartUpload "u" sentParts)

set_option maxRecDepth 4000 in
private theorem completion_ok : (completion.result CeRs.plain sent).toBool = true := by
  decide

theorem completed_object_is_last_sent_twoParts :
    (∃ (b k : String) (m : ObjectMeta) (j : Index) (bss : List Bytes),
        targetOf sent.log "u" = some (b, k) ∧
        sentParts.map (fun p => lastSent sent.log "u" p.1) = bss.map some ∧
        completion.result CeRs.plain sent = .ok (.object m) ∧
        Index.decode ((sent.after CeRs.plain completion).world.files .index) = .ok j ∧
        j.head b k = .ok m ∧
        CeRs.plain.readObject (sent.after CeRs.plain completion).world m.cid
          = some bss.flatten) := by
  have hok := completion_ok
  cases hr : completion.result CeRs.plain sent with
  | error f =>
    rw [hr] at hok
    exact nomatch hok
  | ok v =>
    have h := completed_object_is_last_sent CeRs.plain CeRs.plain_lawful World.blank
      blank_addressed blank_noUploads sent sent_reach completion
      (calm_honest (.inr (by simp))) "u" sentParts v rfl hr
    obtain ⟨b, k, m, j, bss, ht, hs, hv, hrest⟩ := h.1
    exact ⟨b, k, m, j, bss, ht, hs, congrArg Except.ok hv, hrest⟩

end CeStorage
