import CeStorage.Contents
import CeStorage.Lib.Rely

/-!
# The upload command (`main.rs`)

`ce-storage multipart upload` sends a local file part by part: it creates an
upload, sends the slices of the file one after another, and completes the upload
with the etags it was answered. It holds no lock between these calls, so other
processes may do anything to the store meanwhile, this upload included.

What the command reports to have stored is the file all the same
(`multipart_upload_stores`): the etags it completes with are the CIDs of its own
slices, and a part that was sent again with other bytes has another one.
-/

namespace CeStorage

open Lib
open Std (ExtTreeMap)

variable {ce : CeRs} {id : String} {x y : Ledger}

/-! ## Commands -/

/-- A command of the CLI that calls the store: a program over the mutating calls
that stops at the first error (`?`). -/
def Command (α : Type) : Type :=
  Prog (C := StoreCall) (fun _ => Except Failure Value) (Except Failure α)

namespace Command

variable {α β : Type}

instance : Monad Command where
  pure a := .ret (.ok a)
  bind x f := Prog.bind x fun
    | .ok a => f a
    | .error e => .ret (.error e)

def bail (m : String) : Command α := .ret (.error (.message m))

def ask (c : StoreCall) : Command Value := Prog.call c Prog.ret

end Command

/-- The upload id or etag that `createMultipartUpload` and `uploadPart` return. -/
def Value.textOf : Value → String
  | .text t => t
  | _ => ""

namespace Cli

/-- `split_target`: `bucket/key`, or a bare bucket where no key is required. -/
def splitTarget (t : String) (requireKey : Bool) : Except String (String × String) :=
  match Str.splitOnce '/' t with
  | some p => .ok p
  | none => if requireKey then .error s!"expected bucket/key, got '{t}'" else .ok (t, "")

/-- `guess_content_type`, of a path with this extension. -/
def guessContentType : Option String → String
  | some "txt" => "text/plain"
  | some "html" => "text/html"
  | some "json" => "application/json"
  | some "png" => "image/png"
  | some "jpg" => "image/jpeg"
  | some "jpeg" => "image/jpeg"
  | some "pdf" => "application/pdf"
  | _ => "application/octet-stream"

/-- The chunk that part sizes are rounded down to: 1 MiB. -/
def chunk : Nat := 1024 * 1024

/-- The size of the slices for `--part-size`. -/
def sliceSize (partSize : Nat) : Nat := max (partSize / chunk) 1 * chunk

/-- Send the slices still to send; `n` parts were sent so far. -/
def sendParts (uploadId : String) :
    Nat → List Bytes → List (Nat × String) → Command (List (Nat × String))
  | _, [], parts => pure parts
  | n, slice :: rest, parts => do
    let v ← Command.ask (.uploadPart uploadId (n + 1) slice)
    sendParts uploadId (n + 1) rest (parts ++ [(n + 1, v.textOf)])

/-- The calls of the command, for a file cut into these slices. -/
def upload (bucket key : String) (opts : PutOptions) (slices : List Bytes) : Command Value := do
  let v ← Command.ask (.createMultipartUpload bucket key opts)
  let parts ← sendParts v.textOf 0 slices []
  if parts.isEmpty then do
    -- an upload needs a part, and a part needs a byte
    let _ ← Command.ask (.abortMultipartUpload v.textOf)
    Command.ask (.putObjectOpts bucket key [] opts)
  else Command.ask (.completeMultipartUpload v.textOf parts)

/-- `MultipartCmd::Upload`. `file` is what reading the file gives, `opened` is
whether the store can be opened. -/
def multipartUpload (target : String) (file : Except String Bytes) (partSize : Nat)
    (contentType extension : Option String) (opened : Except String Unit) : Command Value :=
  match splitTarget target true with
  | .error m => Command.bail m
  | .ok (bucket, key) =>
    if partSize = 0 then Command.bail "--part-size must be > 0"
    else
      match file with
      | .error m => Command.bail m
      | .ok bytes =>
        match opened with
        | .error m => Command.bail m
        | .ok () => upload bucket key
            { contentType := contentType.getD (guessContentType extension) }
            (chunks (sliceSize partSize) bytes)

end Cli

/-! ## Calls among others -/

/-- Calls that `A` allows, any number of them. -/
def Among (ce : CeRs) (A : Ledger → Invocation → Prop) (x y : Ledger) : Prop :=
  Reach (Ledger.fire ce) A x y

/-- A call that `A` allows, what it returns and what it leaves. -/
def Made (ce : CeRs) (A : Ledger → Invocation → Prop) (c : StoreCall) (x : Ledger)
    (r : Except Failure Value) (y : Ledger) : Prop :=
  ∃ e, A x e ∧ e.call = c ∧ e.result ce x = r ∧ x.after ce e = y

/-- What every allowed call keeps, the others keep. -/
theorem stable_among {A : Ledger → Invocation → Prop} {P : Ledger → Prop}
    (h : ∀ x e, A x e → P x → P (x.after ce e)) : Prog.Stable (Among ce A) P := by
  intro x y hx hreach
  refine Reach.inv hx ?_ hreach
  intro z e z' _ hz hok hf
  cases hf
  exact h z e hok hz

theorem moves_creates {env : Env} {w' : World} {c : StoreCall} {r : Except Failure Value}
    {us us' : ExtTreeMap String Upload} (hm : Moves ce env w' c r us us')
    (h : ∀ b k opts, c = .createMultipartUpload b k opts → env.uploadId ≠ id) :
    creates id (c, r) = none := by
  cases hm with
  | create b k opts us => rw [creates_create, if_neg (h b k opts rfl)]
  | _ => rfl

/-- Upload ids are not handed out twice, so a target stays. -/
theorem targetOf_keep {e : Invocation} {t : String × String} (hce : ce.Lawful)
    (hI : UploadInv ce x) (he : Honest ce x e) (h : targetOf x.log id = some t) :
    targetOf (x.after ce e).log id = some t := by
  have hnone : creates id (e.call, e.result ce x) = none := by
    rcases uploads_cases hce he.truthful hI.addressed e.call e.handle with
      ⟨-, -, hs⟩ | ⟨st, st', -, -, hm⟩
    · exact hs id
    · refine moves_creates hm ?_
      intro b k opts hcall hid
      have hfresh := he.fresh b k opts hcall
      rw [hid, h] at hfresh
      exact nomatch hfresh
  show targetOf (x.log ++ [(e.call, e.result ce x)]) id = _
  rw [targetOf_snoc, hnone, h]
  rfl

/-! ## What it reports is stored -/

/-- The upload `id` was created for this target. -/
structure Underway (ce : CeRs) (b k id : String) (x : Ledger) : Prop where
  uploads : UploadInv ce x
  target : targetOf x.log id = some (b, k)

theorem Underway.after {b k : String} {e : Invocation} (hce : ce.Lawful)
    (h : Underway ce b k id x) (he : Honest ce x e) : Underway ce b k id (x.after ce e) :=
  ⟨after_uploadInv hce h.uploads he, targetOf_keep hce h.uploads he h.target⟩

/-- A part that is sent is answered with the CID of its bytes. -/
theorem uploadPart_etag (hce : ce.Lawful) (hI : UploadInv ce x) {e : Invocation}
    (he : Honest ce x e) {n : Nat} {bytes : Bytes} (hcall : e.call = .uploadPart id n bytes)
    {v : Value} (hok : e.result ce x = .ok v) : v = .text (ce.objectCid bytes) := by
  obtain ⟨handle, env, call⟩ := e
  cases hcall
  have hr : ((StoreCall.uploadPart id n bytes).exec ce env handle x.world).1.1 = .ok v := hok
  rcases uploadPart_cases hce he.truthful hI.addressed id n bytes handle with
    ⟨⟨f, hf⟩, -⟩ | ⟨st, st', -, -, hr', -⟩
  · exact nomatch hr.symm.trans hf
  · cases hr.symm.trans hr'
    rfl

/-- The slices by part number, the first of them after part `n`. -/
def numbered : Nat → List Bytes → List (Nat × Bytes)
  | _, [] => []
  | n, slice :: rest => (n + 1, slice) :: numbered (n + 1) rest

/-- The part list of a completion with these parts. -/
def CeRs.listing (ce : CeRs) (sent : List (Nat × Bytes)) : List (Nat × String) :=
  sent.map fun q => (q.1, ce.objectCid q.2)

theorem numbered_snd (n : Nat) (slices : List Bytes) :
    (numbered n slices).map Prod.snd = slices := by
  induction slices generalizing n with
  | nil => rfl
  | cons slice rest ih => exact congrArg (slice :: ·) (ih (n + 1))

theorem etags_numbered (n : Nat) (slices : List Bytes) :
    (ce.listing (numbered n slices)).map Prod.snd = slices.map ce.objectCid := by
  have h := congrArg (List.map ce.objectCid) (numbered_snd n slices)
  unfold CeRs.listing
  rwa [List.map_map] at h ⊢

/-- The slices are sent with whatever goes on in between: what is answered are
their own CIDs. -/
theorem sendParts_meets (hce : ce.Lawful) {b k : String} (n : Nat) (slices : List Bytes)
    (parts : List (Nat × String)) :
    Prog.Meets (Among ce (Honest ce)) (Made ce (Honest ce)) (Underway ce b k id)
      (Cli.sendParts id n slices parts) fun r x => Underway ce b k id x ∧
        ∀ ps, r = .ok ps → ps = parts ++ ce.listing (numbered n slices) := by
  induction slices generalizing n parts with
  | nil =>
    refine Prog.meets_ret ?_
    intro x hx
    refine ⟨hx, ?_⟩
    intro ps hps
    cases hps
    exact (List.append_nil parts).symm
  | cons slice rest ih =>
    refine Prog.meets_call (T := fun r x => Underway ce b k id x ∧
      ∀ v, r = .ok v → v = .text (ce.objectCid slice)) ?_ ?_ ?_
    · exact stable_among fun x e he hx => hx.after hce he
    · rintro x r y hx ⟨e, he, hcall, rfl, rfl⟩
      exact ⟨hx.after hce he, fun v hv => uploadPart_etag hce hx.uploads he hcall hv⟩
    · intro r
      cases r with
      | error f =>
        refine Prog.meets_ret ?_
        intro x hx
        exact ⟨hx.1, fun ps hps => nomatch hps⟩
      | ok v =>
        intro x a z hx hrun
        obtain rfl := hx.2 v rfl
        obtain ⟨hz, hps⟩ := ih (n + 1) (parts ++ [(n + 1, ce.objectCid slice)]) x a z hx.1 hrun
        refine ⟨hz, ?_⟩
        intro ps ha
        rw [hps ps ha, List.append_assoc]
        rfl

/-- The key is bound to these bytes, under the metadata `m`. -/
structure Bound (ce : CeRs) (b k : String) (bytes : Bytes) (m : ObjectMeta) (x : Ledger) :
    Prop where
  head : ∃ i, Index.decode (x.world.files .index) = .ok i ∧ i.head b k = .ok m
  content : ContentOf ce x.world m bytes

/-- A completion with the CIDs of slices makes an object of their concatenation. -/
theorem complete_stores (hce : ce.Lawful) {b k : String} {e : Invocation}
    (hx : Underway ce b k id x) (he : Honest ce x e) {parts : List (Nat × String)}
    {slices : List Bytes} (hparts : parts.map Prod.snd = slices.map ce.objectCid)
    (hcall : e.call = .completeMultipartUpload id parts) {v : Value}
    (hok : e.result ce x = .ok v) :
    ∃ m, v = .object m ∧ Bound ce b k slices.flatten m (x.after ce e) := by
  obtain ⟨st, u, manifest, i, j, bss, hass, hrec, -, hv, hsize, hstored, hfiles⟩ :=
    hx.uploads.complete hce he hcall hok
  obtain ⟨bss', -, hetags, -, hman⟩ := assembleManifest_ok hce hrec.parts hass.assembled
  -- the etags are those of the slices, so the assembled bytes are theirs
  have hslices : bss' = slices :=
    (List.map_inj_right fun _ _ h => objectCid_injective hce h).mp (hetags.symm.trans hparts)
  have hcat : bss.flatten = slices.flatten := by
    refine objectCid_injective hce ?_
    rw [he.truthful.putBlob _ _ _ hass.stored, hman, hslices]
    rfl
  have htarget := hrec.target.symm.trans hx.target
  cases htarget
  rw [hcat] at hv hsize hstored
  refine ⟨_, hv, ⟨j, ?_, ?_⟩, hstored, rfl, rfl, rfl, hsize⟩
  · rw [hfiles, Function.update_of_ne (by decide), Function.update_self]
    exact Index.decode_put hass.index hass.bound
  · rw [← hcat]
    exact Index.head_put hass.bound

theorem put_stores (hce : ce.Lawful) {b k : String} {e : Invocation} (hI : UploadInv ce x)
    (he : Honest ce x e) {bytes : Bytes} {opts : PutOptions}
    (hcall : e.call = .putObjectOpts b k bytes opts) {v : Value} (hok : e.result ce x = .ok v) :
    ∃ m, v = .object m ∧ Bound ce b k bytes m (x.after ce e) := by
  obtain ⟨handle, env, call⟩ := e
  cases hcall
  have hr : ((StoreCall.putObjectOpts b k bytes opts).exec ce env handle x.world).1.1 = .ok v :=
    hok
  rcases putObjectOpts_cases ce env b k bytes opts handle x.world with
    ⟨⟨f, hf⟩, -⟩ | ⟨cid, i, j, hput, hi, -, hbound, hr', hfiles, hblobs⟩
  · exact nomatch hr.symm.trans hf
  · cases hr.symm.trans hr'
    refine ⟨_, rfl, ⟨j, ?_, Index.head_put hbound⟩,
      putMeta_content hce he.truthful hI.addressed hput hblobs env.now⟩
    show Index.decode (((StoreCall.putObjectOpts b k bytes opts).exec ce env handle
      x.world).2.files .index) = _
    rw [hfiles, Function.update_self]
    exact Index.decode_put hi hbound

theorem create_underway (hce : ce.Lawful) {b k : String} {e : Invocation} (hI : UploadInv ce x)
    (he : Honest ce x e) {opts : PutOptions} (hcall : e.call = .createMultipartUpload b k opts)
    {v : Value} (hok : e.result ce x = .ok v) :
    Underway ce b k v.textOf (x.after ce e) := by
  refine ⟨after_uploadInv hce hI he, ?_⟩
  obtain ⟨handle, env, call⟩ := e
  cases hcall
  have hr : ((StoreCall.createMultipartUpload b k opts).exec ce env handle x.world).1.1 = .ok v :=
    hok
  rcases createMultipartUpload_cases ce env b k opts handle x.world with
    ⟨⟨f, hf⟩, -⟩ | ⟨st, st', -, -, hr', -⟩
  · exact nomatch hr.symm.trans hf
  · cases hr.symm.trans hr'
    show targetOf (x.log ++ [(_, Invocation.result ce _ x)]) env.uploadId = _
    rw [targetOf_snoc, hok, creates_create, if_pos rfl]
    rfl

/-- The calls of the command, whatever goes on in between: what they report is
stored. -/
theorem upload_meets (hce : ce.Lawful) {b k : String} (slices : List Bytes) (opts : PutOptions) :
    Prog.Meets (Among ce (Honest ce)) (Made ce (Honest ce)) (UploadInv ce)
      (Cli.upload b k opts slices)
      fun r x => ∀ v, r = .ok v → ∃ m, v = .object m ∧ Bound ce b k slices.flatten m x := by
  have stable : ∀ id, Prog.Stable (Among ce (Honest ce)) (Underway ce b k id) :=
    fun id => stable_among fun x e he hx => hx.after hce he
  refine Prog.meets_call (T := fun r x => ∀ v, r = .ok v → Underway ce b k v.textOf x)
    (stable_among fun x e he hx => after_uploadInv hce hx he) ?_ ?_
  · intro x r y hx hmade v hv
    obtain ⟨e, he, hcall, rfl, rfl⟩ := hmade
    exact create_underway hce hx he hcall hv
  intro r
  cases r with
  | error f =>
    refine Prog.meets_ret ?_
    intro x _ v hv
    exact nomatch hv
  | ok v =>
    intro x a z hx hrun w hw
    change Prog.Amid _ _ (Prog.bind (Cli.sendParts v.textOf 0 slices []) _) x a z at hrun
    obtain ⟨sent, y, hsend, hrest⟩ := hrun.split
    obtain ⟨hy, hparts⟩ := sendParts_meets hce 0 slices [] x sent y (hx v rfl) hsend
    cases sent with
    | error f =>
      cases hrest
      exact nomatch hw
    | ok parts =>
      have hetags : parts.map Prod.snd = slices.map ce.objectCid := by
        rw [hparts parts rfl, List.nil_append, etags_numbered]
      change Prog.Amid _ _ (if parts.isEmpty = true then _ else _ : Command Value) y a z at hrest
      split at hrest
      next hempty =>
        -- nothing was sent, so the file is empty
        rw [List.isEmpty_iff.mp hempty] at hetags
        obtain rfl : slices = [] := List.map_eq_nil_iff.mp hetags.symm
        cases hrest with
        | call before now rest =>
          obtain ⟨e, he, hcall, rfl, rfl⟩ := now
          have hstop := (stable _ _ _ hy before).after hce he
          cases hr : e.result ce _ with
          | error f =>
            rw [hr] at rest
            cases rest
            exact nomatch hw
          | ok v' =>
            rw [hr] at rest
            cases rest with
            | call before' now' rest' =>
              cases rest'
              obtain ⟨e', he', hcall', hr', rfl⟩ := now'
              exact put_stores hce (stable _ _ _ hstop before').uploads he' hcall' (hr'.trans hw)
      next =>
        cases hrest with
        | call before now rest =>
          cases rest
          obtain ⟨e, he, hcall, hr, rfl⟩ := now
          exact complete_stores hce (stable _ _ _ hy before) he hetags hcall (hr.trans hw)

theorem Cli.sliceSize_pos (partSize : Nat) : 0 < Cli.sliceSize partSize := by
  unfold sliceSize chunk
  omega

/-- **What the upload command reports is stored.** However its calls go, and
whatever honest calls others make between them, on its own upload too: if the
command succeeds, its target is bound to exactly the bytes of the file, under the
CID that a single put of them would have. -/
theorem multipart_upload_stores (ce : CeRs) (hce : ce.Lawful) (w₀ : World)
    (hw : Addressed ce w₀) (hnone : w₀.NoUploads) (x : Ledger)
    (hx : Reach (Ledger.fire ce) (Honest ce) (Ledger.start w₀) x) (target : String)
    (file : Except String Bytes) (partSize : Nat) (contentType extension : Option String)
    (opened : Except String Unit) (v : Value) (z : Ledger)
    (hrun : Prog.Amid (Among ce (Honest ce)) (Made ce (Honest ce))
      (Cli.multipartUpload target file partSize contentType extension opened) x (.ok v) z) :
    ∃ b k bytes m, Cli.splitTarget target true = .ok (b, k) ∧ file = .ok bytes ∧
      v = .object m ∧ Bound ce b k bytes m z ∧ ce.readObject z.world m.cid = some bytes := by
  have hI := reach_uploadInv hce hw hnone hx
  unfold Cli.multipartUpload at hrun
  cases htarget : Cli.splitTarget target true with
  | error m =>
    rw [htarget] at hrun
    exact nomatch hrun
  | ok t =>
    obtain ⟨b, k⟩ := t
    rw [htarget] at hrun
    dsimp only at hrun
    split at hrun
    · exact nomatch hrun
    cases file with
    | error m => exact nomatch hrun
    | ok bytes =>
      cases opened with
      | error m => exact nomatch hrun
      | ok u =>
        obtain ⟨m, hv, hm⟩ := upload_meets hce _ _ x _ z hI hrun v rfl
        rw [chunks_flatten (Cli.sliceSize_pos partSize)] at hm
        exact ⟨b, k, bytes, m, rfl, rfl, hv, hm, hm.content.read hce⟩

/-! Another client puts the same key while the parts are sent. -/

private def beforeUpload : Ledger :=
  (Ledger.start World.blank).after CeRs.plain (.calm 1 (.makeBucket "photos"))

private def creation : Invocation :=
  .calm 2 (.createMultipartUpload "photos" "a" { contentType := "image/png" })

private def otherPut : Invocation := .calm 3 (.putObjectOpts "photos" "a" [9] {})

private def loneSlice : Invocation := .calm 4 (.uploadPart "u" 1 [1, 2, 3])

private def lastCall : Invocation :=
  .calm 5 (.completeMultipartUpload "u" [(1, CeRs.plain.objectCid [1, 2, 3])])

private def otherWasPut : Ledger :=
  (beforeUpload.after CeRs.plain creation).after CeRs.plain otherPut

private def afterUpload : Ledger :=
  (otherWasPut.after CeRs.plain loneSlice).after CeRs.plain lastCall

private theorem uploaded_run (v : Value)
    (hv : lastCall.result CeRs.plain (otherWasPut.after CeRs.plain loneSlice) = .ok v) :
    Prog.Amid (Among CeRs.plain (Honest CeRs.plain)) (Made CeRs.plain (Honest CeRs.plain))
      (Cli.multipartUpload "photos/a" (.ok [1, 2, 3]) 5 none (some "png") (.ok ())) beforeUpload
      (.ok v) afterUpload := by
  have hcommand : Cli.multipartUpload "photos/a" (.ok [1, 2, 3]) 5 none (some "png") (.ok ())
      = Cli.upload "photos" "a" { contentType := "image/png" } [[1, 2, 3]] := rfl
  have hcreate : creation.result CeRs.plain beforeUpload = .ok (.text "u") := rfl
  have hpart : loneSlice.result CeRs.plain otherWasPut
      = .ok (.text (CeRs.plain.objectCid [1, 2, 3])) := rfl
  rw [hcommand]
  refine .call .start ⟨creation, calm_honest (.inl rfl), rfl, hcreate, rfl⟩ ?_
  refine .call (.next .start (calm_honest (.inr (by simp))) rfl)
    ⟨loneSlice, calm_honest (.inr (by simp)), rfl, hpart, rfl⟩ ?_
  exact .call .start ⟨lastCall, calm_honest (.inr (by simp)), rfl, hv, rfl⟩ (.ret _ _)

theorem multipart_upload_stores_photo : ∃ m,
    Bound CeRs.plain "photos" "a" [1, 2, 3] m afterUpload ∧
      CeRs.plain.readObject afterUpload.world m.cid = some [1, 2, 3] := by
  have hok : (lastCall.result CeRs.plain (otherWasPut.after CeRs.plain loneSlice)).toBool
      = true := by decide +kernel
  cases hv : lastCall.result CeRs.plain (otherWasPut.after CeRs.plain loneSlice) with
  | error f =>
    rw [hv] at hok
    exact Bool.noConfusion hok
  | ok v =>
    obtain ⟨b, k, bytes, m, htarget, hfile, -, hm⟩ := multipart_upload_stores CeRs.plain
      CeRs.plain_lawful World.blank blank_addressed blank_noUploads beforeUpload
      (.next .start (calm_honest (.inl rfl)) rfl) "photos/a" (.ok [1, 2, 3]) 5 none (some "png")
      (.ok ()) v afterUpload (uploaded_run v hv)
    cases htarget
    cases hfile
    exact ⟨m, hm⟩

end CeStorage
