import CeStorage.Contents

/-!
# What an upload keeps of its options

The options of a multipart upload reach the object through the record in flight:
`optionsOf` is what the log says an upload was created with, and in every honest
run each record has the content type and the user metadata of these
(`reach_optionsInv`). A record has no place for the three other headers, so a
completion binds what a put of the same bytes would exactly when none is given
(`completed_options_iff`).
-/

namespace CeStorage

open Lib
open Std (ExtTreeMap)

variable {ce : CeRs} {env : Env} {w : World}

/-! ## The options in the log -/

/-- The options an entry of the log created an upload with. -/
def createsWith (id : String) : StoreCall × Except Failure Value → Option PutOptions
  | (.createMultipartUpload _ _ opts, .ok (.text id')) => if id' = id then some opts else none
  | _ => none

/-- The options of the successful `createMultipartUpload` that returned `id`. -/
def optionsOf (log : List (StoreCall × Except Failure Value)) (id : String) : Option PutOptions :=
  log.reverse.findSome? (createsWith id)

theorem optionsOf_snoc (log : List (StoreCall × Except Failure Value))
    (d : StoreCall × Except Failure Value) (id : String) :
    optionsOf (log ++ [d]) id = (createsWith id d).or (optionsOf log id) :=
  findSome_reverse_snoc _ _ _

theorem createsWith_eq_none {id : String} {d : StoreCall × Except Failure Value}
    (h : creates id d = none) : createsWith id d = none := by
  unfold creates at h
  unfold createsWith
  grind

/-- A record has what it keeps of the options its upload was created with. -/
structure OptionsOk (x : Ledger) (id : String) (u : Upload) (opts : PutOptions) : Prop where
  options : optionsOf x.log id = some opts
  contentType : u.contentType = opts.recordedType
  metadata : u.metadata = opts.metadata

theorem OptionsOk.snoc {x y : Ledger} {id : String} {u u' : Upload} {opts : PutOptions}
    {d : StoreCall × Except Failure Value} (h : OptionsOk x id u opts)
    (hlog : y.log = x.log ++ [d]) (hd : createsWith id d = none)
    (htype : u'.contentType = u.contentType) (hmeta : u'.metadata = u.metadata) :
    OptionsOk y id u' opts where
  options := by
    rw [hlog, optionsOf_snoc, hd]
    exact h.options
  contentType := htype.trans h.contentType
  metadata := hmeta.trans h.metadata

/-- Every record in flight does. -/
def OptionsInv (x : Ledger) : Prop := ∀ id u, x.upload id = some u → ∃ opts, OptionsOk x id u opts

theorem moves_options {x y : Ledger} {c : StoreCall} {r : Except Failure Value}
    {us us' : ExtTreeMap String Upload} (hm : Moves ce env w c r us us')
    (hlog : y.log = x.log ++ [(c, r)])
    (h : ∀ id u, us[id]? = some u → ∃ opts, OptionsOk x id u opts) :
    ∀ id u, us'[id]? = some u → ∃ opts, OptionsOk y id u opts := by
  intro id u hu
  cases hm with
  | create b k opts us =>
    rw [get_insert] at hu
    have hwith : createsWith id (.createMultipartUpload b k opts, .ok (.text env.uploadId))
        = if env.uploadId = id then some opts else none := rfl
    by_cases hid : env.uploadId = id
    · rw [if_pos hid] at hu hwith
      cases hu
      refine ⟨opts, ?_, rfl, rfl⟩
      rw [hlog, optionsOf_snoc, hwith]
      rfl
    · rw [if_neg hid] at hu hwith
      obtain ⟨opts', hopts⟩ := h id u hu
      exact ⟨opts', hopts.snoc hlog hwith rfl rfl⟩
  | upload id' n bytes v us hv hst =>
    rw [get_insert] at hu
    split at hu
    next hid =>
      subst hid
      cases hu
      obtain ⟨opts, hopts⟩ := h id' v hv
      exact ⟨opts, hopts.snoc hlog rfl rfl rfl⟩
    next =>
      obtain ⟨opts, hopts⟩ := h id u hu
      exact ⟨opts, hopts.snoc hlog rfl rfl rfl⟩
  | complete id' parts m us =>
    rw [get_erase] at hu
    split at hu
    · exact nomatch hu
    · obtain ⟨opts, hopts⟩ := h id u hu
      exact ⟨opts, hopts.snoc hlog rfl rfl rfl⟩
  | abort id' us =>
    rw [get_erase] at hu
    split at hu
    · exact nomatch hu
    · obtain ⟨opts, hopts⟩ := h id u hu
      exact ⟨opts, hopts.snoc hlog rfl rfl rfl⟩

theorem after_optionsInv (hce : ce.Lawful) {x : Ledger} {e : Invocation}
    (haddr : Addressed ce x.world) (hI : OptionsInv x) (he : Honest ce x e) :
    OptionsInv (x.after ce e) := by
  rcases uploads_cases hce he.truthful haddr e.call e.handle with
    ⟨hf, -, hc⟩ | ⟨st, st', hst, hst', hm⟩
  · intro id u hu
    rw [upload_of_files hf] at hu
    obtain ⟨opts, hopts⟩ := hI id u hu
    exact ⟨opts, hopts.snoc rfl (createsWith_eq_none (hc id)) rfl rfl⟩
  · have hnext := moves_options (x := x) (y := x.after ce e) hm rfl
      fun id u hu => hI id u ((upload_of_decode hst id).trans hu)
    intro id u hu
    exact hnext id u ((upload_of_decode hst' id).symm.trans hu)

/-- The records in flight keep their options, in every state of every honest run. -/
theorem reach_optionsInv (hce : ce.Lawful) {w₀ : World} (hw : Addressed ce w₀)
    (h : w₀.NoUploads) {x : Ledger}
    (hx : Reach (Ledger.fire ce) (Honest ce) (Ledger.start w₀) x) : OptionsInv x := by
  refine (hx.inv (I := fun x => UploadInv ce x ∧ OptionsInv x)
    ⟨start_uploadInv hw h, fun id u hu => nomatch (h id).symm.trans hu⟩ ?_).2
  intro y e y' _ hI hok hf
  cases hf
  exact ⟨after_uploadInv hce hI.1 hok, after_optionsInv hce hI.1.addressed hI.2 hok⟩

/-! ## Completion and put -/

/-- The call succeeds and binds the key to `m`. -/
structure BindsTo (ce : CeRs) (x : Ledger) (e : Invocation) (b k : String) (m : ObjectMeta) :
    Prop where
  result : e.result ce x = .ok (.object m)
  bound : ∃ j, Index.decode ((x.after ce e).world.files .index) = .ok j ∧ j.head b k = .ok m

/-- The headers that an upload has no place for are not given. -/
structure NoHeaders (opts : PutOptions) : Prop where
  cacheControl : opts.cacheControl = none
  contentDisposition : opts.contentDisposition = none
  contentEncoding : opts.contentEncoding = none

/-- What a put binds. -/
theorem put_binds (hce : ce.Lawful) {y : Ledger} {p : Invocation} {b k : String} {bytes : Bytes}
    {opts : PutOptions} {v : Value} (htruthful : p.env.Truthful ce)
    (hcall : p.call = .putObjectOpts b k bytes opts) (hok : p.result ce y = .ok v) :
    BindsTo ce y p b k (putMeta (ce.objectCid bytes) bytes opts p.env.now) := by
  obtain ⟨handle, env, call⟩ := p
  cases hcall
  have hr : ((StoreCall.putObjectOpts b k bytes opts).exec ce env handle y.world).1.1 = .ok v := hok
  rcases putObjectOpts_cases ce env b k bytes opts handle y.world with
    ⟨⟨f, hf⟩, -⟩ | ⟨cid, i, j, hput, hi, -, hbound, hr', hfiles, -⟩
  · exact nomatch hr.symm.trans hf
  · have hcid : cid = ce.objectCid bytes := by
      rw [htruthful.putObject bytes cid hput, hce.chunkObject_eq bytes _ hce.chunk_pos]
      rfl
    subst hcid
    refine ⟨hr', j, ?_, Index.head_put hbound⟩
    show Index.decode (((StoreCall.putObjectOpts b k bytes opts).exec ce env handle
      y.world).2.files .index) = _
    rw [hfiles, Function.update_self]
    exact Index.decode_put hi hbound

/-- What a completion binds: what a put of the same bytes would, but the headers. -/
theorem complete_binds (hce : ce.Lawful) {x : Ledger} {e : Invocation} (hI : UploadInv ce x)
    (hopts : OptionsInv x) (he : Honest ce x e) {id : String} {parts : List (Nat × String)}
    {v : Value} (hcall : e.call = .completeMultipartUpload id parts)
    (hok : e.result ce x = .ok v) :
    ∃ (b k : String) (opts : PutOptions) (bss : List Bytes),
      targetOf x.log id = some (b, k) ∧ optionsOf x.log id = some opts ∧
      parts.map (fun p => lastSent x.log id p.1) = bss.map some ∧
      BindsTo ce x e b k { putMeta (ce.objectCid bss.flatten) bss.flatten opts e.env.now with
        cacheControl := none, contentDisposition := none, contentEncoding := none } := by
  obtain ⟨st, u, manifest, i, j, bss, hass, hrec, hbss, hv, hsize, -, hf⟩ :=
    hI.complete hce he hcall hok
  obtain ⟨opts, hkept⟩ := hopts id u ((upload_of_decode hass.loaded id).trans hass.found)
  have hmeta : completeMeta u manifest (ce.objectCid bss.flatten) e.env.now
      = { putMeta (ce.objectCid bss.flatten) bss.flatten opts e.env.now with
          cacheControl := none, contentDisposition := none, contentEncoding := none } := by
    unfold completeMeta putMeta ObjectMeta.new
    rw [hkept.contentType, hkept.metadata, hsize]
  refine ⟨u.bucket, u.key, opts, bss, hrec.target, hkept.options, hbss, ?_, j, ?_, ?_⟩
  · rw [hok, hv, hmeta]
  · rw [hf, Function.update_of_ne (by decide), Function.update_self]
    exact Index.decode_put hass.index hass.bound
  · rw [← hmeta]
    exact Index.head_put hass.bound

/-- After any honest run, what a completion binds is, apart from the time, what a put of
the same bytes with the same options binds, if and only if the options have none of the
three headers. -/
theorem completed_options_iff (ce : CeRs) (hce : ce.Lawful) (w₀ : World) (hw : Addressed ce w₀)
    (hnone : w₀.NoUploads) (x : Ledger)
    (hx : Reach (Ledger.fire ce) (Honest ce) (Ledger.start w₀) x) (e : Invocation)
    (he : Honest ce x e) (id : String) (parts : List (Nat × String)) (v : Value)
    (hcall : e.call = .completeMultipartUpload id parts) (hok : e.result ce x = .ok v) :
    ∃ (b k : String) (opts : PutOptions) (bss : List Bytes) (m : ObjectMeta),
      targetOf x.log id = some (b, k) ∧ optionsOf x.log id = some opts ∧
      parts.map (fun p => lastSent x.log id p.1) = bss.map some ∧ BindsTo ce x e b k m ∧
      ∀ (y : Ledger) (p : Invocation) (b' k' : String) (v' : Value), p.env.Truthful ce →
        p.call = .putObjectOpts b' k' bss.flatten opts → p.result ce y = .ok v' →
        ∃ m', BindsTo ce y p b' k' m' ∧
          ({ m with lastModified := m'.lastModified } = m' ↔ NoHeaders opts) := by
  obtain ⟨b, k, opts, bss, htarget, hopts, hbss, hbinds⟩ := complete_binds hce
    (reach_uploadInv hce hw hnone hx) (reach_optionsInv hce hw hnone hx) he hcall hok
  refine ⟨b, k, opts, bss, _, htarget, hopts, hbss, hbinds, ?_⟩
  intro y p b' k' v' htruthful hput hpok
  refine ⟨_, put_binds hce htruthful hput hpok, fun heq => ?_, fun hno => ?_⟩
  · exact ⟨(congrArg ObjectMeta.cacheControl heq).symm,
      (congrArg ObjectMeta.contentDisposition heq).symm,
      (congrArg ObjectMeta.contentEncoding heq).symm⟩
  · unfold putMeta ObjectMeta.new
    rw [hno.cacheControl, hno.contentDisposition, hno.contentEncoding]

/-! A run: an upload with a `Cache-Control` is completed; and a put of its bytes. -/

private def noStore (header : Option String) : PutOptions := { cacheControl := header }

private def created (header : Option String) : Ledger :=
  [Invocation.calm 1 (.makeBucket "photos"),
    .calm 2 (.createMultipartUpload "photos" "a" (noStore header)),
    .calm 3 (.uploadPart "u" 1 [1, 2])].foldl (fun x e => x.after CeRs.plain e)
      (Ledger.start World.blank)

private theorem created_reach (header : Option String) :
    Reach (Ledger.fire CeRs.plain) (Honest CeRs.plain) (Ledger.start World.blank)
      (created header) := by
  refine .next (.next (.next .start ?_ rfl) ?_ rfl) ?_ rfl
  · exact calm_honest (.inl rfl)
  · exact calm_honest (.inl rfl)
  · exact calm_honest (.inr (by simp))

private def onlyPart : List (Nat × String) := [(1, CeRs.plain.objectCid [1, 2])]

private def complete : Invocation := .calm 4 (.completeMultipartUpload "u" onlyPart)

set_option maxRecDepth 4000 in
private theorem complete_ok : (complete.result CeRs.plain (created (some "no-store"))).toBool ∧
    (complete.result CeRs.plain (created none)).toBool := by
  decide

private def put (bytes : Bytes) (opts : PutOptions) : Invocation :=
  .calm 5 (.putObjectOpts "photos" "b" bytes opts)

set_option maxRecDepth 4000 in
private theorem put_ok : ((put [1, 2] (noStore (some "no-store"))).result CeRs.plain
      (created (some "no-store"))).toBool ∧
    ((put [1, 2] (noStore none)).result CeRs.plain (created none)).toBool := by
  decide

private theorem ok_of_toBool {ε α : Type} {r : Except ε α} (h : r.toBool = true) :
    ∃ v, r = .ok v := by
  cases r with
  | error e => exact nomatch h
  | ok v => exact ⟨v, rfl⟩

set_option maxRecDepth 4000 in
private theorem created_options (header : Option String) :
    optionsOf (created header).log "u" = some (noStore header) := by
  cases header <;> rfl

set_option maxRecDepth 4000 in
private theorem created_sent : ∀ header ∈ [some "no-store", none],
    onlyPart.map (fun p => lastSent (created header).log "u" p.1) = [[1, 2]].map some := by
  decide

private theorem flatten_sent {header : Option String} (hheader : header ∈ [some "no-store", none])
    {bss : List Bytes}
    (h : onlyPart.map (fun p => lastSent (created header).log "u" p.1) = bss.map some) :
    bss.flatten = [1, 2] := by
  have hsent := created_sent header hheader
  have hbss : bss = [[1, 2]] :=
    List.map_injective_iff.mpr (Option.some_injective Bytes) (h.symm.trans hsent)
  rw [hbss]
  rfl

/-- The `Cache-Control` of an upload is not on the object. -/
theorem cache_control_dropped : ¬∀ (ce : CeRs), ce.Lawful → ∀ (w₀ : World), Addressed ce w₀ →
    w₀.NoUploads → ∀ (x : Ledger), Reach (Ledger.fire ce) (Honest ce) (Ledger.start w₀) x →
    ∀ (e : Invocation), Honest ce x e → ∀ (id : String) (parts : List (Nat × String)) (v : Value),
      e.call = .completeMultipartUpload id parts → e.result ce x = .ok v →
      ∃ (b k : String) (opts : PutOptions) (bss : List Bytes) (m : ObjectMeta),
        targetOf x.log id = some (b, k) ∧ optionsOf x.log id = some opts ∧
        parts.map (fun p => lastSent x.log id p.1) = bss.map some ∧ BindsTo ce x e b k m ∧
        ∀ (y : Ledger) (p : Invocation) (b' k' : String) (v' : Value), p.env.Truthful ce →
          p.call = .putObjectOpts b' k' bss.flatten opts → p.result ce y = .ok v' →
          ∃ m', BindsTo ce y p b' k' m' ∧ { m with lastModified := m'.lastModified } = m' := by
  intro h
  let x := created (some "no-store")
  have hreach := created_reach (some "no-store")
  have hhonest : Honest CeRs.plain x complete := calm_honest (.inr (by simp))
  obtain ⟨v, hok⟩ := ok_of_toBool complete_ok.1
  obtain ⟨v', hpok⟩ := ok_of_toBool put_ok.1
  obtain ⟨b, k, opts, bss, m, -, hopts, hbss, hm, hput⟩ := h CeRs.plain CeRs.plain_lawful
    World.blank blank_addressed blank_noUploads x hreach complete hhonest "u" onlyPart v
    rfl hok
  cases (created_options _).symm.trans hopts
  rw [flatten_sent (by decide) hbss] at hput
  obtain ⟨m', hm', heq⟩ := hput x (put [1, 2] (noStore (some "no-store"))) "photos" "b" v'
    (calm_truthful _ _ _) rfl hpok
  -- the header is on the one and not on the other
  obtain ⟨_, _, _, _, -, -, -, hm₀⟩ := complete_binds CeRs.plain_lawful
    (reach_uploadInv CeRs.plain_lawful blank_addressed blank_noUploads hreach)
    (reach_optionsInv CeRs.plain_lawful blank_addressed blank_noUploads hreach)
    hhonest rfl hok
  have hnone : m.cacheControl = none := by
    rw [Value.object.inj (Except.ok.inj (hm.result.symm.trans hm₀.result))]
  have hput₀ := put_binds CeRs.plain_lawful (calm_truthful _ _ _) rfl hpok
  have hsome : m'.cacheControl = some "no-store" := by
    rw [Value.object.inj (Except.ok.inj (hm'.result.symm.trans hput₀.result))]
    rfl
  have hsame := congrArg ObjectMeta.cacheControl heq
  dsimp only at hsame
  rw [hnone, hsome] at hsame
  exact nomatch hsame

/-- Without headers the completion and the put bind the same. -/
theorem completed_options_none : ∃ v v' m m',
    complete.result CeRs.plain (created none) = .ok v ∧
    (put [1, 2] (noStore none)).result CeRs.plain (created none) = .ok v' ∧
    BindsTo CeRs.plain (created none) complete "photos" "a" m ∧
    BindsTo CeRs.plain (created none) (put [1, 2] (noStore none)) "photos" "b" m' ∧
    { m with lastModified := m'.lastModified } = m' := by
  obtain ⟨v, hok⟩ := ok_of_toBool complete_ok.2
  obtain ⟨v', hpok⟩ := ok_of_toBool put_ok.2
  obtain ⟨b, k, opts, bss, m, htarget, hopts, hbss, hm, hput⟩ := completed_options_iff CeRs.plain
    CeRs.plain_lawful World.blank blank_addressed blank_noUploads (created none)
    (created_reach none) complete (calm_honest (.inr (by simp))) "u" onlyPart v rfl hok
  cases (created_options _).symm.trans hopts
  rw [flatten_sent (by decide) hbss] at hput
  obtain ⟨m', hm', hiff⟩ := hput (created none) (put [1, 2] (noStore none)) "photos" "b" v'
    (calm_truthful _ _ _) rfl hpok
  have hphotos : targetOf (created none).log "u" = some ("photos", "a") := rfl
  cases hphotos.symm.trans htarget
  exact ⟨v, v', m, m', hok, hpok, hm, hm', hiff.mpr ⟨rfl, rfl, rfl⟩⟩

end CeStorage
