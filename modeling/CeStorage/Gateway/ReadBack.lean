import CeStorage.Contents
import CeStorage.Gateway.ReadVerbs
import CeStorage.Gateway.Requests
import CeStorage.Store.Saving

/-!
# What was put is read back

A gateway reads from the index its handle has in memory. A call that spares a key
leaves the history of the key alone, in the file and in the handle that makes the
call: all the handle can take over is what the file says (`handle_spared`). So
after a PUT that was answered with 200, and however many requests and calls of
other processes that spare the key, a GET of the key is answered with the bytes,
the headers and the user metadata of the PUT (`put_then_get`).
-/

namespace CeStorage

open Lib
open Std (ExtTreeMap)

variable {ce : CeRs} {env : Env} {gw : Gateway} {req : HttpRequest} {s : Store} {w : World}
  {b k : String}

/-! ## Calls that spare a key -/

/-- The call does not name `k` in `b`: nothing it may do is done to that key. -/
def StoreCall.Spares (w : World) (b k : String) : StoreCall → Prop
  | .makeBucket _ | .setVersioning _ _ | .setLifecycle _ _ => True
  | .removeBucket b' _ | .sweepExpired b' => b' ≠ b
  | .sweepAll => False
  | .putObjectOpts b' k' _ _ | .deleteObject b' k' | .deleteObjectVersion b' k' _
  | .copyObject _ _ b' k' => ¬(b' = b ∧ k' = k)
  | .deleteObjects b' keys => b' = b → k ∉ keys
  | .completeMultipartUpload id _ => ∀ u, w.inFlight id = some u → u.target ≠ (b, k)
  | .createMultipartUpload .. | .uploadPart .. | .abortMultipartUpload _ => True

theorem StoreCall.Spares.edit {c : StoreCall} {e : IndexEdit} (h : c.Spares w b k)
    (he : c.MayEdit ce env w e) : ¬e.Touches b k := by
  intro ht
  cases c with
  | makeBucket b' => cases he; exact ht
  | removeBucket b' force => cases he; exact h ht
  | setVersioning b' on => cases he; exact ht
  | setLifecycle b' rules => cases he; exact ht
  | sweepExpired b' =>
    obtain ⟨k', rfl⟩ := he
    exact h ht.1
  | sweepAll => exact h
  | putObjectOpts b' k' bytes opts =>
    obtain ⟨cid, -, rfl⟩ := he
    exact h ht
  | deleteObject b' k' => cases he; exact h ht
  | deleteObjectVersion b' k' v => cases he; exact h ht
  | deleteObjects b' keys =>
    obtain ⟨k', hk', rfl⟩ := he
    exact h ht.1 (ht.2 ▸ hk')
  | copyObject sb sk b' k' => cases he; exact h ht
  | completeMultipartUpload id parts =>
    obtain ⟨st, u, manifest, cid, i, j, hass, rfl⟩ := he
    have hu : w.inFlight id = some u := (inFlight_of_decode id hass.loaded).trans hass.found
    exact h u hu (Prod.ext ht.1 ht.2)
  | createMultipartUpload b' k' opts => exact he
  | uploadPart id n bytes => exact he
  | abortMultipartUpload id => exact he

/-- The file keeps the history of a key that a call spares. -/
theorem historyOf_spared {c : StoreCall} (h : c.Spares w b k) :
    (c.exec ce env s w).2.historyOf b k = w.historyOf b k := by
  unfold World.historyOf
  rcases index_cases ce env c s w with hf | ⟨i, j, hi, -, hj, hij⟩
  · rw [hf]
  · rw [hi, hj]
    exact Index.history_edited hij fun e he => h.edit he

/-- The history of the key that `s'` has in memory is the one that `s` had, or the
one in the file. -/
def Follows (w : World) (b k : String) (s s' : Store) : Prop :=
  s'.index.history b k = s.index.history b k ∨ s'.index.history b k = w.historyOf b k

theorem Follows.refl (s : Store) : Follows w b k s s := .inl rfl

/-- The handle that makes a call takes over nothing about a key that the call
spares but what the file says, whether the call saves its edits or not. -/
theorem handle_spared {c : StoreCall} (h : c.Spares w b k) :
    Follows w b k s (c.exec ce env s w).1.2 := by
  obtain ⟨hhandle, -, hcached⟩ := exec_saving c s w
  rw [hhandle]
  rcases hcached with hsame | hfile
  · exact .inl (congrArg (Index.history · b k) hsame)
  · have hkept : (c.exec ce env.saving s w).2.historyOf b k = w.historyOf b k :=
      historyOf_spared h
    refine .inr ?_
    rw [← hkept]
    unfold World.historyOf
    rw [hfile]

/-! ## Headers -/

theorem toStr_eq_some {v v' : String} (h : toStr v = some v') :
    v' = v ∧ v.toList.all isHeaderText = true := by
  unfold toStr at h
  split at h
  next htext => exact ⟨(Option.some.inj h).symm, htext⟩
  next => exact nomatch h

theorem headerStr_text {name v : String} (h : req.headerStr name = some v) :
    v.toList.all isHeaderText = true := by
  obtain ⟨p, -, hp⟩ := Option.bind_eq_some_iff.mp h
  obtain ⟨rfl, htext⟩ := toStr_eq_some hp
  exact htext

section
variable {map : ExtTreeMap String String} {name value a : String}

theorem isHeaderChar_of_text {c : Char} (h : isHeaderText c = true) : isHeaderChar c = true := by
  simp only [isHeaderText, isHeaderChar, Bool.or_eq_true, Bool.and_eq_true, decide_eq_true_eq,
    bne_iff_ne, beq_iff_eq] at h ⊢
  omega

theorem insertStr_text (h : value.toList.all isHeaderText = true) :
    insertStr map name value = map.insert name value := by
  refine if_pos (List.all_eq_true.mpr fun c hc => ?_)
  exact isHeaderChar_of_text (List.all_eq_true.mp h c hc)

theorem insertStr_other (h : name ≠ a) : (insertStr map name value)[a]? = map[a]? := by
  unfold insertStr
  split
  · exact get_insert_ne h
  · rfl

theorem insertOpt_other {value : Option String} (h : name ≠ a) :
    (insertOpt map name value)[a]? = map[a]? := by
  cases value with
  | none => rfl
  | some v => exact insertStr_other h

theorem insertOpt_self {value : Option String} (hnew : map[name]? = none)
    (htext : ∀ v, value = some v → v.toList.all isHeaderText = true) :
    (insertOpt map name value)[name]? = value := by
  cases value with
  | none => exact hnew
  | some v =>
    unfold insertOpt
    dsimp only
    rw [insertStr_text (htext v rfl), get_insert_self]

end

/-! ### User metadata -/

/-- The names and values of the metadata go into headers as they are. -/
def Plain (metadata : List (String × String)) : Prop :=
  ∀ p ∈ metadata, headerName (metaPrefix ++ p.1) = some (metaPrefix ++ p.1) ∧
    p.2.toList.all isHeaderText = true

/-- One entry of the metadata becomes a header. -/
def metaHeader (map : ExtTreeMap String String) (p : String × String) : ExtTreeMap String String :=
  match headerName (metaPrefix ++ p.1) with
  | some name => insertStr map name p.2
  | none => map

theorem metaHeader_plain {p : String × String} (map : ExtTreeMap String String)
    (h : headerName (metaPrefix ++ p.1) = some (metaPrefix ++ p.1) ∧
      p.2.toList.all isHeaderText = true) :
    metaHeader map p = map.insert (metaPrefix ++ p.1) p.2 := by
  unfold metaHeader
  rw [h.1]
  exact insertStr_text h.2

theorem metaHeaders_other {metadata : List (String × String)} (h : Plain metadata) {a : String}
    (ha : ∀ p ∈ metadata, metaPrefix ++ p.1 ≠ a) (map : ExtTreeMap String String) :
    (metadata.foldl metaHeader map)[a]? = map[a]? := by
  induction metadata generalizing map with
  | nil => rfl
  | cons p rest ih =>
    rw [List.foldl_cons, ih (fun q hq => h q (List.mem_cons_of_mem p hq))
      (fun q hq => ha q (List.mem_cons_of_mem p hq)), metaHeader_plain map (h p List.mem_cons_self),
      get_insert_ne (ha p List.mem_cons_self)]

theorem metaPrefix_inj {k k' : String} (h : metaPrefix ++ k = metaPrefix ++ k') : k = k' := by
  have hl := congrArg String.toList h
  rw [String.toList_append, String.toList_append] at hl
  exact String.toList_injective (List.append_cancel_left hl)

theorem metaHeaders_self {metadata : List (String × String)} (h : Plain metadata)
    (hkeys : metadata.Pairwise fun p q => p.1 < q.1) {p : String × String} (hp : p ∈ metadata)
    (map : ExtTreeMap String String) :
    (metadata.foldl metaHeader map)[metaPrefix ++ p.1]? = some p.2 := by
  induction metadata generalizing map with
  | nil => exact nomatch hp
  | cons q rest ih =>
    obtain ⟨hq, hrest⟩ := List.pairwise_cons.mp hkeys
    have hplain : Plain rest := fun r hr => h r (List.mem_cons_of_mem q hr)
    rw [List.foldl_cons]
    rcases List.mem_cons.mp hp with rfl | hmem
    · -- no later entry has its key
      rw [metaHeaders_other hplain, metaHeader_plain map (h p List.mem_cons_self), get_insert_self]
      intro r hr heq
      exact absurd (metaPrefix_inj heq) (ne_of_gt (hq r hr))
    · exact ih hplain hrest hmem _

/-- Headers of user metadata are exactly its entries. -/
theorem insertMetadata_get {metadata : UserMetadata} (h : Plain metadata.toList)
    {map : ExtTreeMap String String} {k : String} (hnew : map[metaPrefix ++ k]? = none) :
    (insertMetadata map metadata)[metaPrefix ++ k]? = metadata[k]? := by
  have hfold : insertMetadata map metadata = metadata.toList.foldl metaHeader map := rfl
  rw [hfold]
  cases hk : metadata[k]? with
  | some v =>
    have hmem : (k, v) ∈ metadata.toList := ExtTreeMap.mem_toList_iff_getElem?_eq_some.mpr hk
    exact metaHeaders_self h toList_sorted hmem map
  | none =>
    rw [metaHeaders_other h, hnew]
    intro p hp heq
    have hget : metadata[p.1]? = some p.2 := ExtTreeMap.mem_toList_iff_getElem?_eq_some.mp hp
    rw [metaPrefix_inj heq, hk] at hget
    exact nomatch hget

/-- User metadata touches no other header, whatever its keys are. -/
theorem insertMetadata_other (metadata : UserMetadata) (map : ExtTreeMap String String) {a : String}
    (ha : a.toList.head? ≠ some 'x') : (insertMetadata map metadata)[a]? = map[a]? := by
  have hone : ∀ (map : ExtTreeMap String String) (p : String × String),
      (metaHeader map p)[a]? = map[a]? := by
    intro map p
    unfold metaHeader
    split
    next name hname =>
      refine insertStr_other ?_
      rintro rfl
      unfold headerName at hname
      split at hname
      · cases hname
        rw [String.toList_ofList, String.toList_append] at ha
        exact ha rfl
      · exact nomatch hname
    next => rfl
  show (metadata.toList.foldl metaHeader map)[a]? = map[a]?
  induction metadata.toList generalizing map with
  | nil => rfl
  | cons p rest ih => rw [List.foldl_cons, ih, hone]

theorem stripPrefix_some {s p k : String} (h : Str.stripPrefix s p = some k) : s = p ++ k := by
  unfold Str.stripPrefix at h
  split at h
  next hstart =>
    obtain ⟨rest, hrest⟩ := List.isPrefixOf_iff_prefix.mp hstart
    cases h
    rw [← String.toList_inj, String.toList_append, String.toList_ofList, ← hrest,
      List.drop_left]
  next => exact nomatch h

/-- The header names of a request are names, in lower case. -/
def HttpRequest.Named (req : HttpRequest) : Prop :=
  ∀ h ∈ req.headers, headerName h.1 = some h.1

/-- One header of a request adds to its user metadata. -/
def collectMeta (m : UserMetadata) (h : String × String) : UserMetadata :=
  match Str.stripPrefix h.1 metaPrefix, toStr h.2 with
  | some k, some v => m.insert k v
  | _, _ => m

/-- A key and a value that go into a header as they are. -/
def PlainEntry (k v : String) : Prop :=
  headerName (metaPrefix ++ k) = some (metaPrefix ++ k) ∧ v.toList.all isHeaderText = true

theorem collectMeta_plain {m : UserMetadata} {h : String × String}
    (hname : headerName h.1 = some h.1) (hm : ∀ k v, m[k]? = some v → PlainEntry k v) :
    ∀ k v, (collectMeta m h)[k]? = some v → PlainEntry k v := by
  intro k v hkv
  unfold collectMeta at hkv
  split at hkv
  next k' v' hk' hv' =>
    rw [get_insert] at hkv
    by_cases hk : k' = k
    · rw [if_pos hk] at hkv
      cases hkv
      subst hk
      obtain ⟨rfl, htext⟩ := toStr_eq_some hv'
      unfold PlainEntry
      rw [← stripPrefix_some hk']
      exact ⟨hname, htext⟩
    · rw [if_neg hk] at hkv
      exact hm k v hkv
  next => exact hm k v hkv

/-- The user metadata of a request goes into headers as it is. -/
theorem extractUserMetadata_plain (h : req.Named) : Plain (extractUserMetadata req).toList := by
  have hall : ∀ (l : List (String × String)) (m : UserMetadata),
      (∀ h ∈ l, headerName h.1 = some h.1) → (∀ k v, m[k]? = some v → PlainEntry k v) →
      ∀ k v, (l.foldl collectMeta m)[k]? = some v → PlainEntry k v := by
    intro l
    induction l with
    | nil => exact fun m _ hm => hm
    | cons q rest ih =>
      intro m hl hm
      exact ih _ (fun r hr => hl r (List.mem_cons_of_mem q hr))
        (collectMeta_plain (hl q List.mem_cons_self) hm)
  intro p hp
  exact hall req.headers ∅ h (fun k v hkv => nomatch hkv) p.1 p.2
    (ExtTreeMap.mem_toList_iff_getElem?_eq_some.mp hp)

/-! ## What is read back -/

/-- The response gives back what the request put. -/
structure Response.ReadsBack (ce : CeRs) (put : HttpRequest) (r : Response) : Prop where
  status : r.status = 200
  body : r.body = .bytes put.body
  etag : toStr (ce.objectCid put.body) = some (ce.objectCid put.body) →
    r.headers["etag"]? = some s!"\"{ce.objectCid put.body}\""
  contentType : r.headers["content-type"]? = some (putOptions put).recordedType
  cacheControl : r.headers["cache-control"]? = put.headerStr "cache-control"
  contentDisposition : r.headers["content-disposition"]? = put.headerStr "content-disposition"
  contentEncoding : r.headers["content-encoding"]? = put.headerStr "content-encoding"
  metadata : ∀ k, r.headers[metaPrefix ++ k]? = (extractUserMetadata put)[k]?

theorem contentType_text (put : HttpRequest) :
    (putOptions put).recordedType.toList.all isHeaderText = true := by
  unfold PutOptions.recordedType putOptions Gateway.contentTypeOf
  dsimp only
  split
  · decide
  · cases hct : put.headerStr "content-type" with
    | none => decide
    | some v => exact headerStr_text hct

theorem metaPrefix_ne {a : String} (h : a.toList.head? ≠ some 'x') (k : String) :
    metaPrefix ++ k ≠ a := by
  rintro rfl
  rw [String.toList_append] at h
  exact h rfl

theorem quoted_text {v : String} (h : v.toList.all isHeaderText = true) :
    s!"\"{v}\"".toList.all isHeaderText = true := by
  have hl : s!"\"{v}\"".toList = '"' :: (v.toList ++ ['"']) := by
    simp [toString, String.toList_append]
  rw [hl, List.all_cons, List.all_append, h]
  rfl

/-- The headers of a get, less the user metadata. -/
def systemHeaders (res : GetResult) : ExtTreeMap String String :=
  let map := insertStr ∅ "content-type" res.contentType
  let map := insertStr map "etag" s!"\"{res.etag}\""
  let map := insertStr map "accept-ranges" "bytes"
  let map := insertStr map "last-modified" (toString res.lastModified)
  let map := insertOpt map "cache-control" res.cacheControl
  let map := insertOpt map "content-disposition" res.contentDisposition
  insertOpt map "content-encoding" res.contentEncoding

/-- A full get answers with the bytes and all headers. -/
theorem getResponse_full (m : ObjectMeta) (bytes : Bytes) :
    Gateway.getResponse (Store.resultFrom m bytes none)
      = { status := 200, body := .bytes bytes
          headers := insertMetadata (systemHeaders (Store.resultFrom m bytes none)) m.metadata } :=
  rfl

theorem getResponse_readsBack {put : HttpRequest} (hnamed : put.Named) (t : Nat) :
    (Gateway.getResponse (Store.resultFrom
      (putMeta (ce.objectCid put.body) put.body (putOptions put) t) put.body none)).ReadsBack
      ce put := by
  have hplain := extractUserMetadata_plain hnamed
  rw [getResponse_full]
  unfold systemHeaders Store.resultFrom putMeta ObjectMeta.new
  dsimp only
  refine ⟨rfl, rfl, ?_, ?_, ?_, ?_, ?_, ?_⟩
  · intro hcid
    rw [insertMetadata_other _ _ (by decide)]
    simp (disch := decide) only [insertOpt_other, insertStr_other]
    rw [insertStr_text (quoted_text (toStr_eq_some hcid).2), get_insert_self]
  · rw [insertMetadata_other _ _ (by decide)]
    simp (disch := decide) only [insertOpt_other, insertStr_other]
    rw [insertStr_text (contentType_text put), get_insert_self]
  · rw [insertMetadata_other _ _ (by decide)]
    simp (disch := decide) only [insertOpt_other]
    refine insertOpt_self ?_ fun v hv => headerStr_text hv
    simp (disch := decide) only [insertStr_other]
    rfl
  · rw [insertMetadata_other _ _ (by decide)]
    simp (disch := decide) only [insertOpt_other]
    refine insertOpt_self ?_ fun v hv => headerStr_text hv
    simp (disch := decide) only [insertOpt_other, insertStr_other]
    rfl
  · rw [insertMetadata_other _ _ (by decide)]
    refine insertOpt_self ?_ fun v hv => headerStr_text hv
    simp (disch := decide) only [insertOpt_other, insertStr_other]
    rfl
  · intro k
    refine insertMetadata_get hplain ?_
    have hne : ∀ a : String, a.toList.head? ≠ some 'x' → a ≠ metaPrefix ++ k :=
      fun a ha heq => metaPrefix_ne ha k heq.symm
    rw [insertOpt_other (hne _ (by decide)), insertOpt_other (hne _ (by decide)),
      insertOpt_other (hne _ (by decide)), insertStr_other (hne _ (by decide)),
      insertStr_other (hne _ (by decide)), insertStr_other (hne _ (by decide)),
      insertStr_other (hne _ (by decide))]
    rfl

/-! ## The put -/

/-- A put that succeeds binds the key in the file and in the handle. -/
theorem putObjectOpts_binds {bytes : Bytes} {opts : PutOptions} {v : Value}
    (h : ((StoreCall.putObjectOpts b k bytes opts).exec ce env s w).1.1 = .ok v) :
    ∃ cid j, env.putObject bytes = .ok cid ∧ j.head b k = .ok (putMeta cid bytes opts env.now) ∧
      ((StoreCall.putObjectOpts b k bytes opts).exec ce env s w).1.2.index = j ∧
      Index.decode (((StoreCall.putObjectOpts b k bytes opts).exec ce env s w).2.files .index)
        = .ok j ∧
      ((StoreCall.putObjectOpts b k bytes opts).exec ce env s w).2.blobs
        = (w.setBlobs (objectBlobs ce bytes cid)).blobs := by
  rcases putObjectOpts_cases ce env b k bytes opts s w with
    ⟨⟨e, he⟩, -⟩ | ⟨cid, i, j, hput, hi, -, hj, hr, hf, hb⟩
  · exact nomatch h.symm.trans he
  have hfile : ((StoreCall.putObjectOpts b k bytes opts).exec ce env s w).2.files .index
      = some (.index j) := by
    rw [hf, Function.update_self]
  -- the handle keeps the index that the plan saves
  have hplan : (StoreCall.putObjectOpts b k bytes opts).plan ce env = some _ := rfl
  rcases indexCall_cases hplan s w with ⟨hsame, hr'⟩ | ⟨i', j', a, -, -, -, hs, hf', -⟩
  · rcases hr' with ⟨e, he⟩ | ⟨i', a, -, hkeep, -⟩
    · exact nomatch h.symm.trans he
    · rcases putDecision_cases ce env b k bytes opts i' with ⟨e, hdec⟩ | ⟨cid', -, -, -, hdec⟩
      · rw [hdec] at hkeep
        exact nomatch hkeep
      · rw [hdec] at hkeep
        exact nomatch hkeep
  · have hjj : j' = j := by
      rw [hf', Function.update_self] at hfile
      cases hfile
      rfl
    refine ⟨cid, j, hput, Index.head_put hj, hs.trans hjj, ?_, hb⟩
    rw [hfile]
    exact Index.decode_put hi hj

theorem call_plainPut {put : HttpRequest} (htarget : put.target w = some (b, k))
    (hplain : put.isPlainPut = true) (hbody : ¬gw.bodyLimit < put.body.length) :
    put.call gw = some (.putObjectOpts b k put.body (putOptions put)) := by
  unfold HttpRequest.isPlainPut at hplain
  rw [Bool.and_eq_true, beq_iff_eq, Option.isNone_iff_eq_none] at hplain
  obtain ⟨hmethod, hcopy⟩ := hplain
  unfold HttpRequest.target at htarget
  unfold HttpRequest.call HttpRequest.putCall
  rw [hmethod] at htarget ⊢
  cases hpath : put.path with
  | root =>
    rw [hpath] at htarget
    exact nomatch htarget
  | bucket b' =>
    rw [hpath] at htarget
    exact nomatch htarget
  | object b' k' =>
    rw [hpath] at htarget
    dsimp only at htarget ⊢
    rw [if_neg hbody, hcopy]
    split at htarget
    next => exact nomatch htarget
    next hpart =>
      cases htarget
      cases hpn : put.query["partNumber"]? with
      | none => rfl
      | some pn =>
        cases huid : put.query["uploadId"]? with
        | none => rfl
        | some uid => exact absurd huid (hpart pn uid hpn)

/-- A PutObject that is answered with 200 is a put that succeeds. -/
theorem plainPut_makes {put : HttpRequest} (htarget : put.target w = some (b, k))
    (hplain : put.isPlainPut = true) (h : (serve ce gw put env s w).response.status = 200) :
    put.makes ce gw env.now = some (.putObjectOpts b k put.body (putOptions put)) ∧
      ∃ v, ((StoreCall.putObjectOpts b k put.body (putOptions put)).exec ce env s w).1.1
        = .ok v := by
  rw [serve_eq] at h
  unfold HttpRequest.makes
  rw [route_plainPut put htarget hplain] at h ⊢
  unfold Gateway.withBody at h ⊢
  by_cases hbody : gw.bodyLimit < put.body.length
  · rw [if_pos hbody] at h
    exact nomatch h
  rw [if_neg hbody] at h ⊢
  unfold Gate.cleared at h ⊢
  cases hauth : gw.authorize put env.now ⟨abilityWrite, b, k⟩ with
  | error r =>
    rw [hauth] at h
    exact absurd (h.symm.trans (authorize_error hauth)) (by decide)
  | ok u =>
    rw [hauth] at h
    refine ⟨call_plainPut htarget hplain hbody, ?_⟩
    have his : (StoreCall.putObjectOpts b k put.body (putOptions put)).Is ce
        (fun self => self.putObjectOpts b k put.body (putOptions put)) .storage .object :=
      is_object fun _ => rfl
    rw [his.exec]
    rcases hr : (s.putObjectOpts b k put.body (putOptions put)).exec ce env s w with
      ⟨⟨e | m, s'⟩, w'⟩
    · have hrun : ((Gateway.putPlain b k put).run ce gw put env s w).response.status = 200 := h
      rw [(putPlain_run gw put put hr).1] at hrun
      exact absurd hrun storageErr_status
    · exact ⟨.object m, rfl⟩

/-! ## Runs -/

namespace Serving

/-- The event spares `k` in `b`, and its blob store answers with the CIDs of what it
is given. -/
def Sparing (ce : CeRs) (gw : Gateway) (b k : String) (x : Serving) (event : ServingEvent) : Prop :=
  ∀ e, event.makes ce gw x = some e → e.env.Truthful ce ∧ e.call.Spares x.world b k

/-- The key has the history `entry`, in the file and in the handle of the gateway,
and the content of `m` is stored. -/
structure Keeping (ce : CeRs) (b k : String) (entry : ObjectEntry) (m : ObjectMeta)
    (bytes : Bytes) (x : Serving) : Prop where
  file : x.world.historyOf b k = some entry
  handle : x.store.index.history b k = some entry
  addressed : Addressed ce x.world
  content : ContentOf ce x.world m bytes

variable {entry : ObjectEntry} {m : ObjectMeta} {bytes : Bytes} {x x' : Serving}

/-- The handle of the gateway takes over nothing about a key that an event spares
but what the file says. -/
theorem fire_follows {event : ServingEvent} (hok : Sparing ce gw b k x event)
    (hf : fire ce gw event x = some x') : Follows x.world b k x.store x'.store := by
  cases event with
  | elsewhere self env c =>
    cases hf
    exact .refl x.store
  | request req env =>
    have hserve := serve_makes ce gw req env x.store x.world
    have hs : x'.store = (serve ce gw req env x.store x.world).store := by
      cases hf
      rfl
    rw [hs]
    cases hc : req.makes ce gw env.now with
    | none =>
      rw [hc] at hserve
      rw [hserve.1]
      exact .refl x.store
    | some c =>
      rw [hc] at hserve
      rw [hserve.1]
      have hmakes : (ServingEvent.request req env).makes ce gw x = some ⟨x.store, env, c⟩ := by
        unfold ServingEvent.makes
        dsimp only
        rw [hc]
        rfl
      exact handle_spared (hok _ hmakes).2

/-- An event that spares the key keeps what is known of it. -/
theorem fire_keeping (hce : ce.Lawful) {event : ServingEvent}
    (h : Keeping ce b k entry m bytes x) (hok : Sparing ce gw b k x event)
    (hf : fire ce gw event x = some x') : Keeping ce b k entry m bytes x' := by
  have hhandle : x'.store.index.history b k = some entry := by
    rcases fire_follows hok hf with hs | hs
    · exact hs.trans h.handle
    · exact hs.trans h.file
  have hworld := fire_world hf
  cases hmakes : event.makes ce gw x with
  | none =>
    rw [hmakes] at hworld
    dsimp only at hworld
    refine ⟨?_, hhandle, ?_, ?_⟩ <;> rw [hworld]
    · exact h.file
    · exact h.addressed
    · exact h.content
  | some e =>
    rw [hmakes] at hworld
    dsimp only at hworld
    obtain ⟨henv, hspares⟩ := hok e hmakes
    obtain ⟨haddr, hgrow⟩ := e.call.exec_blobs (s := e.handle) hce henv h.addressed
    refine ⟨?_, hhandle, ?_, ?_⟩ <;> rw [hworld]
    · exact (historyOf_spared hspares).trans h.file
    · exact haddr
    · exact h.content.mono hgrow

/-- After a PutObject that is answered with 200. -/
theorem put_keeping (hce : ce.Lawful) (haddr : Addressed ce x.world) {put : HttpRequest}
    (henv : env.Truthful ce) (htarget : put.target x.world = some (b, k))
    (hplain : put.isPlainPut = true)
    (h : (serve ce gw put env x.store x.world).response.status = 200)
    (hf : fire ce gw (.request put env) x = some x') :
    ∃ entry v, entry.current = some v ∧ v.isDeleteMarker = false ∧
      v.meta = putMeta (ce.objectCid put.body) put.body (putOptions put) env.now ∧
      Keeping ce b k entry v.meta put.body x' := by
  obtain ⟨hmakes, v, hv⟩ := plainPut_makes htarget hplain h
  obtain ⟨cid, j, hput, hhead, hindex, hdecode, hblobs⟩ := putObjectOpts_binds hv
  have hserve := serve_makes ce gw put env x.store x.world
  rw [hmakes] at hserve
  obtain ⟨hs, hw⟩ := hserve
  have hs' : x'.store = (serve ce gw put env x.store x.world).store := by
    cases hf
    rfl
  have hw' : x'.world = (serve ce gw put env x.store x.world).world := by
    cases hf
    rfl
  have hcontent : ContentOf ce x'.world (putMeta cid put.body (putOptions put) env.now) put.body :=
    putMeta_content hce henv haddr hput (by rw [hw', hw, hblobs]) env.now
  have hcid : cid = ce.objectCid put.body := hcontent.cid
  subst hcid
  obtain ⟨entry, v, hhistory, hcurrent, hmarker, hmeta⟩ := Index.head_eq_ok.mp hhead
  refine ⟨entry, v, hcurrent, hmarker, hmeta, ?_, ?_, ?_, ?_⟩
  · rw [hw', hw]
    unfold World.historyOf
    rw [hdecode]
    exact hhistory
  · rw [hs', hs, hindex]
    exact hhistory
  · rw [hw', hw]
    exact ((StoreCall.putObjectOpts b k put.body (putOptions put)).exec_blobs hce henv haddr).1
  · rw [hmeta]
    exact hcontent

/-- A full GET of a key whose head it can fetch. -/
theorem get_full {get : HttpRequest} {full : Bytes} (hpath : get.path = .object b k)
    (hmethod : get.method = .get) (hversion : get.query["versionId"]? = none)
    (hrange : get.headerStr "range" = none)
    (hauth : gw.authorize get env.now ⟨abilityRead, b, k⟩ = .ok ())
    (hm : s.index.head b k = .ok m) (hcond : (extractPreconditions get).Allows m)
    (hfetch : env.getObject m.cid = .ok full) :
    (serve ce gw get env s w).response = Gateway.getResponse (Store.resultFrom m full none) := by
  have hroute : Gateway.route ce gw get = Gateway.getObject ce b k get := by
    unfold Gateway.route
    rw [hpath, hmethod]
  have hmeta : s.metaFor b k none = .ok m := mapError_eq_ok.mpr hm
  unfold serve
  rw [hroute]
  refine (Gate.run_check hauth).1.trans ?_
  rw [hrange, hversion]
  unfold Gate.run Store.getObjectOpts
  dsimp only
  rw [exec_bind_ok exec_self, hmeta, exec_bind_ok (exec_lift _),
    Preconditions.checkRead_iff.mpr hcond, exec_bind_ok (exec_lift _)]
  unfold Act.blob
  rw [exec_bind, exec_bind_ok (exec_call _), exec_lift]
  dsimp only [perform]
  rw [hfetch]
  rfl

/-- **What was put is read back.** After a PutObject answered with 200, and any run
of requests and of calls of other processes that spare the key, a full GET of the
key that is let through, by its own conditions too, while the node serves the blobs
that it has, is answered with the bytes, the headers and the user metadata of the
PutObject. -/
theorem put_then_get (ce : CeRs) (hce : ce.Lawful) (gw : Gateway) (x₀ : Serving)
    (haddr : Addressed ce x₀.world) (put : HttpRequest) (hnamed : put.Named) (env₀ : Env)
    (henv₀ : env₀.Truthful ce) (b k : String) (htarget : put.target x₀.world = some (b, k))
    (hplain : put.isPlainPut = true)
    (hok : (serve ce gw put env₀ x₀.store x₀.world).response.status = 200) (x₁ x : Serving)
    (hx₁ : fire ce gw (.request put env₀) x₀ = some x₁)
    (hx : Reach (fire ce gw) (Sparing ce gw b k) x₁ x) (get : HttpRequest) (env : Env)
    (hpath : get.path = .object b k) (hmethod : get.method = .get)
    (hversion : get.query["versionId"]? = none) (hrange : get.headerStr "range" = none)
    (hauth : gw.authorize get env.now ⟨abilityRead, b, k⟩ = .ok ())
    (hcond : (extractPreconditions get).Allows
      (putMeta (ce.objectCid put.body) put.body (putOptions put) env₀.now))
    (hserves : ∀ cid bytes, ce.readObject x.world cid = some bytes →
      env.getObject cid = .ok bytes) :
    (serve ce gw get env x.store x.world).response.ReadsBack ce put := by
  obtain ⟨entry, v, hcurrent, hmarker, hmeta, hput⟩ :=
    put_keeping hce haddr henv₀ htarget hplain hok hx₁
  have hkeep : Keeping ce b k entry v.meta put.body x :=
    hx.inv hput fun y event y' _ hI hspare hf => fire_keeping hce hI hspare hf
  have hhead : x.store.index.head b k = .ok v.meta :=
    Index.head_eq_ok.mpr ⟨entry, v, hkeep.handle, hcurrent, hmarker, rfl⟩
  have hfetch := hserves _ _ (hkeep.content.read hce)
  rw [get_full hpath hmethod hversion hrange hauth hhead (hmeta ▸ hcond) hfetch, hmeta]
  exact getResponse_readsBack hnamed env₀.now

/-! A photo is put with user metadata; another process puts another key, and a
request deletes a third. -/

private def anyone : Gateway := ⟨none, 1000⟩

private def toPhotos (method : Method) (key : String) (headers : List (String × String))
    (body : Bytes) : HttpRequest :=
  { method, path := .object "photos" key, headers, query := ∅, body }

private def putPhoto : HttpRequest :=
  toPhotos .put "cat" [("content-type", "image/png"), ("x-amz-meta-owner", "ada")] [1, 2, 3]

private def withBucket : Serving :=
  start (.fresh 1)
    (World.blank.setFile .index (some (.index (Index.empty.makeBucket "photos" 1).2)))

private def photoPut : Serving :=
  (fire CeRs.plain anyone (.request putPhoto (Env.calm CeRs.plain 5 "u")) withBucket).getD
    withBucket

private def otherKeys : List ServingEvent :=
  [.elsewhere (.fresh 2) (Env.calm CeRs.plain 6 "v") (.putObjectOpts "photos" "dog" [4] {}),
    .request (toPhotos .delete "bird" [] []) (Env.calm CeRs.plain 7 "w")]

private def afterOthers : Serving := (play (fire CeRs.plain anyone) otherKeys photoPut).getD photoPut

/-- An environment that serves the blobs of a world. -/
private def serving (w : World) : Env :=
  { Env.calm CeRs.plain 8 "x" with
    getObject := fun cid =>
      match CeRs.plain.readObject w cid with
      | some bytes => .ok bytes
      | none => .error "not found" }

private theorem afterOthers_reach :
    Reach (fire CeRs.plain anyone) (Sparing CeRs.plain anyone "photos" "cat") photoPut
      afterOthers := by
  refine reach_along_getD ⟨?_, fun y hy => ⟨?_, fun _ _ => trivial⟩⟩ rfl
  · intro e he
    cases he
    exact ⟨calm_truthful _ _ _, show ¬("photos" = "photos" ∧ "dog" = "cat") by decide⟩
  · intro e he
    unfold ServingEvent.makes at he
    obtain ⟨c, hc, rfl⟩ := Option.map_eq_some_iff.mp he
    obtain rfl : StoreCall.deleteObject "photos" "bird" = c :=
      Option.some.inj (HttpRequest.call_of_makes hc)
    exact ⟨calm_truthful _ _ _, show ¬("photos" = "photos" ∧ "bird" = "cat") by decide⟩

theorem put_then_get_photo :
    (serve CeRs.plain anyone (toPhotos .get "cat" [] []) (serving afterOthers.world)
      afterOthers.store afterOthers.world).response.ReadsBack CeRs.plain putPhoto := by
  refine put_then_get CeRs.plain CeRs.plain_lawful anyone withBucket (fun _ _ h => nomatch h)
    putPhoto ?_ (Env.calm CeRs.plain 5 "u") (calm_truthful _ _ _) "photos" "cat" rfl rfl rfl photoPut
    afterOthers rfl afterOthers_reach _ _ rfl rfl rfl rfl rfl ?_ ?_
  · show ∀ h ∈ putPhoto.headers, headerName h.1 = some h.1
    decide
  · exact Preconditions.checkRead_iff.mp rfl
  · intro cid bytes h
    unfold serving
    dsimp only
    rw [h]

end Serving

end CeStorage
