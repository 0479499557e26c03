import CeStorage.Gateway.Checks
import CeStorage.Store.Apart

/-!
# Conditional writes

Three requests bind a key: PutObject, CopyObject and CompleteMultipartUpload.
`Preconditions.Holds` is what the headers of a conditional request are documented to
ask of the current object. A PutObject is held to `If-Match` and `If-None-Match`
but not to `If-Unmodified-Since`, and the other two are held to nothing; so a
request that would bind its key is refused where a condition fails exactly if it
is `Enforced` (`conditional_write_iff`).
-/

namespace CeStorage

open Lib
open Std (ExtTreeMap)

/-! ## Conditions -/

namespace Preconditions

/-- `If-Match`: there is an object, and the header is `*` or its etag. -/
def MatchHolds (self : Preconditions) (current : Option ObjectMeta) : Prop :=
  ∀ m, self.ifMatch = some m → ∃ o, current = some o ∧ (m = "*" ∨ unquote m = o.etag)

/-- `If-None-Match`: there is no object, or the header is neither `*` nor its etag. -/
def NoneMatchHolds (self : Preconditions) (current : Option ObjectMeta) : Prop :=
  ∀ m, self.ifNoneMatch = some m → ∀ o, current = some o → m ≠ "*" ∧ unquote m ≠ o.etag

/-- `If-Unmodified-Since`: no object was modified after it. -/
def UnmodifiedHolds (self : Preconditions) (current : Option ObjectMeta) : Prop :=
  ∀ t, self.ifUnmodifiedSince = some t → ∀ o, current = some o → o.lastModified ≤ t

/-- The documented condition of each header of a write that is present; `current` is
the object at the key, if there is one. -/
structure Holds (p : Preconditions) (current : Option ObjectMeta) : Prop where
  ifMatch : p.MatchHolds current
  ifNoneMatch : p.NoneMatchHolds current
  ifUnmodifiedSince : p.UnmodifiedHolds current

/-- Where a write is refused if a condition fails: a put on which `If-Unmodified-Since`
does not fail alone; a copy or a completion on which nothing fails. -/
def Enforced (self : Preconditions) (plainPut : Bool) (current : Option ObjectMeta) : Prop :=
  if plainPut then
    self.MatchHolds current → self.NoneMatchHolds current → self.UnmodifiedHolds current
  else self.Holds current

variable {p : Preconditions} {current : Option ObjectMeta}

/-- The check of a put is of the two headers that name etags. -/
theorem checkWrite_iff : p.checkWrite (current.map (·.etag)) = .ok () ↔
    p.MatchHolds current ∧ p.NoneMatchHolds current := by
  unfold checkWrite MatchHolds NoneMatchHolds
  cases p.ifNoneMatch <;> cases p.ifMatch <;> cases current <;> simp <;> grind

end Preconditions

/-! ## Requests without their conditions -/

def conditionalHeaders : List String :=
  ["if-match", "if-none-match", "if-modified-since", "if-unmodified-since"]

namespace HttpRequest

/-- The request without its conditional headers. -/
def unconditional (req : HttpRequest) : HttpRequest :=
  { req with headers := req.headers.filter fun h => !conditionalHeaders.contains h.1 }

variable {req : HttpRequest}

theorem headerStr_unconditional (name : String) (h : name ∉ conditionalHeaders) :
    req.unconditional.headerStr name = req.headerStr name := by
  unfold headerStr unconditional
  dsimp only
  rw [List.find?_filter]
  congr 2
  funext x
  by_cases hx : x.1 = name
  · simp [hx, h]
  · simp [hx]

theorem headerStr_conditional (name : String) (h : name ∈ conditionalHeaders) :
    req.unconditional.headerStr name = none := by
  unfold headerStr unconditional
  dsimp only
  rw [List.find?_filter, List.find?_eq_none.mpr]
  · rfl
  · intro x _
    by_cases hx : x.1 = name
    · simp [hx, h]
    · simp [hx]

theorem extractPreconditions_unconditional : extractPreconditions req.unconditional = {} := by
  unfold extractPreconditions
  rw [headerStr_conditional "if-match" (by decide),
    headerStr_conditional "if-none-match" (by decide)]
  simp only [headerStr_conditional "if-modified-since" (by decide),
    headerStr_conditional "if-unmodified-since" (by decide)]
  rfl

/-- No conditional header is user metadata. -/
theorem extractUserMetadata_unconditional :
    extractUserMetadata req.unconditional = extractUserMetadata req := by
  unfold extractUserMetadata unconditional
  dsimp only
  rw [List.foldl_filter]
  congr 1
  funext m h
  split
  next => rfl
  next hcond =>
    have hname : h.1 ∈ conditionalHeaders := by
      rw [Bool.not_eq_true, Bool.not_eq_false', List.contains_iff_mem] at hcond
      exact hcond
    have hstrip : ∀ name ∈ conditionalHeaders, Str.stripPrefix name metaPrefix = none := by decide
    rw [hstrip h.1 hname]

end HttpRequest

theorem authorize_unconditional (gw : Gateway) (req : HttpRequest) (now : Nat) (g : Grant) :
    gw.authorize req.unconditional now g = gw.authorize req now g := by
  unfold Gateway.authorize
  rw [HttpRequest.headerStr_unconditional headerCap (by decide),
    HttpRequest.headerStr_unconditional headerRequester (by decide)]
  rfl

/-- A handler reads a request through its checks only. -/
theorem Gate.run_congr {ce : CeRs} {gw : Gateway} {req req' : HttpRequest} {env : Env} {s : Store}
    {w : World} (h : ∀ g, gw.authorize req' env.now g = gw.authorize req env.now g) (x : Gate) :
    x.run ce gw req' env s w = x.run ce gw req env s w := by
  induction x with
  | answer r => rfl
  | check g next ih =>
    unfold run
    rw [h g]
    cases gw.authorize req env.now g with
    | error r => rfl
    | ok u =>
      dsimp only
      rw [ih]
  | call op respond => rfl
  | read x respond => rfl

/-! ## PutObject -/

section
variable {ce : CeRs} {env : Env} {s : Store} {w : World} {b k : String} {bytes : Bytes}
  {opts : PutOptions}

/-- A put that would succeed without its conditions is refused by them, and then
changes nothing, or succeeds as it would have. -/
theorem put_conditional {m : ObjectMeta}
    (hbase : ((s.putObjectOpts b k bytes { opts with preconditions := {} }).exec ce env s w).1.1
      = .ok m) :
    ∃ i, Index.decode (w.files .index) = .ok i ∧
      (s.putObjectOpts b k bytes opts).exec ce env s w
        = match putCondition i b k opts with
          | .error e => ((.error e, { s with index := i }), w)
          | .ok () =>
            (s.putObjectOpts b k bytes { opts with preconditions := {} }).exec ce env s w := by
  rw [putObjectOpts_exec] at hbase
  rw [putObjectOpts_exec, putObjectOpts_exec]
  have hcheck : putCheck s.maxObjectSize k bytes { opts with preconditions := {} }
      = putCheck s.maxObjectSize k bytes opts := rfl
  rw [hcheck] at hbase ⊢
  cases hc : putCheck s.maxObjectSize k bytes opts with
  | error e =>
    rw [hc] at hbase
    cases hbase
  | ok u =>
    rw [hc] at hbase
    dsimp only at hbase ⊢
    cases hl : env.lock with
    | error m =>
      rw [hl] at hbase
      cases hbase
    | ok u =>
      rw [hl] at hbase
      dsimp only at hbase ⊢
      unfold Env.transact at hbase ⊢
      cases hi : env.loadIndex w with
      | error e =>
        rw [hi] at hbase
        cases hbase
      | ok i =>
        refine ⟨i, Env.decode_of_loadIndex hi, ?_⟩
        rw [hi] at hbase
        dsimp only at hbase ⊢
        unfold putDecision at hbase ⊢
        by_cases hb : i.buckets.contains b = true
        · simp only [if_pos hb]
          cases putCondition i b k opts with
          | error e => rfl
          | ok u => rfl
        · simp only [if_neg hb] at hbase
          cases hbase

theorem putCondition_iff {i : Index} : putCondition i b k opts = .ok () ↔
    opts.preconditions.MatchHolds (i.head b k).toOption ∧
      opts.preconditions.NoneMatchHolds (i.head b k).toOption := by
  rw [← Preconditions.checkWrite_iff]
  unfold putCondition
  split
  next => rfl
  next hnone =>
    have hcheck : ∀ existing, opts.preconditions.checkWrite existing = .ok () := by
      intro existing
      unfold Preconditions.any at hnone
      unfold Preconditions.checkWrite
      cases hm : opts.preconditions.ifMatch <;> cases hn : opts.preconditions.ifNoneMatch <;>
        simp_all
    exact iff_of_true rfl (hcheck _)

end

/-! ## The three writes -/

namespace HttpRequest

/-- The key that a PutObject, CopyObject or CompleteMultipartUpload is to bind: the one
of the path, or of the upload that is completed. -/
def target (req : HttpRequest) (w : World) : Option (String × String) :=
  match req.path, req.method with
  | .object b k, .put =>
    match req.query["partNumber"]?, req.query["uploadId"]? with
    | some _, some _ => none
    | _, _ => some (b, k)
  | .object _ _, .post =>
    if req.query.contains "uploads" then none
    else do
      let uploadId ← req.query["uploadId"]?
      let st ← (MultipartState.decode (w.files .multipart)).toOption
      let upload ← st.uploads[uploadId]?
      return (upload.bucket, upload.key)
  | _, _ => none

/-- A PutObject: a PUT that does not copy. -/
def isPlainPut (req : HttpRequest) : Bool :=
  req.method == .put && (req.headerStr headerCopySource).isNone

end HttpRequest

theorem authorize_error {gw : Gateway} {req : HttpRequest} {now : Nat} {g : Grant} {r : Response}
    (h : gw.authorize req now g = .error r) : r.status = 403 := by
  unfold Gateway.authorize at h
  split at h
  · exact nomatch h
  · split at h
    · cases h
      rfl
    · split at h
      · cases h
        rfl
      · split at h
        · exact nomatch h
        · cases h
          rfl

theorem storageErr_status {e : StorageError} : (storageErr e).status ≠ 200 := by
  cases e <;> exact Nat.ne_of_beq_eq_false rfl

/-- The options of a PutObject. -/
def putOptions (req : HttpRequest) : PutOptions :=
  { contentType := Gateway.contentTypeOf req, metadata := extractUserMetadata req
    cacheControl := req.headerStr "cache-control"
    contentDisposition := req.headerStr "content-disposition"
    contentEncoding := req.headerStr "content-encoding"
    preconditions := extractPreconditions req }

theorem putOptions_unconditional (req : HttpRequest) :
    putOptions req.unconditional = { putOptions req with preconditions := {} } := by
  unfold putOptions Gateway.contentTypeOf
  rw [HttpRequest.extractPreconditions_unconditional,
    HttpRequest.extractUserMetadata_unconditional]
  simp only [HttpRequest.headerStr_unconditional "content-type" (by decide),
    HttpRequest.headerStr_unconditional "cache-control" (by decide),
    HttpRequest.headerStr_unconditional "content-disposition" (by decide),
    HttpRequest.headerStr_unconditional "content-encoding" (by decide)]

section
variable {ce : CeRs} {gw : Gateway} {req req' : HttpRequest} {env : Env} {s : Store} {w : World}
  {i : Index} {b k : String}

theorem Gate.run_check {g : Grant} {next : Gate} (h : gw.authorize req env.now g = .ok ()) :
    ((Gate.check g next).run ce gw req env s w).response = (next.run ce gw req env s w).response ∧
      ((Gate.check g next).run ce gw req env s w).world = (next.run ce gw req env s w).world := by
  have hrun : (Gate.check g next).run ce gw req env s w
      = let y := next.run ce gw req env s w
        if gw.auth.isSome then { y with granted := g :: y.granted } else y := by
    conv_lhs => unfold run
    rw [h]
  rw [hrun]
  dsimp only
  split <;> exact ⟨rfl, rfl⟩

/-- The response to a put. -/
def putResponse : Except StorageError ObjectMeta → Response
  | .ok m => .etag m.etag
  | .error e => storageErr e

variable (gw req req') in
theorem putPlain_run {r : (Except StorageError ObjectMeta × Store) × World}
    (h : (s.putObjectOpts b k req.body (putOptions req)).exec ce env s w = r) :
    ((Gateway.putPlain b k req).run ce gw req' env s w).response = putResponse r.1.1 ∧
      ((Gateway.putPlain b k req).run ce gw req' env s w).world = r.2 := by
  cases h
  exact ⟨rfl, rfl⟩

/-- A PutObject that would bind its key is refused where a condition fails if and only
if `If-Unmodified-Since` does not fail alone. -/
theorem putPlain_iff (hi : Index.decode (w.files .index) = .ok i)
    (hbinds : ((Gateway.putPlain b k req.unconditional).run ce gw req' env s w).response.status
      = 200) :
    (¬(extractPreconditions req).Holds (i.head b k).toOption →
      ((Gateway.putPlain b k req).run ce gw req' env s w).response.status = 412 ∧
      ((Gateway.putPlain b k req).run ce gw req' env s w).world = w) ↔
    (extractPreconditions req).Enforced true (i.head b k).toOption := by
  -- without its conditions the put succeeds
  obtain ⟨m, s', w', hbase⟩ : ∃ m s' w', (s.putObjectOpts b k req.body
      { putOptions req with preconditions := {} }).exec ce env s w = ((.ok m, s'), w') := by
    rw [← putOptions_unconditional]
    rcases hr : (s.putObjectOpts b k req.body (putOptions req.unconditional)).exec ce env s w
      with ⟨⟨e | m, s'⟩, w'⟩
    · rw [(putPlain_run gw req.unconditional req' hr).1] at hbinds
      exact absurd hbinds storageErr_status
    · exact ⟨m, s', w', rfl⟩
  obtain ⟨i', hi', hexec⟩ := put_conditional (congrArg (fun y => y.1.1) hbase)
  cases hi.symm.trans hi'
  have hcond : putCondition i b k (putOptions req) = .ok () ↔ _ := putCondition_iff
  unfold Preconditions.Enforced
  rw [if_pos rfl]
  cases hput : putCondition i b k (putOptions req) with
  | error e =>
    rw [hput] at hexec
    obtain ⟨hresponse, hworld⟩ := putPlain_run gw req req' hexec
    obtain ⟨msg, rfl⟩ := putCondition_error hput
    refine iff_of_true (fun _ => ⟨?_, hworld⟩) ?_
    · rw [hresponse]
      rfl
    · intro hm hn
      rw [hput] at hcond
      cases hcond.mpr ⟨hm, hn⟩
  | ok u =>
    rw [hput] at hexec
    obtain ⟨hresponse, -⟩ := putPlain_run gw req req' (hexec.trans hbase)
    obtain ⟨hm, hn⟩ := hcond.mp hput
    rw [hresponse]
    constructor
    · intro h _ _
      by_contra hu
      exact absurd (h fun hall => hu hall.ifUnmodifiedSince).1 (Nat.ne_of_beq_eq_false rfl)
    · intro h hnot
      exact absurd ⟨hm, hn, h hm hn⟩ hnot

theorem route_put (req : HttpRequest) (hpath : req.path = .object b k)
    (hmethod : req.method = .put) :
    Gateway.route ce gw req = gw.withBody req (Gateway.putObject ce b k req) := by
  unfold Gateway.route
  rw [hpath, hmethod]

theorem route_post (req : HttpRequest) (hpath : req.path = .object b k)
    (hmethod : req.method = .post) :
    Gateway.route ce gw req = gw.withBody req (Gateway.postObject ce b k req) := by
  unfold Gateway.route
  rw [hpath, hmethod]

/-- A copy or a completion does not read its conditional headers. -/
theorem route_unconditional (htarget : req.target w = some (b, k))
    (hplain : req.isPlainPut = false) :
    Gateway.route ce gw req.unconditional = Gateway.route ce gw req := by
  have hcopy : req.unconditional.headerStr headerCopySource = _ :=
    HttpRequest.headerStr_unconditional headerCopySource (by decide)
  unfold HttpRequest.target at htarget
  unfold HttpRequest.isPlainPut at hplain
  cases hpath : req.path with
  | root =>
    rw [hpath] at htarget
    exact nomatch htarget
  | bucket b' =>
    rw [hpath] at htarget
    exact nomatch htarget
  | object b' k' =>
    rw [hpath] at htarget
    cases hmethod : req.method with
    | put =>
      rw [hmethod] at hplain
      rw [route_put req hpath hmethod, route_put req.unconditional hpath hmethod]
      refine congrArg (gw.withBody req) ?_
      unfold Gateway.putObject
      rw [hcopy]
      cases hs : req.headerStr headerCopySource with
      | none =>
        rw [hs] at hplain
        exact nomatch hplain
      | some source => rfl
    | post =>
      rw [hmethod] at htarget
      rw [route_post req hpath hmethod, route_post req.unconditional hpath hmethod]
      refine congrArg (gw.withBody req) ?_
      -- an initiation has no target
      have huploads : ¬req.query.contains "uploads" = true := fun h => by
        dsimp only at htarget
        rw [if_pos h] at htarget
        exact nomatch htarget
      unfold Gateway.postObject
      rw [if_neg huploads, if_neg (show ¬req.unconditional.query.contains "uploads" = true from
        huploads)]
      rfl
    | get =>
      rw [hmethod] at htarget
      exact nomatch htarget
    | head =>
      rw [hmethod] at htarget
      exact nomatch htarget
    | delete =>
      rw [hmethod] at htarget
      exact nomatch htarget

/-- What a PutObject comes to. -/
theorem route_plainPut (req : HttpRequest) (htarget : req.target w = some (b, k))
    (hplain : req.isPlainPut = true) :
    Gateway.route ce gw req
      = gw.withBody req (.check ⟨abilityWrite, b, k⟩ (Gateway.putPlain b k req)) := by
  unfold HttpRequest.isPlainPut at hplain
  rw [Bool.and_eq_true, beq_iff_eq, Option.isNone_iff_eq_none] at hplain
  obtain ⟨hmethod, hcopy⟩ := hplain
  unfold HttpRequest.target at htarget
  rw [hmethod] at htarget
  cases hpath : req.path with
  | root =>
    rw [hpath] at htarget
    exact nomatch htarget
  | bucket b' =>
    rw [hpath] at htarget
    exact nomatch htarget
  | object b' k' =>
    rw [hpath] at htarget
    rw [route_put req hpath hmethod]
    unfold Gateway.putObject
    rw [hcopy]
    dsimp only at htarget
    split at htarget
    next => exact nomatch htarget
    next hpart =>
      cases htarget
      refine congrArg (gw.withBody req) (congrArg (Gate.check _) ?_)
      cases hpn : req.query["partNumber"]? with
      | none => rfl
      | some pn =>
        cases huid : req.query["uploadId"]? with
        | none => rfl
        | some uid => exact absurd huid (hpart pn uid hpn)

end

/-- A request that would bind a key without its conditional headers is refused with 412,
and changes nothing, wherever a documented condition fails, if and only if it is
`Enforced`. -/
theorem conditional_write_iff (ce : CeRs) (gw : Gateway) (req : HttpRequest) (env : Env)
    (s : Store) (w : World) (i : Index) (hi : Index.decode (w.files .index) = .ok i)
    (b k : String) (htarget : req.target w = some (b, k))
    (hbinds : (serve ce gw req.unconditional env s w).response.status = 200) :
    (¬(extractPreconditions req).Holds (i.head b k).toOption →
      (serve ce gw req env s w).response.status = 412 ∧ (serve ce gw req env s w).world = w) ↔
    (extractPreconditions req).Enforced req.isPlainPut (i.head b k).toOption := by
  cases hplain : req.isPlainPut with
  | true =>
    have hplain' : req.unconditional.isPlainPut = true := by
      unfold HttpRequest.isPlainPut at hplain ⊢
      rw [HttpRequest.headerStr_unconditional headerCopySource (by decide)]
      exact hplain
    unfold serve at hbinds ⊢
    rw [route_plainPut req.unconditional htarget hplain',
      Gate.run_congr fun g => authorize_unconditional gw req env.now g] at hbinds
    rw [route_plainPut req htarget hplain]
    unfold Gateway.withBody at hbinds ⊢
    by_cases hlimit : gw.bodyLimit < req.body.length
    · rw [if_pos (show gw.bodyLimit < req.unconditional.body.length from hlimit)] at hbinds
      cases hbinds
    · rw [if_neg (show ¬gw.bodyLimit < req.unconditional.body.length from hlimit)] at hbinds
      rw [if_neg hlimit]
      cases hauth : gw.authorize req env.now ⟨abilityWrite, b, k⟩ with
      | error r =>
        unfold Gate.run at hbinds
        rw [hauth] at hbinds
        cases (authorize_error hauth).symm.trans hbinds
      | ok u =>
        rw [(Gate.run_check hauth).1] at hbinds
        rw [(Gate.run_check hauth).1, (Gate.run_check hauth).2]
        exact putPlain_iff hi hbinds
  | false =>
    have hsame : serve ce gw req env s w = serve ce gw req.unconditional env s w := by
      unfold serve
      rw [route_unconditional htarget hplain]
      exact (Gate.run_congr (fun g => authorize_unconditional gw req env.now g) _).symm
    rw [hsame]
    unfold Preconditions.Enforced
    rw [if_neg Bool.false_ne_true, hbinds]
    constructor
    · intro h
      by_contra hnot
      exact absurd (h hnot).1 (by decide)
    · intro h hnot
      exact absurd h hnot

/-! ### One object -/

private def openDoor : Gateway := ⟨none, 1000⟩

private def catAtFive : Index :=
  ((Index.empty.makeBucket "photos" 0).2.put "photos" "cat" (ObjectMeta.new "one" 1 "" 5)).2

private def holdingCat : World := World.blank.setFile .index (some (.index catAtFive))

private def putCatIf (name value : String) : HttpRequest :=
  { method := .put, path := .object "photos" "cat", headers := [(name, value)], query := ∅
    body := [1] }

private def onCall : Env := Env.calm CeRs.plain 9 "u"

set_option maxRecDepth 8000 in
/-- A put that asks that nothing was modified since 0 replaces what was modified at 5. -/
theorem unmodified_since_is_ignored : ¬∀ (ce : CeRs) (gw : Gateway) (req : HttpRequest)
    (env : Env) (s : Store) (w : World) (i : Index), Index.decode (w.files .index) = .ok i →
      ∀ b k, req.target w = some (b, k) →
        (serve ce gw req.unconditional env s w).response.status = 200 →
        ¬(extractPreconditions req).Holds (i.head b k).toOption →
        (serve ce gw req env s w).response.status = 412 ∧ (serve ce gw req env s w).world = w := by
  intro h
  let req := putCatIf "if-unmodified-since" "0"
  have hput : (serve CeRs.plain openDoor req onCall (.fresh 1) holdingCat).response.status = 200 :=
    rfl
  have hnot : ¬(extractPreconditions req).Holds (catAtFive.head "photos" "cat").toOption := by
    intro hall
    have hle := hall.ifUnmodifiedSince 0 rfl (ObjectMeta.new "one" 1 "" 5) rfl
    exact absurd hle (by decide)
  have hrefused := (h CeRs.plain openDoor req onCall (.fresh 1) holdingCat catAtFive rfl
    "photos" "cat" rfl rfl hnot).1
  rw [hput] at hrefused
  exact absurd hrefused (by decide)

set_option maxRecDepth 8000 in
/-- A put that asks that there is no object is refused where there is one. -/
theorem conditional_write_refused :
    (serve CeRs.plain openDoor (putCatIf "if-none-match" "*") onCall (.fresh 1)
      holdingCat).response.status = 412 ∧
    (serve CeRs.plain openDoor (putCatIf "if-none-match" "*") onCall (.fresh 1)
      holdingCat).world = holdingCat := by
  have hcat : (catAtFive.head "photos" "cat").toOption = some (ObjectMeta.new "one" 1 "" 5) := rfl
  have hfails : ¬(extractPreconditions (putCatIf "if-none-match" "*")).NoneMatchHolds
      (catAtFive.head "photos" "cat").toOption :=
    fun hnone => (hnone "*" rfl _ hcat).1 rfl
  refine (conditional_write_iff CeRs.plain openDoor (putCatIf "if-none-match" "*") onCall
    (.fresh 1) holdingCat catAtFive rfl "photos" "cat" rfl rfl).mpr ?_
    fun hall => hfails hall.ifNoneMatch
  show (extractPreconditions (putCatIf "if-none-match" "*")).Enforced true _
  unfold Preconditions.Enforced
  rw [if_pos rfl]
  exact fun _ hnone => absurd hnone hfails

end CeStorage
