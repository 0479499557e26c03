import CeStorage.Gateway.Reveal
import CeStorage.Store.Edits

/-!
# Authorization covers what a request touches

`Exchange.Contained` says of one request that what it reveals it may read, and
what it changes it may write. The first half holds of the requests that look at no
write condition, and of no other (`reads_iff`). The second half fails where a part or
a completion goes to the upload that `uploadId` names, while the check is on the
bucket and key of the URL. It holds of the requests that name an upload for their own
URL (`route_careful`). So both hold in runs of such requests.
-/

namespace CeStorage

open Lib

variable {ce : CeRs} {env : Env} {gw : Gateway} {req : HttpRequest} {b k : String}

namespace Exchange

def Changes (ce : CeRs) (gw : Gateway) (e : Exchange) (b k : String) : Prop :=
  ¬e.world.Keeps b k (e.reply ce gw).world

/-- What the request reveals and changes was granted to it. -/
structure Contained (ce : CeRs) (gw : Gateway) (e : Exchange) : Prop where
  reads : ∀ b k, e.Reveals ce gw b k →
    ⟨abilityRead, b, e.req.path.scope k⟩ ∈ (e.reply ce gw).granted
  writes : ∀ b k, e.Changes ce gw b k →
    ⟨abilityWrite, b, e.req.path.scope k⟩ ∈ (e.reply ce gw).granted

end Exchange

/-! ## What calls change -/

theorem partsOf_none {w : World} {id : String}
    (h : ∀ u, w.inFlight id = some u → u.target ≠ (b, k)) : w.partsOf b k id = none := by
  unfold World.partsOf
  cases hu : w.inFlight id with
  | none => rfl
  | some u => exact if_neg (h u hu)

/-- A call that does not edit the key keeps it, if no upload for the key is the
one that the call is about. -/
theorem exec_keeps {s : Store} {w : World} (c : StoreCall)
    (hedit : ∀ e, c.MayEdit ce env w e → ¬e.Touches b k)
    (hparts : ∀ id, c.about env = some id →
      w.partsOf b k id = none ∧ (c.exec ce env s w).2.partsOf b k id = none) :
    w.Keeps b k (c.exec ce env s w).2 := by
  constructor
  · unfold World.historyOf
    rcases index_cases ce env c s w with hf | ⟨i, j, hi, -, hj, hij⟩
    · rw [hf]
    · rw [hi, hj]
      exact Index.history_edited hij hedit
  · intro id
    by_cases hid : c.about env = some id
    · obtain ⟨hbefore, hafter⟩ := hparts id hid
      rw [hbefore, hafter]
    · unfold World.partsOf
      rw [inFlight_other c s hid]

/-- A call on an upload in flight keeps every key but its target. -/
theorem exec_keeps_upload {s : Store} {w : World} (c : StoreCall)
    (hc : ∀ b k opts, c ≠ .createMultipartUpload b k opts)
    (hedit : ∀ e, c.MayEdit ce env w e → ¬e.Touches b k)
    (htarget : ∀ id u, c.about env = some id → w.inFlight id = some u → u.target ≠ (b, k)) :
    w.Keeps b k (c.exec ce env s w).2 := by
  refine exec_keeps c hedit fun id hid => ⟨partsOf_none fun u => htarget id u hid, ?_⟩
  refine partsOf_none ?_
  intro u' hu'
  obtain ⟨u, hu, heq⟩ := inFlight_target c s hc hu'
  rw [heq]
  exact htarget id u hid hu

/-- An upload that begins under a new id keeps every key but its target. -/
theorem create_keeps {s : Store} {w : World} {b' k' : String} (opts : PutOptions)
    (hne : ¬(b' = b ∧ k' = k)) (hfresh : w.inFlight env.uploadId = none) :
    w.Keeps b k ((StoreCall.createMultipartUpload b' k' opts).exec ce env s w).2 := by
  refine exec_keeps _ (fun _ he => he.elim) ?_
  intro id hid
  obtain rfl : env.uploadId = id := Option.some.inj hid
  have hbefore : w.partsOf b k env.uploadId = none := by
    refine partsOf_none ?_
    intro u hu
    rw [hfresh] at hu
    exact nomatch hu
  refine ⟨hbefore, partsOf_none ?_⟩
  intro u' hu'
  rcases multipart_cases ce env (.createMultipartUpload b' k' opts) s w with
    hf | ⟨st, st', -, hst', hr⟩
  · rw [inFlight_of_files _ hf, hfresh] at hu'
    exact nomatch hu'
  · rw [inFlight_of_decode _ hst', (create_uploads hr).1, get_insert_self] at hu'
    cases hu'
    intro htarget
    exact hne ⟨congrArg Prod.fst htarget, congrArg Prod.snd htarget⟩

/-! ## What handlers change -/

/-- What a handler comes to keeps `k` in `b`. -/
def Gate.Careful (ce : CeRs) (gw : Gateway) (req : HttpRequest) (env : Env) (b k : String)
    (s : Store) (w : World) (x : Gate) : Prop :=
  w.Keeps b k (x.run ce gw req env s w).world

/-- The upload that a request is for, once its checks succeed: by its id, whatever
the URL. -/
def Gateway.uploadNamed (gw : Gateway) (req : HttpRequest) : Option String :=
  if gw.bodyLimit < req.body.length then none
  else
    match req.method with
    | .put =>
      match req.query["partNumber"]?, req.query["uploadId"]? with
      | some pn, some uid => (Str.parseU32 pn).map fun _ => uid
      | _, _ => none
    | .post =>
      if req.query.contains "uploads" || (parseCompleteParts (Str.fromUtf8Lossy req.body)).isEmpty
      then none
      else req.query["uploadId"]?
    | _ => none

/-- An authorized request that names an upload in flight names one for its own
URL, and an upload that begins gets a new id. -/
structure OnTarget (gw : Gateway) (req : HttpRequest) (env : Env) (w : World) : Prop where
  target : ∀ b k id u, req.path = .object b k →
    gw.authorize req env.now ⟨abilityWrite, b, k⟩ = .ok () → gw.uploadNamed req = some id →
    w.inFlight id = some u → u.target = (b, k)
  fresh : w.inFlight env.uploadId = none

section
variable {s : Store} {w : World}

theorem careful_answer (r : Response) : (Gate.answer r).Careful ce gw req env b k s w :=
  ⟨rfl, fun _ => rfl⟩

theorem careful_read {ε α : Type} (x : Act ε α) (respond : Except ε α → Response) :
    (Gate.read x respond).Careful ce gw req env b k s w :=
  ⟨rfl, fun _ => rfl⟩

theorem careful_call {ε α : Type} {c : StoreCall} {op : Store → Op ε α} {f : ε → Failure}
    {g : α → Value} (h : c.Is ce op f g) (respond : Except ε α → Store → Response)
    (hc : w.Keeps b k (c.exec ce env s w).2) :
    (Gate.call op respond).Careful ce gw req env b k s w := by
  rw [h.exec] at hc
  exact hc

/-- A call that is about no upload and edits other keys only. -/
theorem careful_edit {ε α : Type} {c : StoreCall} {op : Store → Op ε α} {f : ε → Failure}
    {g : α → Value} (h : c.Is ce op f g) (respond : Except ε α → Store → Response)
    (habout : c.about env = none) (hedit : ∀ e, c.MayEdit ce env w e → ¬e.Touches b k) :
    (Gate.call op respond).Careful ce gw req env b k s w :=
  careful_call h respond (exec_keeps c hedit fun _ hid => nomatch habout.symm.trans hid)

theorem bulkDelete_careful (b' : String) :
    (Gateway.bulkDelete b' req).Guards gw req env.now (· = ⟨abilityWrite, b, ""⟩)
      (Gate.Careful ce gw req env b k s w) := by
  unfold Gateway.bulkDelete
  split
  · exact careful_answer _
  · refine Gate.guards_key ?_
    intro hne _
    dsimp only
    split
    · exact careful_answer _
    · refine careful_edit
        (c := .deleteObjects b' (parseDeleteKeys (Str.fromUtf8Lossy req.body)))
        ⟨fun _ => rfl, fun _ _ he => Failure.message.inj he, fun _ _ hv => Value.results.inj hv⟩ _
        rfl ?_
      rintro e ⟨k', -, rfl⟩ ht
      exact hne ⟨ht.1, rfl⟩

theorem putObject_careful {b' k' : String} (hon : OnTarget gw req env w)
    (hp : req.path = .object b' k') (hm : req.method = .put)
    (hbody : ¬gw.bodyLimit < req.body.length) :
    (Gateway.putObject ce b' k' req).Guards gw req env.now (· = ⟨abilityWrite, b, k⟩)
      (Gate.Careful ce gw req env b k s w) := by
  refine Gate.guards_key ?_
  intro hne hauth
  split
  next pn uid hpn huid =>
    unfold Gateway.putPart
    split
    next => exact careful_answer _
    next n hn =>
      refine careful_call (c := .uploadPart uid n req.body) (is_text fun _ => rfl) _ ?_
      refine exec_keeps_upload _ (fun _ _ _ => nofun) (fun e he => he.elim) ?_
      intro id u hid hu ht
      -- the part call may change only the upload that the request names
      obtain rfl : uid = id := Option.some.inj hid
      have hnamed : gw.uploadNamed req = some uid := by
        unfold Gateway.uploadNamed
        rw [if_neg hbody, hm, hpn, huid]
        dsimp only
        rw [hn]
        rfl
      rw [hon.target b' k' uid u hp hauth hnamed hu] at ht
      exact hne ⟨congrArg Prod.fst ht, congrArg Prod.snd ht⟩
  next =>
    split
    next source _ =>
      -- a copy reads anywhere and writes its destination only
      unfold Gateway.putCopy
      split
      next => exact careful_answer _
      next sb sk _ =>
        refine fun _ => .inr (careful_edit (c := .copyObject sb sk b' k') (is_unit fun _ => rfl) _
          rfl ?_)
        rintro e rfl ht
        exact hne ht
    next =>
      refine careful_edit (c := .putObjectOpts b' k' req.body _) (is_object fun _ => rfl) _ rfl ?_
      rintro e ⟨cid, -, rfl⟩ ht
      exact hne ht

theorem postObject_careful {b' k' : String} (hon : OnTarget gw req env w)
    (hp : req.path = .object b' k') (hm : req.method = .post)
    (hbody : ¬gw.bodyLimit < req.body.length) :
    (Gateway.postObject ce b' k' req).Guards gw req env.now (· = ⟨abilityWrite, b, k⟩)
      (Gate.Careful ce gw req env b k s w) := by
  refine Gate.guards_key ?_
  intro hne hauth
  split
  next huploads =>
    exact careful_call (c := .createMultipartUpload b' k' _) (is_text fun _ => rfl) _
      (create_keeps _ hne hon.fresh)
  next huploads =>
    split
    next uid huid =>
      unfold Gateway.postComplete
      dsimp only
      split
      next => exact careful_answer _
      next hparts =>
        have htarget : ∀ u, w.inFlight uid = some u → u.target ≠ (b, k) := by
          intro u hu ht
          have hnamed : gw.uploadNamed req = some uid := by
            unfold Gateway.uploadNamed
            rw [if_neg hbody, hm]
            dsimp only
            rw [if_neg (by simp [huploads, hparts]), huid]
          rw [hon.target b' k' uid u hp hauth hnamed hu] at ht
          exact hne ⟨congrArg Prod.fst ht, congrArg Prod.snd ht⟩
        refine careful_call (c := .completeMultipartUpload uid _) (is_object fun _ => rfl) _ ?_
        refine exec_keeps_upload _ (fun _ _ _ => nofun) ?_ fun id u hid hu => ?_
        -- a completion puts at the target of its record
        · rintro e ⟨st, u, manifest, cid, i, j, hass, rfl⟩ ht
          have hu : w.inFlight uid = some u := (inFlight_of_decode uid hass.loaded).trans hass.found
          exact htarget u hu (Prod.ext ht.1 ht.2)
        · obtain rfl : uid = id := Option.some.inj hid
          exact htarget u hu
    next => exact careful_answer _

theorem deleteObject_careful (b' k' : String) :
    (Gateway.deleteObject b' k' req).Guards gw req env.now (· = ⟨abilityWrite, b, k⟩)
      (Gate.Careful ce gw req env b k s w) := by
  refine Gate.guards_key ?_
  intro hne _
  unfold Gate.Guards
  split
  next v _ =>
    refine careful_edit (c := .deleteObjectVersion b' k' v) (is_unit fun _ => rfl) _ rfl ?_
    rintro e rfl ht
    exact hne ht
  next =>
    refine careful_edit (c := .deleteObject b' k') (is_unit fun _ => rfl) _ rfl ?_
    rintro e rfl ht
    exact hne ht

/-- **On its target, a handler keeps every key, unless it checks that the
presenter may write the key.** -/
theorem route_careful (hon : OnTarget gw req env w) (b k : String) :
    (Gateway.route ce gw req).Guards gw req env.now (· = ⟨abilityWrite, b, req.path.scope k⟩)
      (Gate.Careful ce gw req env b k s w) := by
  unfold Gateway.route
  split
  next hp hm => exact careful_read _ _
  next hp hm => exact careful_read _ _
  next b' hp hm =>
    refine careful_edit (c := .makeBucket b') (is_unit fun _ => rfl) _ rfl ?_
    rintro e rfl ht
    exact ht
  next b' hp hm => exact fun _ => .inr (careful_read _ _)
  next b' hp hm => exact fun _ => .inr (careful_read _ _)
  next b' hp hm =>
    rw [hp]
    exact guards_withBody careful_answer fun _ => bulkDelete_careful b'
  next b' k' hp hm =>
    rw [hp]
    exact guards_withBody careful_answer (putObject_careful hon hp hm)
  next b' k' hp hm => exact fun _ => .inr (careful_read _ _)
  next b' k' hp hm => exact fun _ => .inr (careful_read _ _)
  next b' k' hp hm =>
    rw [hp]
    exact guards_withBody careful_answer (postObject_careful hon hp hm)
  next b' k' hp hm =>
    rw [hp]
    exact deleteObject_careful b' k'
  next => exact careful_answer _

end

/-! ## Runs -/

/-- **What a request on its target changes it was granted to write.** -/
theorem Exchange.changes_granted (e : Exchange) (hauth : gw.auth.isSome)
    (hon : OnTarget gw e.req e.env e.world) (h : e.Changes ce gw b k) :
    ⟨abilityWrite, b, e.req.path.scope k⟩ ∈ (e.reply ce gw).granted := by
  unfold Changes reply at *
  rw [serve_eq] at h ⊢
  rcases Gate.cleared_guards careful_answer (route_careful hon b k) with ⟨g, rfl, hg⟩ | hcareful
  · exact hg hauth
  · exact absurd hcareful h

namespace Serving

/-- What is asked of the requests of a run. -/
def Aimed (gw : Gateway) (x : Serving) : ServingEvent → Prop
  | .request req env => OnTarget gw req env x.world ∧ ¬Peeks gw req env x.store x.world
  | .elsewhere .. => True

/-- **With authorization configured, every request of a run in which every request that
names an upload names one for its own URL, and none looks at a write condition, reveals
and changes only what was granted to it.** -/
theorem contained_of_aimed (ce : CeRs) (auth : Auth) (limit : Nat) (s₀ : Store) (w₀ : World)
    (x : Serving) (h : Reach (fire ce ⟨some auth, limit⟩) (Aimed ⟨some auth, limit⟩)
      (start s₀ w₀) x) : ∀ e ∈ x.log, e.Contained ce ⟨some auth, limit⟩ := by
  refine log_forall ?_ h
  intro y req env haimed
  obtain ⟨hon, hpeeks⟩ := haimed
  exact ⟨(Exchange.reads_iff ce _ rfl).mpr hpeeks,
    fun b k => Exchange.changes_granted _ rfl hon⟩

/-! A presenter may write exactly the keys that its tokens name. With the token
of one key it sends a part to the upload of another. -/

private def keyed : Auth where
  verifyLink _ _ _ _ key token := if token = key then .ok () else .error "no such token"

private def keyedGateway : Gateway := ⟨some keyed, 1000⟩

private def asking (method : Method) (path : Path) (token : String)
    (query : List (String × String)) (body : Bytes) : HttpRequest :=
  { method, path, body
    headers := [(headerCap, token), (headerRequester, String.ofList (List.replicate 64 '0'))]
    query := Std.ExtTreeMap.ofList query }

private theorem asking_noPeek {gw : Gateway} {method : Method} {path : Path} {token : String}
    {query : List (String × String)} {body : Bytes} {env : Env} {s : Store} {w : World} :
    ¬Peeks gw (asking method path token query body) env s w := by
  intro hpeeks
  obtain ⟨b, k, h⟩ := hpeeks
  rcases h.condition with h | h
  · exact absurd (show (none : Option String).isSome = true from h) (by decide)
  · exact absurd (show (none : Option String).isSome = true from h) (by decide)

private def makePhotos : ServingEvent :=
  .request (asking .put (.bucket "photos") "" [] []) (Env.calm CeRs.plain 7 "u")

private def beginTheirs : ServingEvent :=
  .request (asking .post (.object "photos" "theirs") "theirs" [("uploads", "")] [])
    (Env.calm CeRs.plain 8 "u")

/-- A part for the upload `u`, under the given key. -/
private def partUnder (key : String) : ServingEvent :=
  .request (asking .put (.object "photos" key) key [("partNumber", "1"), ("uploadId", "u")] [1])
    (Env.calm CeRs.plain 9 "v")

private def photosMade : Serving :=
  (fire CeRs.plain keyedGateway makePhotos (start (.fresh 1) .blank)).getD (start (.fresh 1) .blank)

private def theirsBegun : Serving :=
  (fire CeRs.plain keyedGateway beginTheirs photosMade).getD photosMade

private def partSent (key : String) : Serving :=
  (fire CeRs.plain keyedGateway (partUnder key) theirsBegun).getD theirsBegun

/-- The parts of `u` after a request granted on `photos/mine` only. -/
theorem part_escapes_its_check :
    ¬ ∀ (ce : CeRs) (auth : Auth) (limit : Nat) (s₀ : Store) (w₀ : World) (x : Serving),
      Reach (fire ce ⟨some auth, limit⟩) (fun _ _ => True) (start s₀ w₀) x →
      ∀ e ∈ x.log, e.Contained ce ⟨some auth, limit⟩ := by
  intro h
  have hx : Reach (fire CeRs.plain keyedGateway) (fun _ _ => True) (start (.fresh 1) .blank)
      (partSent "mine") :=
    reach_of_play [makePhotos, beginTheirs, partUnder "mine"]
      (along_of_forall _ _ fun _ _ _ => trivial) rfl
  let e : Exchange := (partSent "mine").log.getLast (by decide)
  have hc : e.Contained CeRs.plain keyedGateway :=
    h CeRs.plain keyed 1000 (.fresh 1) .blank _ hx e (List.getLast_mem _)
  have hwritten : e.Changes CeRs.plain keyedGateway "photos" "theirs" := by
    intro hkeeps
    have hparts := congrArg (Option.map Std.ExtTreeMap.size) (hkeeps.parts "u")
    exact absurd hparts (by decide)
  exact absurd (hc.writes "photos" "theirs" hwritten) (by decide)

/-- The owner's token sends the part. -/
theorem contained_of_aimed_ownPart : (partSent "theirs").log.length = 3 ∧
    ∀ e ∈ (partSent "theirs").log, e.Contained CeRs.plain keyedGateway := by
  have hmade : Reach (fire CeRs.plain keyedGateway) (Aimed keyedGateway)
      (start (.fresh 1) .blank) photosMade :=
    .next .start (e := makePhotos) ⟨⟨fun _ _ _ _ hp => (nomatch hp), rfl⟩, asking_noPeek⟩ rfl
  have hbegun : Reach (fire CeRs.plain keyedGateway) (Aimed keyedGateway)
      (start (.fresh 1) .blank) theirsBegun := by
    refine .next hmade (e := beginTheirs) ⟨⟨?_, rfl⟩, asking_noPeek⟩ rfl
    intro b k id u _ _ hnamed
    exact nomatch (show none = some id from hnamed)
  have hsent : Reach (fire CeRs.plain keyedGateway) (Aimed keyedGateway)
      (start (.fresh 1) .blank) (partSent "theirs") := by
    refine .next hbegun (e := partUnder "theirs") ⟨⟨?_, rfl⟩, asking_noPeek⟩ rfl
    intro b k id u hp _ hnamed hu
    have htarget : (theirsBegun.world.inFlight "u").map Upload.target = some ("photos", "theirs") :=
      rfl
    obtain rfl : "u" = id := Option.some.inj hnamed
    cases hp
    rw [hu] at htarget
    exact Option.some.inj htarget
  exact ⟨rfl, contained_of_aimed CeRs.plain keyed 1000 (.fresh 1) .blank (partSent "theirs") hsent⟩

end Serving

end CeStorage
