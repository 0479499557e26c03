import CeStorage.Gateway.Checks
import CeStorage.Gateway.Serving
import CeStorage.Store.Edits

/-!
# Requests that control an upload

A request on an object whose query has `uploads` or `uploadId` is meant for an
upload. `Exchange.Apart` says that it then leaves the objects alone, until it
completes the upload. The router decides by method and falls through to the plain
verb: a DELETE deletes the object, and a PUT that lacks one of its two parameters
puts one. A completion whose last save fails has bound the object too. Otherwise
the objects are left alone (`route_apart`).
-/

namespace CeStorage

open Lib

variable {ce : CeRs} {env : Env} {gw : Gateway} {req : HttpRequest} {s : Store} {w : World}

/-- A request on an object that names multipart parameters. -/
def HttpRequest.Controls (req : HttpRequest) : Prop :=
  (∃ b k, req.path = .object b k) ∧
    (req.query.contains "uploads" = true ∨ req.query.contains "uploadId" = true)

/-- A completion that succeeds. -/
def Completes (req : HttpRequest) (r : Response) : Prop :=
  req.method = .post ∧ req.query.contains "uploads" = false ∧ r.status = 200

namespace Exchange

/-- The request leaves the index file as it is, unless it completes an upload; as
a DELETE it leaves every upload but the one it names as it is. -/
structure Apart (ce : CeRs) (gw : Gateway) (e : Exchange) : Prop where
  index : ¬Completes e.req (e.reply ce gw).response →
    (e.reply ce gw).world.files .index = e.world.files .index
  uploads : e.req.method = .delete → ∀ id, e.req.query["uploadId"]? ≠ some id →
    (e.reply ce gw).world.inFlight id = e.world.inFlight id

end Exchange

/-! ## What handlers come to -/

/-- What a handler comes to leaves the objects alone, or completes an upload. -/
def Gate.Apart (ce : CeRs) (gw : Gateway) (req : HttpRequest) (env : Env) (s : Store) (w : World)
    (x : Gate) : Prop :=
  Completes req (x.run ce gw req env s w).response ∨
    (x.run ce gw req env s w).world.files .index = w.files .index

/-- An authorized request that controls an upload is no DELETE; a PUT has both its
parameters; the save at the end of a completion does not fail. -/
structure Dispatched (gw : Gateway) (req : HttpRequest) (env : Env) : Prop where
  delete : req.method ≠ .delete
  put : req.method = .put → ¬gw.bodyLimit < req.body.length →
    (req.query["partNumber"]?).isSome ∧ (req.query["uploadId"]?).isSome
  post : req.method = .post → req.query.contains "uploads" = false →
    env.saveFails .multipart = none

theorem apart_answer (r : Response) : (Gate.answer r).Apart ce gw req env s w := .inr rfl

theorem apart_read {ε α : Type} (x : Act ε α) (respond : Except ε α → Response) :
    (Gate.read x respond).Apart ce gw req env s w := .inr rfl

/-- A method that leaves the index file alone. -/
theorem apart_call {ε α : Type} {c : StoreCall} {op : Store → Op ε α} {f : ε → Failure}
    {g : α → Value} (h : c.Is ce op f g) (respond : Except ε α → Store → Response)
    (hc : (c.exec ce env s w).2.files .index = w.files .index) :
    (Gate.call op respond).Apart ce gw req env s w := by
  rw [h.exec] at hc
  exact .inr hc

theorem create_index (b k : String) (opts : PutOptions) :
    ((StoreCall.createMultipartUpload b k opts).exec ce env s w).2.files .index
      = w.files .index := by
  rcases createMultipartUpload_cases ce env b k opts s w with ⟨-, hf⟩ | ⟨st, st', -, -, -, hf⟩
  · rw [hf]
  · rw [hf]
    rfl

theorem putObject_apart (b k : String) (hm : req.method = .put)
    (hok : gw.authorize req env.now ⟨abilityWrite, b, k⟩ = .ok () → Dispatched gw req env)
    (hbody : ¬gw.bodyLimit < req.body.length) :
    (Gateway.putObject ce b k req).Guards gw req env.now (fun _ => False)
      (Gate.Apart ce gw req env s w) := by
  intro hauth
  right
  obtain ⟨hpn, huid⟩ := (hok hauth).put hm hbody
  split
  next pn uid _ _ =>
    unfold Gateway.putPart
    split
    next => exact apart_answer _
    next n _ =>
      exact apart_call (c := .uploadPart uid n req.body) (is_text fun _ => rfl) _
        (uploadPart_index uid n req.body s w)
  next hnone =>
    obtain ⟨pn, hpn⟩ := Option.isSome_iff_exists.mp hpn
    obtain ⟨uid, huid⟩ := Option.isSome_iff_exists.mp huid
    exact (hnone pn uid hpn huid).elim

theorem postComplete_apart (b k uid : String) (hm : req.method = .post)
    (huploads : req.query.contains "uploads" = false) (hsave : env.saveFails .multipart = none) :
    (Gateway.postComplete ce b k uid req).Guards gw req env.now (fun _ => False)
      (Gate.Apart ce gw req env s w) := by
  unfold Gateway.postComplete
  dsimp only
  split
  next => exact apart_answer _
  next =>
    generalize parseCompleteParts (Str.fromUtf8Lossy req.body) = parts
    unfold Gate.Guards Gate.Apart
    dsimp only [Gate.run]
    rcases Op.exec_cases ce env (Store.completeMultipartUpload ce uid parts) s w with ⟨e, h⟩ | h
    · exact .inr (by rw [h])
    · rw [h]
      rcases complete_prog_cases ce env uid parts s w with ⟨hf, -⟩ |
        ⟨st, upload, manifest, cid, i, j, -, -, ⟨-, hfails, -⟩ | ⟨hr, -⟩⟩
      · exact .inr (by rw [hf])
      · exact absurd hsave hfails
      · refine .inl ⟨hm, huploads, ?_⟩
        rw [hr]
        rfl

theorem postObject_apart (b k : String) (hm : req.method = .post)
    (hok : gw.authorize req env.now ⟨abilityWrite, b, k⟩ = .ok () → Dispatched gw req env) :
    (Gateway.postObject ce b k req).Guards gw req env.now (fun _ => False)
      (Gate.Apart ce gw req env s w) := by
  intro hauth
  right
  split
  next =>
    exact apart_call (c := .createMultipartUpload b k _) (is_text fun _ => rfl) _
      (create_index b k _)
  next huploads =>
    have hno : req.query.contains "uploads" = false := Bool.eq_false_iff.mpr huploads
    split
    next uid _ => exact postComplete_apart b k uid hm hno ((hok hauth).post hm hno)
    next => exact apart_answer _

/-- **A handler of a request on an object leaves the objects alone or completes an
upload, if the request is dispatched as a control request.** -/
theorem route_apart (b k : String) (hp : req.path = .object b k)
    (hok : gw.authorize req env.now ⟨abilityWrite, b, k⟩ = .ok () → Dispatched gw req env) :
    (Gateway.route ce gw req).Guards gw req env.now (fun _ => False)
      (Gate.Apart ce gw req env s w) := by
  unfold Gateway.route
  rw [hp]
  cases hm : req.method with
  | get => exact fun _ => .inr (apart_read _ _)
  | head => exact fun _ => .inr (apart_read _ _)
  | put =>
    refine guards_withBody apart_answer ?_
    intro hbody
    exact putObject_apart b k hm hok hbody
  | post => exact guards_withBody apart_answer fun _ => postObject_apart b k hm hok
  | delete => exact fun hauth => absurd hm (hok hauth).delete

/-- A DELETE does not look at uploads at all. -/
theorem route_delete_uploads (hm : req.method = .delete) :
    (Gateway.route ce gw req).Guards gw req env.now (fun _ => False) fun x =>
      ∀ id, (x.run ce gw req env s w).world.inFlight id = w.inFlight id := by
  have deletes : ∀ {c : StoreCall} {op : Op String Unit} (respond : Except String Unit → Store →
      Response), c.Is ce (fun _ => op) .message (fun _ => .unit) → c.about env = none → ∀ id,
      ((Gate.call (fun _ => op) respond).run ce gw req env s w).world.inFlight id
        = w.inFlight id := by
    intro c op respond h hnone id
    have hother : (c.exec ce env s w).2.inFlight id = w.inFlight id :=
      inFlight_other c s (by rw [hnone]; exact nofun)
    rw [h.exec] at hother
    exact hother
  unfold Gateway.route
  rw [hm]
  cases req.path with
  | root => exact fun _ => rfl
  | bucket b => exact fun _ => rfl
  | object b k =>
    intro _
    right
    unfold Gate.Guards
    split
    next v _ => exact deletes (c := .deleteObjectVersion b k v) _ (is_unit fun _ => rfl) rfl
    next => exact deletes (c := .deleteObject b k) _ (is_unit fun _ => rfl) rfl

/-! ## Runs -/

/-- A DELETE leaves every upload as it is, the one that it names included. -/
theorem Exchange.delete_uploads (e : Exchange) (hm : e.req.method = .delete) (id : String) :
    (e.reply ce gw).world.inFlight id = e.world.inFlight id := by
  unfold reply
  rw [serve_eq]
  rcases Gate.cleared_guards (fun r id => rfl) (route_delete_uploads hm) with
    ⟨g, hex, -⟩ | huploads
  · exact hex.elim
  · exact huploads id

/-- What is asked of a request that controls an upload. -/
def Exchange.Heeded (gw : Gateway) (e : Exchange) : Prop :=
  ∀ b k, e.req.path = .object b k →
    gw.authorize e.req e.env.now ⟨abilityWrite, b, k⟩ = .ok () → Dispatched gw e.req e.env

theorem Exchange.apart (e : Exchange) (hc : e.req.Controls) (h : e.Heeded gw) :
    e.Apart ce gw := by
  constructor
  · intro hnot
    obtain ⟨⟨b, k, hp⟩, -⟩ := hc
    unfold reply at *
    rw [serve_eq] at hnot ⊢
    have hroute : (Gateway.route ce gw e.req).Guards gw e.req e.env.now (fun _ => False)
        (Gate.Apart ce gw e.req e.env e.store e.world) := route_apart b k hp (h b k hp)
    rcases Gate.cleared_guards apart_answer hroute with ⟨g, hex, -⟩ | hdone | hindex
    · exact hex.elim
    · exact absurd hdone hnot
    · exact hindex
  · exact fun hm id _ => e.delete_uploads hm id

namespace Serving

/-- Every request that controls an upload is dispatched as one. -/
def Heeding (gw : Gateway) (x : Serving) : ServingEvent → Prop
  | .request req env => req.Controls → (⟨req, env, x.store, x.world⟩ : Exchange).Heeded gw
  | .elsewhere .. => True

/-- **In any run a DELETE leaves the uploads alone. In a run in which every request
that controls an upload is dispatched as one, no such request touches an object or
another upload, until it completes its own.** -/
theorem controls_apart (ce : CeRs) (gw : Gateway) (s₀ : Store) (w₀ : World) (x : Serving) :
    (Reach (fire ce gw) (fun _ _ => True) (start s₀ w₀) x →
      ∀ e ∈ x.log, e.req.method = .delete → ∀ id,
        (e.reply ce gw).world.inFlight id = e.world.inFlight id) ∧
    (Reach (fire ce gw) (Heeding gw) (start s₀ w₀) x →
      ∀ e ∈ x.log, e.req.Controls → e.Apart ce gw) := by
  constructor
  · intro h
    exact log_forall (fun _ _ _ _ => Exchange.delete_uploads _) h
  · intro h
    exact log_forall (fun _ _ _ hok hc => Exchange.apart _ hc (hok hc)) h

/-! A client puts an object, begins to upload it again in parts, and gives up. -/

private def openGateway : Gateway := ⟨none, 1000⟩

private def sent (method : Method) (query : List (String × String)) (body : Bytes) (now : Nat) :
    ServingEvent :=
  .request ⟨method, .object "photos" "cat", [], Std.ExtTreeMap.ofList query, body⟩
    (Env.calm CeRs.plain now "u")

private def makeBucketPhotos : ServingEvent :=
  .request ⟨.put, .bucket "photos", [], ∅, []⟩ (Env.calm CeRs.plain 6 "u")

private def uploading : List ServingEvent :=
  [makeBucketPhotos, sent .put [] [1] 7, sent .post [("uploads", "")] [] 8,
    sent .put [("partNumber", "1"), ("uploadId", "u")] [2] 9]

private def uploaded : Serving :=
  (play (fire CeRs.plain openGateway) uploading (start (.fresh 1) .blank)).getD
    (start (.fresh 1) .blank)

private def givenUp : Serving :=
  (fire CeRs.plain openGateway (sent .delete [("uploadId", "u")] [] 10) uploaded).getD uploaded

private theorem givenUp_reach :
    Reach (fire CeRs.plain openGateway) (fun _ _ => True) (start (.fresh 1) .blank) givenUp :=
  reach_of_play (uploading ++ [sent .delete [("uploadId", "u")] [] 10])
    (along_of_forall _ _ fun _ _ _ => trivial) rfl

/-- The abort request deletes the object. -/
theorem abort_deletes_object :
    ¬ ∀ (ce : CeRs) (gw : Gateway) (s₀ : Store) (w₀ : World) (x : Serving),
      Reach (fire ce gw) (fun _ _ => True) (start s₀ w₀) x →
      ∀ e ∈ x.log, e.req.Controls → e.Apart ce gw := by
  intro h
  let e : Exchange := givenUp.log.getLast (by decide)
  have hapart : e.Apart CeRs.plain openGateway :=
    h CeRs.plain openGateway (.fresh 1) .blank givenUp givenUp_reach e (List.getLast_mem _)
      ⟨⟨"photos", "cat", rfl⟩, .inr (by decide)⟩
  have hfile := hapart.index fun hdone => nomatch hdone.1
  have hkept : (e.reply CeRs.plain openGateway).world.historyOf "photos" "cat"
      = e.world.historyOf "photos" "cat" := by
    unfold World.historyOf
    rw [hfile]
  exact absurd (congrArg Option.isSome hkept) (by decide)

/-- Up to there the upload leaves the object alone, and the DELETE leaves the upload. -/
theorem controls_apart_uploading :
    (uploaded.log.length = 4 ∧
      ∀ e ∈ uploaded.log, e.req.Controls → e.Apart CeRs.plain openGateway) ∧
    givenUp.log.length = 5 ∧ ∀ e ∈ givenUp.log, e.req.method = .delete → ∀ id,
      (e.reply CeRs.plain openGateway).world.inFlight id = e.world.inFlight id := by
  have hreach : Reach (fire CeRs.plain openGateway) (Heeding openGateway)
      (start (.fresh 1) .blank) uploaded := by
    refine reach_of_play uploading (along_of_forall _ _ ?_) rfl
    intro e he t
    unfold uploading at he
    simp only [List.mem_cons, List.not_mem_nil, or_false] at he
    rcases he with rfl | rfl | rfl | rfl
    · rintro ⟨⟨b, k, hp⟩, -⟩
      exact nomatch hp
    · rintro ⟨-, hq⟩
      exact absurd hq (by decide)
    · exact fun _ _ _ _ _ => ⟨nofun, nofun, fun _ _ => rfl⟩
    · exact fun _ _ _ _ _ => ⟨nofun, fun _ _ => ⟨rfl, rfl⟩, fun _ _ => rfl⟩
  exact ⟨⟨rfl, (controls_apart CeRs.plain openGateway (.fresh 1) .blank uploaded).2 hreach⟩,
    rfl, (controls_apart CeRs.plain openGateway (.fresh 1) .blank givenUp).1 givenUp_reach⟩

end Serving

end CeStorage
