import CeStorage.Gateway.Contain
import CeStorage.Gateway.Writes
import CeStorage.Uploads

/-!
# What a request does to the store

A request makes at most one call that mutates the store. `HttpRequest.call` says
which one, from the request alone, and `HttpRequest.makes` whether its checks let
it come to that. Serving a request is then that call, on the handle and the files
of the gateway (`serve_makes`), so a run of the gateway is a run of calls on its
store (`Serving.reach_ledger`).
-/

namespace CeStorage

open Lib

variable {ce : CeRs} {env : Env} {gw : Gateway} {req : HttpRequest} {s : Store} {w : World}
  {b k : String}

/-! ## The call of a request -/

namespace HttpRequest

/-- The call of a PUT on a key. -/
def putCall (b k : String) (req : HttpRequest) : Option StoreCall :=
  match req.query["partNumber"]?, req.query["uploadId"]? with
  | some pn, some uid => (Str.parseU32 pn).map fun n => .uploadPart uid n req.body
  | _, _ =>
    match req.headerStr headerCopySource with
    | some source =>
      (Str.splitOnce '/' (Str.trimStartMatches (· == '/') source)).map fun p =>
        .copyObject p.1 p.2 b k
    | none => some (.putObjectOpts b k req.body (putOptions req))

/-- The call of a POST on a key. -/
def postCall (b k : String) (req : HttpRequest) : Option StoreCall :=
  if req.query.contains "uploads" then
    some (.createMultipartUpload b k
      { contentType := Gateway.contentTypeOf req, metadata := extractUserMetadata req })
  else
    match req.query["uploadId"]? with
    | some uid =>
      let parts := parseCompleteParts (Str.fromUtf8Lossy req.body)
      if parts.isEmpty then none else some (.completeMultipartUpload uid parts)
    | none => none

/-- The call of a POST on a bucket. -/
def bulkDeleteCall (b : String) (req : HttpRequest) : Option StoreCall :=
  let keys := parseDeleteKeys (Str.fromUtf8Lossy req.body)
  if !req.query.contains "delete" || keys.isEmpty then none else some (.deleteObjects b keys)

/-- The call of a DELETE. -/
def deleteCall (b k : String) (req : HttpRequest) : StoreCall :=
  match req.query["versionId"]? with
  | some v => .deleteObjectVersion b k v
  | none => .deleteObject b k

/-- The call that a request makes if its checks succeed, if it makes one. -/
def call (gw : Gateway) (req : HttpRequest) : Option StoreCall :=
  match req.path, req.method with
  | .bucket b, .put => some (.makeBucket b)
  | .bucket b, .post => if gw.bodyLimit < req.body.length then none else req.bulkDeleteCall b
  | .object b k, .put => if gw.bodyLimit < req.body.length then none else req.putCall b k
  | .object b k, .post => if gw.bodyLimit < req.body.length then none else req.postCall b k
  | .object b k, .delete => some (req.deleteCall b k)
  | _, _ => none

end HttpRequest

namespace Gate

/-- A call on the store that a handler comes to is `c`. -/
def Makes (ce : CeRs) (c : Option StoreCall) : Gate → Prop
  | answer _ => True
  | check _ next => next.Makes ce c
  | call op _ => ∃ c' f g, c = some c' ∧ c'.Is ce op f g
  | read _ _ => True

/-- What is left of a handler once its checks are made calls the store. -/
def calls : Gate → Bool
  | call _ _ => true
  | _ => false

theorem makes_withBody {c : Option StoreCall} {x : Gate} (h : x.Makes ce c) :
    (gw.withBody req x).Makes ce (if gw.bodyLimit < req.body.length then none else c) := by
  unfold Gateway.withBody
  by_cases hbody : gw.bodyLimit < req.body.length
  · rw [if_pos hbody, if_pos hbody]
    trivial
  · rw [if_neg hbody, if_neg hbody]
    exact h

theorem makes_bulkDelete (b : String) :
    (Gateway.bulkDelete b req).Makes ce (req.bulkDeleteCall b) := by
  unfold Gateway.bulkDelete HttpRequest.bulkDeleteCall
  cases req.query.contains "delete" with
  | false => trivial
  | true =>
    unfold Makes
    dsimp only
    cases (parseDeleteKeys (Str.fromUtf8Lossy req.body)).isEmpty with
    | true => trivial
    | false =>
      exact ⟨.deleteObjects b (parseDeleteKeys (Str.fromUtf8Lossy req.body)), .message, .results,
        rfl, fun _ => rfl, fun _ _ he => Failure.message.inj he,
        fun _ _ hv => Value.results.inj hv⟩

theorem makes_putPart (pn uid : String) : (Gateway.putPart ce pn uid req).Makes ce
    ((Str.parseU32 pn).map fun n => .uploadPart uid n req.body) := by
  unfold Gateway.putPart
  cases Str.parseU32 pn with
  | none => trivial
  | some n => exact ⟨.uploadPart uid n req.body, _, _, rfl, is_text fun _ => rfl⟩

theorem makes_putCopy (b k source : String) : (Gateway.putCopy b k source).Makes ce
    ((Str.splitOnce '/' (Str.trimStartMatches (· == '/') source)).map fun p =>
      .copyObject p.1 p.2 b k) := by
  unfold Gateway.putCopy
  cases Str.splitOnce '/' (Str.trimStartMatches (· == '/') source) with
  | none => trivial
  | some p => exact ⟨.copyObject p.1 p.2 b k, _, _, rfl, is_unit fun _ => rfl⟩

theorem makes_putPlain (b k : String) : (Gateway.putPlain b k req).Makes ce
    (some (.putObjectOpts b k req.body (putOptions req))) :=
  ⟨.putObjectOpts b k req.body (putOptions req), _, _, rfl, is_object fun _ => rfl⟩

theorem makes_putObject (b k : String) :
    (Gateway.putObject ce b k req).Makes ce (req.putCall b k) := by
  unfold Gateway.putObject HttpRequest.putCall Makes
  cases hpart : req.query["partNumber"]? with
  | some pn =>
    cases huid : req.query["uploadId"]? with
    | some uid => exact makes_putPart pn uid
    | none =>
      cases req.headerStr headerCopySource with
      | some source => exact makes_putCopy b k source
      | none => exact makes_putPlain b k
  | none =>
    cases req.headerStr headerCopySource with
    | some source => exact makes_putCopy b k source
    | none => exact makes_putPlain b k

theorem makes_postObject (b k : String) :
    (Gateway.postObject ce b k req).Makes ce (req.postCall b k) := by
  unfold Gateway.postObject HttpRequest.postCall Makes
  by_cases huploads : req.query.contains "uploads" = true
  · rw [if_pos huploads, if_pos huploads]
    exact ⟨.createMultipartUpload b k _, _, _, rfl, is_text fun _ => rfl⟩
  · rw [if_neg huploads, if_neg huploads]
    cases req.query["uploadId"]? with
    | none => trivial
    | some uid =>
      unfold Gateway.postComplete
      dsimp only
      cases (parseCompleteParts (Str.fromUtf8Lossy req.body)).isEmpty with
      | true => trivial
      | false => exact ⟨.completeMultipartUpload uid _, _, _, rfl, is_object fun _ => rfl⟩

theorem makes_deleteObject (b k : String) :
    (Gateway.deleteObject b k req).Makes ce (some (req.deleteCall b k)) := by
  unfold Gateway.deleteObject HttpRequest.deleteCall Makes
  cases req.query["versionId"]? with
  | none => exact ⟨.deleteObject b k, _, _, rfl, is_unit fun _ => rfl⟩
  | some v => exact ⟨.deleteObjectVersion b k v, _, _, rfl, is_unit fun _ => rfl⟩

/-- Whatever the route, a handler makes the call of its request. -/
theorem makes_route : (Gateway.route ce gw req).Makes ce (req.call gw) := by
  unfold Gateway.route HttpRequest.call
  cases req.path with
  | root => cases req.method <;> trivial
  | bucket b =>
    cases req.method with
    | put => exact ⟨.makeBucket b, _, _, rfl, is_unit fun _ => rfl⟩
    | post => exact makes_withBody (makes_bulkDelete b)
    | _ => trivial
  | object b k =>
    cases req.method with
    | put => exact makes_withBody (makes_putObject b k)
    | post => exact makes_withBody (makes_postObject b k)
    | delete => exact makes_deleteObject b k
    | _ => trivial

end Gate

/-! ## Serving a request -/

/-- The call that a request makes, its checks included. -/
def HttpRequest.makes (ce : CeRs) (gw : Gateway) (req : HttpRequest) (now : Nat) :
    Option StoreCall :=
  if ((Gateway.route ce gw req).cleared gw req now).2.calls then req.call gw else none

namespace Gate

theorem makes_cleared {c : Option StoreCall} {x : Gate} {now : Nat} (h : x.Makes ce c) :
    (x.cleared gw req now).2.Makes ce c := by
  induction x with
  | answer r => trivial
  | check g next ih =>
    unfold cleared
    cases gw.authorize req now g with
    | error r => trivial
    | ok u => exact ih h
  | call op respond => exact h
  | read x respond => trivial

/-- What is left once the checks are made is no check: without a call it leaves the
store alone. -/
theorem run_idle {x : Gate} {now : Nat} (h : (x.cleared gw req now).2.calls = false) :
    ((x.cleared gw req now).2.run ce gw req env s w).store = s ∧
      ((x.cleared gw req now).2.run ce gw req env s w).world = w := by
  induction x with
  | answer r => exact ⟨rfl, rfl⟩
  | check g next ih =>
    unfold cleared at h ⊢
    cases hg : gw.authorize req now g with
    | error r => exact ⟨rfl, rfl⟩
    | ok u =>
      rw [hg] at h
      exact ih h
  | call op respond => cases h
  | read x respond => exact ⟨rfl, rfl⟩

variable (env gw req s w) in
theorem run_calls {c : Option StoreCall} {x : Gate} (h : x.Makes ce c) (hx : x.calls = true) :
    ∃ c', c = some c' ∧ (x.run ce gw req env s w).store = (c'.exec ce env s w).1.2 ∧
      (x.run ce gw req env s w).world = (c'.exec ce env s w).2 := by
  cases x with
  | call op respond =>
    obtain ⟨c', f, g, hc, his⟩ := h
    refine ⟨c', hc, ?_, ?_⟩
    · rw [his.exec]
      rfl
    · rw [his.exec]
      rfl
  | _ => exact nomatch hx

end Gate

/-- Serving a request is the call that it makes, and nothing else. -/
theorem serve_makes (ce : CeRs) (gw : Gateway) (req : HttpRequest) (env : Env) (s : Store)
    (w : World) :
    match req.makes ce gw env.now with
    | some c => (serve ce gw req env s w).store = (c.exec ce env s w).1.2 ∧
        (serve ce gw req env s w).world = (c.exec ce env s w).2
    | none => (serve ce gw req env s w).store = s ∧ (serve ce gw req env s w).world = w := by
  rw [serve_eq]
  unfold HttpRequest.makes
  cases hcalls : ((Gateway.route ce gw req).cleared gw req env.now).2.calls with
  | false => exact Gate.run_idle hcalls
  | true =>
    obtain ⟨c, hc, hs, hw⟩ := Gate.run_calls env gw req s w
      (Gate.makes_cleared Gate.makes_route) hcalls
    rw [if_pos rfl, hc]
    exact ⟨hs, hw⟩

theorem HttpRequest.call_of_makes {c : StoreCall} {now : Nat} (h : req.makes ce gw now = some c) :
    req.call gw = some c := by
  unfold makes at h
  split at h
  next => exact h
  next => exact nomatch h

/-! ## Runs of the gateway -/

/-- The call that an event of a run makes, if it makes one. -/
def ServingEvent.makes (ce : CeRs) (gw : Gateway) (x : Serving) : ServingEvent → Option Invocation
  | .request req env => (req.makes ce gw env.now).map fun c => ⟨x.store, env, c⟩
  | .elsewhere self env c => some ⟨self, env, c⟩

namespace Serving

/-- The ledger that keeps the calls of a run. -/
def book (ce : CeRs) (gw : Gateway) (event : ServingEvent) (x : Serving) (l : Ledger) : Ledger :=
  match event.makes ce gw x with
  | some e => l.after ce e
  | none => l

/-- Every call of the run is made in an environment that is honest on the ledger. -/
def Booked (ce : CeRs) (gw : Gateway) (y : Serving × Ledger) (event : ServingEvent) : Prop :=
  ∀ e, event.makes ce gw y.1 = some e → Honest ce y.2 e

theorem fire_world {event : ServingEvent} {x x' : Serving} (h : fire ce gw event x = some x') :
    x'.world = match event.makes ce gw x with
      | some e => (e.call.exec ce e.env e.handle x.world).2
      | none => x.world := by
  cases event with
  | request req env =>
    cases h
    have hserve := serve_makes ce gw req env x.store x.world
    unfold ServingEvent.makes
    dsimp only
    cases hc : req.makes ce gw env.now with
    | some c =>
      rw [hc] at hserve
      exact hserve.2
    | none =>
      rw [hc] at hserve
      exact hserve.2
  | elsewhere self env c =>
    cases h
    rfl

/-- **A run of the gateway is a run of calls on its store.** -/
theorem reach_ledger {s₀ : Store} {w₀ : World} {y : Serving × Ledger}
    (h : Reach (withGhost (fire ce gw) (book ce gw)) (Booked ce gw)
      (start s₀ w₀, Ledger.start w₀) y) :
    y.1.world = y.2.world ∧ Reach (Ledger.fire ce) (Honest ce) (Ledger.start w₀) y.2 := by
  refine h.inv (I := fun z : Serving × Ledger => z.1.world = z.2.world ∧
    Reach (Ledger.fire ce) (Honest ce) (Ledger.start w₀) z.2) ⟨rfl, .start⟩ ?_
  rintro z event z' - ⟨hworld, hreach⟩ hok hf
  obtain ⟨hfire, hbook⟩ := withGhost_eq_some.mp hf
  rw [← hbook, fire_world hfire]
  unfold book
  cases hmakes : event.makes ce gw z.1 with
  | none => exact ⟨hworld, hreach⟩
  | some e => exact ⟨by rw [hworld]; rfl, .next hreach (hok e hmakes) rfl⟩

end Serving

end CeStorage
