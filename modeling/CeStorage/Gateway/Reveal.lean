import CeStorage.Gateway.Serving
import CeStorage.Gateway.Writes

/-!
# What a request reveals

What a request reveals is stated by comparison: it reveals an object if the
response would be another one were the object another one. A handler that looks
at an object checks first that the presenter may read it (`route_discreet`), but for
one: a PutObject looks at the condition of its write, and whether it is refused
tells something of the object. These requests, which `Peeks` tells from their input
and the state, are all that reveals without a grant (`reads_iff`).
-/

namespace CeStorage

open Lib
open Std (ExtTreeMap)

variable {ce : CeRs} {env : Env} {gw : Gateway} {req : HttpRequest} {b k : String}

/-! ## Revealing -/

/-- The key a request needs a grant for: listing and bulk delete are authorized
on the bucket. -/
def Path.scope : Path → String → String
  | .object .., k => k
  | _, _ => ""

/-- The response depends on what is stored under `k` in `b`. -/
def Exchange.Reveals (ce : CeRs) (gw : Gateway) (e : Exchange) (b k : String) : Prop :=
  ∃ s' w', SameElsewhere b k e.store e.world s' w' ∧
    (e.reply ce gw).response ≠ (serve ce gw e.req e.env s' w').response

/-- The request is a PutObject of `k` in `b` with a condition on what is stored there,
and nothing refuses it before it looks. -/
structure PeeksAt (gw : Gateway) (req : HttpRequest) (env : Env) (s : Store) (w : World)
    (b k : String) : Prop where
  target : req.target w = some (b, k)
  plain : req.isPlainPut = true
  body : ¬gw.bodyLimit < req.body.length
  auth : gw.authorize req env.now ⟨abilityWrite, b, k⟩ = .ok ()
  condition : (extractPreconditions req).OnWrite
  starts : PutStarts env b k req.body (putOptions req) s w

def Peeks (gw : Gateway) (req : HttpRequest) (env : Env) (s : Store) (w : World) : Prop :=
  ∃ b k, PeeksAt gw req env s w b k

/-! ## What responses depend on -/

section
variable {s : Store} {w : World}

/-- What a handler comes to answers the same whatever is stored under `k` in
`b`. -/
def Gate.Discreet (ce : CeRs) (gw : Gateway) (req : HttpRequest) (env : Env) (b k : String)
    (s : Store) (w : World) (x : Gate) : Prop :=
  ∀ s' w', SameElsewhere b k s w s' w' →
    (x.run ce gw req env s w).response = (x.run ce gw req env s' w').response

theorem discreet_answer (r : Response) : (Gate.answer r).Discreet ce gw req env b k s w :=
  fun _ _ _ => rfl

theorem discreet_read {ε α : Type} {x : Act ε α}
    (h : ∀ s' w', SameElsewhere b k s w s' w' →
      (exec ce env x s w).1.1 = (exec ce env x s' w').1.1) (respond : Except ε α → Response) :
    (Gate.read x respond).Discreet ce gw req env b k s w :=
  fun s' w' hsame => congrArg respond (h s' w' hsame)

section
variable {ε α : Type} {c : StoreCall} {op : Store → Op ε α} {f : ε → Failure} {g : α → Value}

/-- A method returns the same, if it is a call that does not ask for the object. -/
theorem StoreCall.Is.same (h : c.Is ce op f g) (hc : ¬c.Asks env b k s w) {s' : Store}
    {w' : World} (hsame : SameElsewhere b k s w s' w') :
    ((op s).exec ce env s w).1.1 = ((op s').exec ce env s' w').1.1 := by
  have heq : (c.exec ce env s w).1.1 = (c.exec ce env s' w').1.1 := exec_same hsame hc
  rw [h.exec, h.exec] at heq
  exact h.inject_inj heq

theorem discreet_call (h : c.Is ce op f g) (hc : ¬c.Asks env b k s w)
    (respond : Except ε α → Response) :
    (Gate.call op fun r _ => respond r).Discreet ce gw req env b k s w :=
  fun _ _ hsame => congrArg respond (h.same hc hsame)

end

/-- A copy answers with the etag of its source. -/
theorem discreet_copy {sb sk : String} (hne : ¬(sb = b ∧ sk = k)) (b' k' : String) :
    (Gate.call (fun _ => Store.copyObject sb sk b' k') fun r self =>
      Gateway.copyResponse r (self.headObject b' k')).Discreet ce gw req env b k s w := by
  intro s' w' hsame
  have h : (StoreCall.copyObject sb sk b' k').Is ce (fun _ => Store.copyObject sb sk b' k')
      .message fun _ => .unit := is_unit fun _ => rfl
  have heq : ((Store.copyObject sb sk b' k').exec ce env s w).1.1
      = ((Store.copyObject sb sk b' k').exec ce env s' w').1.1 := h.same hne hsame
  dsimp only [Gate.run]
  rw [← heq]
  cases hr : ((Store.copyObject sb sk b' k').exec ce env s w).1.1 with
  | error e => rfl
  | ok u =>
    rw [hr] at heq
    have hhead := copyObject_head_same (v := .unit) hsame hne (by rw [h.exec, hr]; rfl)
      (by rw [h.exec, ← heq]; rfl)
    rw [h.exec, h.exec] at hhead
    exact congrArg _ hhead

theorem putPart_discreet (pn id : String) :
    (Gateway.putPart ce pn id req).Guards gw req env.now (· = ⟨abilityRead, b, k⟩)
      (Gate.Discreet ce gw req env b k s w) := by
  unfold Gateway.putPart
  split
  · exact discreet_answer _
  · next n _ =>
    exact discreet_call (c := .uploadPart id n req.body) (is_text fun _ => rfl) not_false _

theorem putCopy_discreet (b' k' source : String) :
    (Gateway.putCopy b' k' source).Guards gw req env.now (· = ⟨abilityRead, b, k⟩)
      (Gate.Discreet ce gw req env b k s w) := by
  unfold Gateway.putCopy
  split
  · exact discreet_answer _
  · next sb sk _ =>
    exact Gate.guards_key fun hne _ => discreet_copy hne b' k'

theorem listBuckets_discreet : Gateway.listBuckets.Discreet ce gw req env b k s w := by
  refine discreet_read ?_ _
  intro s' w' hsame
  rw [exec_bind_ok exec_self, exec_bind_ok exec_self]
  exact congrArg Except.ok hsame.cache.listBuckets

theorem listObjects_discreet (b' : String) :
    (Gateway.listObjects b' req).Guards gw req env.now (· = ⟨abilityRead, b, ""⟩)
      (Gate.Discreet ce gw req env b k s w) := by
  refine Gate.guards_key fun hne _ => discreet_read ?_ _
  intro s' w' hsame
  rw [exec_bind_ok exec_self, exec_bind_ok exec_self, exec_lift, exec_lift]
  exact hsame.cache.list (fun hb => hne ⟨hb, rfl⟩) _ _ _ _

theorem bulkDelete_discreet (b' : String) {ex : Grant → Prop} :
    (Gateway.bulkDelete b' req).Guards gw req env.now ex (Gate.Discreet ce gw req env b k s w) := by
  unfold Gateway.bulkDelete
  split
  · exact discreet_answer _
  · intro _
    right
    dsimp only
    split
    · exact discreet_answer _
    · exact discreet_call (c := .deleteObjects b' (parseDeleteKeys (Str.fromUtf8Lossy req.body)))
        ⟨fun _ => rfl, fun _ _ he => Failure.message.inj he, fun _ _ hv => Value.results.inj hv⟩
        not_false _

/-- A PutObject reveals something only if it looks at its condition. -/
theorem putObject_discreet (hpeeks : ¬Peeks gw req env s w) {b' k' : String}
    (hpath : req.path = .object b' k') (hput : req.method = .put)
    (hbody : ¬gw.bodyLimit < req.body.length) :
    (Gateway.putObject ce b' k' req).Guards gw req env.now (· = ⟨abilityRead, b, k⟩)
      (Gate.Discreet ce gw req env b k s w) := by
  intro hauth
  right
  split
  next => exact putPart_discreet _ _
  next hpart =>
    split
    next => exact putCopy_discreet b' k' _
    next hcopy =>
      refine discreet_call (c := .putObjectOpts b' k' req.body (putOptions req))
        (is_object fun _ => rfl) ?_ _
      rintro ⟨-, hcondition, hstarts⟩
      refine hpeeks ⟨b', k', ?_, ?_, hbody, hauth, hcondition, hstarts⟩
      · unfold HttpRequest.target
        rw [hpath, hput]
        dsimp only
        split
        next pn uid hpn huid => exact absurd huid (hpart pn uid hpn)
        next => rfl
      · unfold HttpRequest.isPlainPut
        rw [hput, hcopy]
        rfl

theorem postObject_discreet (b' k' : String) {ex : Grant → Prop} :
    (Gateway.postObject ce b' k' req).Guards gw req env.now ex
      (Gate.Discreet ce gw req env b k s w) := by
  intro _
  right
  split
  · exact discreet_call (c := .createMultipartUpload b' k' _) (is_text fun _ => rfl) not_false _
  · split
    next id _ =>
      unfold Gateway.postComplete
      dsimp only
      split
      · exact discreet_answer _
      · exact discreet_call (c := .completeMultipartUpload id _) (is_object fun _ => rfl) not_false
          _
    next => exact discreet_answer _

theorem getObject_discreet (b' k' : String) :
    (Gateway.getObject ce b' k' req).Guards gw req env.now (· = ⟨abilityRead, b, k⟩)
      (Gate.Discreet ce gw req env b k s w) := by
  refine Gate.guards_key fun hne _ => discreet_read ?_ _
  intro s' w' hsame
  split
  · exact getObjectRangeOpts_same hsame hne _ _
  · exact getObjectOpts_same hsame hne _ _

theorem headObject_discreet (b' k' : String) :
    (Gateway.headObject b' k' req).Guards gw req env.now (· = ⟨abilityRead, b, k⟩)
      (Gate.Discreet ce gw req env b k s w) := by
  refine Gate.guards_key fun hne _ => discreet_read ?_ _
  intro s' w' hsame
  rw [exec_bind_ok exec_self, exec_bind_ok exec_self, exec_lift, exec_lift]
  split
  · exact hsame.cache.headVersion hne _
  · exact hsame.cache.head hne

theorem deleteObject_discreet (b' k' : String) {ex : Grant → Prop} :
    (Gateway.deleteObject b' k' req).Guards gw req env.now ex
      (Gate.Discreet ce gw req env b k s w) := by
  intro _
  right
  unfold Gate.Guards
  split
  next v _ =>
    exact discreet_call (c := .deleteObjectVersion b' k' v) (is_unit fun _ => rfl) not_false _
  next =>
    exact discreet_call (c := .deleteObject b' k') (is_unit fun _ => rfl) not_false _

/-- **A handler answers the same whatever an object is, unless it looks at a write
condition or checks that the presenter may read the object.** -/
theorem route_discreet (hpeeks : ¬Peeks gw req env s w) (b k : String) :
    (Gateway.route ce gw req).Guards gw req env.now (· = ⟨abilityRead, b, req.path.scope k⟩)
      (Gate.Discreet ce gw req env b k s w) := by
  unfold Gateway.route
  split
  next hp hm => exact listBuckets_discreet
  next hp hm => exact listBuckets_discreet
  next b' hp hm =>
    exact discreet_call (c := .makeBucket b') (is_unit fun _ => rfl) not_false _
  next b' hp hm =>
    rw [hp]
    exact listObjects_discreet b'
  next b' hp hm =>
    rw [hp]
    exact listObjects_discreet b'
  next b' hp hm => exact guards_withBody discreet_answer fun _ => bulkDelete_discreet b'
  next b' k' hp hm =>
    rw [hp]
    exact guards_withBody discreet_answer (putObject_discreet hpeeks hp hm)
  next b' k' hp hm =>
    rw [hp]
    exact getObject_discreet b' k'
  next b' k' hp hm =>
    rw [hp]
    exact headObject_discreet b' k'
  next b' k' hp hm => exact guards_withBody discreet_answer fun _ => postObject_discreet b' k'
  next b' k' hp hm => exact deleteObject_discreet b' k'
  next => exact discreet_answer _

end

/-- **What a request reveals it was granted to read**, if it looks at no write
condition. -/
theorem Exchange.reveals_granted (e : Exchange) (hauth : gw.auth.isSome)
    (hpeeks : ¬Peeks gw e.req e.env e.store e.world) (h : e.Reveals ce gw b k) :
    ⟨abilityRead, b, e.req.path.scope k⟩ ∈ (e.reply ce gw).granted := by
  obtain ⟨s', w', hsame, hne⟩ := h
  unfold reply at *
  rw [serve_eq] at hne ⊢
  rw [serve_eq] at hne
  rcases Gate.cleared_guards discreet_answer (route_discreet hpeeks b k) with
    ⟨g, rfl, hg⟩ | hdiscreet
  · exact hg hauth
  · exact absurd (hdiscreet s' w' hsame) hne

/-! ## What a write condition tells -/

/-- The texts that a write is refused with for its condition. -/
def writeRefusals : List String :=
  ["If-None-Match: * but object exists", "If-None-Match matched existing etag",
    "If-Match did not match existing object"]

/-- They are told apart. -/
theorem writeRefusals_body : ∀ m ∈ writeRefusals, ∀ m' ∈ writeRefusals, m ≠ m' →
    (storageErr (.preconditionFailed m)).body ≠ (storageErr (.preconditionFailed m')).body := by
  decide +kernel

theorem checkWrite_cases (p : Preconditions) (existing : Option String) :
    p.checkWrite existing = .ok () ∨
      ∃ m ∈ writeRefusals, p.checkWrite existing = .error (.preconditionFailed m) := by
  unfold Preconditions.checkWrite
  split
  · exact .inr ⟨_, .head _, rfl⟩
  · split
    · exact .inr ⟨_, .tail _ (.head _), rfl⟩
    · split
      · exact .inr ⟨_, .tail _ (.tail _ (.head _)), rfl⟩
      · exact .inl rfl

/-- A condition tells some object from none. -/
theorem checkWrite_tells {p : Preconditions} (h : p.OnWrite) :
    ∃ etag, p.checkWrite none ≠ p.checkWrite (some etag) := by
  unfold Preconditions.checkWrite
  cases hnone : p.ifNoneMatch with
  | some m =>
    refine ⟨unquote m, ?_⟩
    by_cases hm : m = "*"
    · cases p.ifMatch <;> simp [hm]
    · cases p.ifMatch <;> simp [hm]
  | none =>
    obtain ⟨m, hm⟩ : ∃ m, p.ifMatch = some m := by
      rcases h with h | h
      · exact Option.isSome_iff_exists.mp h
      · rw [hnone] at h
        cases h
    refine ⟨unquote m, ?_⟩
    simp [hm]

theorem putCondition_of_onWrite {opts : PutOptions} (h : opts.preconditions.OnWrite) (i : Index)
    (b k : String) : putCondition i b k opts
      = opts.preconditions.checkWrite ((i.head b k).toOption.map (·.etag)) := by
  refine if_pos ?_
  unfold Preconditions.any
  rcases h with h | h <;> simp [h]

namespace PeeksAt

variable {s : Store} {w : World} {i : Index}

/-- A request that looks is answered by what it finds: with the refusal, or with
another status. -/
theorem response (ce : CeRs) (h : PeeksAt gw req env s w b k) (hi : env.loadIndex w = .ok i) :
    match putCondition i b k (putOptions req) with
    | .error e => (serve ce gw req env s w).response = storageErr e
    | .ok () => (serve ce gw req env s w).response.status ≠ 412 := by
  obtain ⟨j, hj, hb⟩ := h.starts.bucket
  cases hi.symm.trans hj
  have hserve : (serve ce gw req env s w).response
      = putResponse (env.transact .backend (putDecision ce env b k req.body (putOptions req)) s
        w).1.1 := by
    have hexec : (s.putObjectOpts b k req.body (putOptions req)).exec ce env s w = _ :=
      putObjectOpts_exec s b k req.body (putOptions req)
    rw [h.starts.check, h.starts.lock] at hexec
    unfold serve
    rw [route_plainPut req h.target h.plain]
    unfold Gateway.withBody
    rw [if_neg h.body, (Gate.run_check h.auth).1]
    exact (putPlain_run gw req req hexec).1
  rw [hserve]
  unfold Env.transact
  rw [hi]
  dsimp only
  unfold putDecision
  rw [if_pos hb]
  cases putCondition i b k (putOptions req) with
  | error e => rfl
  | ok u =>
    dsimp only
    cases env.putObject req.body with
    | error e => exact Nat.ne_of_beq_eq_false rfl
    | ok cid =>
      dsimp only
      unfold Env.commit
      cases env.saveFails .index <;> exact Nat.ne_of_beq_eq_false rfl

/-- Where the condition comes out otherwise, the response is another. -/
theorem response_ne (ce : CeRs) {w' : World} {j : Index} (h : PeeksAt gw req env s w b k)
    (h' : PeeksAt gw req env s w' b k) (hi : env.loadIndex w = .ok i)
    (hj : env.loadIndex w' = .ok j)
    (hne : putCondition i b k (putOptions req) ≠ putCondition j b k (putOptions req)) :
    (serve ce gw req env s w).response ≠ (serve ce gw req env s w').response := by
  have hcond : ∀ l, putCondition l b k (putOptions req) = _ :=
    fun l => putCondition_of_onWrite h.condition l b k
  have hr := h.response ce hi
  have hr' := h'.response ce hj
  rw [hcond i] at hne hr
  rw [hcond j] at hne hr'
  intro heq
  rw [← heq] at hr'
  rcases checkWrite_cases (putOptions req).preconditions _ with hc | ⟨m, hm, hc⟩ <;>
    rcases checkWrite_cases (putOptions req).preconditions _ with hc' | ⟨m', hm', hc'⟩ <;>
    rw [hc] at hr hne <;> rw [hc'] at hr' hne
  · exact hne rfl
  · rw [hr'] at hr
    exact hr rfl
  · rw [hr] at hr'
    exact hr' rfl
  · refine writeRefusals_body m hm m' hm' ?_ (congrArg Response.body (hr.symm.trans hr'))
    rintro rfl
    exact hne rfl

/-- The same request, with another history under the key. -/
theorem setHistory (h : PeeksAt gw req env s w b k) (entry : Option ObjectEntry) :
    ∃ j w', SameElsewhere b k s w s w' ∧ PeeksAt gw req env s w' b k ∧
      env.loadIndex w' = .ok j ∧ j.history b k = entry := by
  obtain ⟨i, hi, hcontains⟩ := h.starts.bucket
  obtain ⟨bk, hb⟩ : ∃ bk, i.buckets[b]? = some bk := by
    rw [ExtTreeMap.contains_eq_isSome_getElem?] at hcontains
    exact Option.isSome_iff_exists.mp hcontains
  obtain ⟨bk', hframe, hobjects, hentry⟩ : ∃ bk' : Bucket, bk'.frame = bk.frame ∧
      (∀ k', k' ≠ k → bk'.objects[k']? = bk.objects[k']?) ∧ bk'.objects[k]? = entry := by
    cases entry with
    | none => exact ⟨{ bk with objects := bk.objects.erase k }, rfl,
        fun k' hne => get_erase_ne hne.symm, get_erase_self⟩
    | some e => exact ⟨{ bk with objects := bk.objects.insert k e }, rfl,
        fun k' hne => get_insert_ne hne.symm, get_insert_self⟩
  have hsame : Index.SameBut b k i (i.setBucket b bk') :=
    Index.sameBut_setBucket hb hframe hobjects
  let w' := w.setFile .index (some (.index (i.setBucket b bk')))
  have hload : env.loadIndex w' = .ok (i.setBucket b bk') := env.loadIndex_kept hi rfl rfl
  have hindex : w.files .index = some (.index i) := by
    rcases Index.file_of_decode (env.decode_of_loadIndex hi) with ⟨-, rfl⟩ | hfile
    · cases hcontains
    · exact hfile
  refine ⟨_, w', ⟨.refl b k _, rfl, .inr ⟨_, _, hindex, rfl, hsame⟩, rfl⟩, ?_, hload, ?_⟩
  · exact { h with
      starts := ⟨h.starts.check, h.starts.lock, _, hload, hsame.contains b ▸ hcontains⟩ }
  · rw [Index.history_setBucket, if_pos rfl, hentry]

end PeeksAt

/-- **A request that looks at its condition reveals the object.** -/
theorem Exchange.reveals_of_peeksAt {e : Exchange}
    (h : PeeksAt gw e.req e.env e.store e.world b k) : e.Reveals ce gw b k := by
  obtain ⟨etag, htells⟩ := checkWrite_tells h.condition
  obtain ⟨i, hi, -⟩ := h.starts.bucket
  let m : ObjectMeta := ObjectMeta.new etag 0 "" 0
  obtain ⟨j, w₁, hsame₁, h₁, hj, hnone⟩ := h.setHistory none
  obtain ⟨l, w₂, hsame₂, h₂, hl, hsome⟩ := h.setHistory (some ⟨[⟨m, false⟩]⟩)
  have hne : putCondition j b k (putOptions e.req) ≠ putCondition l b k (putOptions e.req) := by
    have hjhead : (j.head b k).toOption = none := by
      cases hm : j.head b k with
      | error e => rfl
      | ok m' =>
        obtain ⟨entry, v, hentry, -⟩ := Index.head_eq_ok.mp hm
        rw [hnone] at hentry
        cases hentry
    have hlhead : l.head b k = .ok m := Index.head_eq_ok.mpr ⟨_, _, hsome, rfl, rfl, rfl⟩
    rw [putCondition_of_onWrite h.condition, putCondition_of_onWrite h.condition, hjhead, hlhead]
    exact htells
  by_contra hno
  -- so it is answered alike without the object and with the other
  have hall : ∀ w', SameElsewhere b k e.store e.world e.store w' →
      (e.reply ce gw).response = (serve ce gw e.req e.env e.store w').response := by
    intro w' hsame
    by_contra hdiffers
    exact hno ⟨e.store, w', hsame, hdiffers⟩
  exact h₁.response_ne ce h₂ hj hl hne ((hall w₁ hsame₁).symm.trans (hall w₂ hsame₂))

/-- Nothing is granted to it but the write. -/
theorem PeeksAt.granted {s : Store} {w : World} (ce : CeRs) (hauth : gw.auth.isSome)
    (h : PeeksAt gw req env s w b k) :
    (serve ce gw req env s w).granted = [⟨abilityWrite, b, k⟩] := by
  rw [serve_eq, route_plainPut req h.target h.plain]
  unfold Gateway.withBody
  rw [if_neg h.body]
  unfold Gate.cleared
  rw [h.auth]
  dsimp only
  rw [if_pos hauth]
  rfl

/-- **Exactly the requests that look at no write condition reveal only what they were
granted to read.** -/
theorem Exchange.reads_iff (ce : CeRs) (e : Exchange) (hauth : gw.auth.isSome) :
    (∀ b k, e.Reveals ce gw b k →
      ⟨abilityRead, b, e.req.path.scope k⟩ ∈ (e.reply ce gw).granted) ↔
      ¬Peeks gw e.req e.env e.store e.world := by
  constructor
  · intro h hpeeks
    obtain ⟨b, k, hpeeks⟩ := hpeeks
    have hmem := h b k (reveals_of_peeksAt hpeeks)
    unfold reply at hmem
    rw [hpeeks.granted ce hauth] at hmem
    have hability : abilityRead = abilityWrite :=
      congrArg Grant.ability (List.mem_singleton.mp hmem)
    exact absurd hability (by decide)
  · exact fun h b k => reveals_granted e hauth h

end CeStorage
