import CeStorage.Index.Apart
import CeStorage.Store.Outcomes

/-!
# What a call returns does not depend on other objects

Two states of a store that are the same but for one object, in the handle's cache
and in the index file. A call that does not ask for that object returns the same
in both (`exec_same`). A put asks for the object at its key if it gets to look at a
write condition.
-/

namespace CeStorage

open Lib
open Std (ExtTreeMap)

/-- Two states of handle and files that are the same for whoever does not ask for
`k` in `b`. -/
structure SameElsewhere (b k : String) (s : Store) (w : World) (s' : Store) (w' : World) :
    Prop where
  cache : Index.SameBut b k s.index s'.index
  size : s.maxObjectSize = s'.maxObjectSize
  index : w.files .index = w'.files .index ∨
    ∃ i j, w.files .index = some (.index i) ∧ w'.files .index = some (.index j) ∧
      Index.SameBut b k i j
  multipart : w.files .multipart = w'.files .multipart

/-- There is a condition on what a write finds; the two on times are of reads. -/
def Preconditions.OnWrite (self : Preconditions) : Prop :=
  self.ifMatch.isSome = true ∨ self.ifNoneMatch.isSome = true

/-- Nothing refuses a put before it looks at its condition. -/
structure PutStarts (env : Env) (b k : String) (bytes : Bytes) (opts : PutOptions) (s : Store)
    (w : World) : Prop where
  check : putCheck s.maxObjectSize k bytes opts = .ok ()
  lock : env.lock = .ok ()
  bucket : ∃ i, env.loadIndex w = .ok i ∧ i.buckets.contains b = true

/-- The call returns something about `k` in `b`. -/
def StoreCall.Asks (env : Env) (b k : String) (s : Store) (w : World) : StoreCall → Prop
  | .removeBucket b' _ | .sweepExpired b' => b' = b
  | .sweepAll => True
  | .copyObject sb sk _ _ => sb = b ∧ sk = k
  | .putObjectOpts b' k' bytes opts =>
    (b' = b ∧ k' = k) ∧ opts.preconditions.OnWrite ∧ PutStarts env b' k' bytes opts s w
  | _ => False

variable {b k : String} {ce : CeRs} {env : Env} {s s' : Store} {w w' : World}

theorem SameElsewhere.loadMultipart (h : SameElsewhere b k s w s' w') :
    env.loadMultipart w = env.loadMultipart w' := by
  unfold Env.loadMultipart
  rw [h.multipart]

/-- The index file fails to parse alike, or the two indexes differ in the one
object. -/
theorem SameElsewhere.decode (h : SameElsewhere b k s w s' w') :
    (∃ e, Index.decode (w.files .index) = .error e ∧ Index.decode (w'.files .index) = .error e) ∨
      ∃ i j, Index.decode (w.files .index) = .ok i ∧ Index.decode (w'.files .index) = .ok j ∧
        Index.SameBut b k i j := by
  rcases h.index with heq | ⟨i, j, hi, hj, hij⟩
  · rw [heq]
    cases Index.decode (w'.files .index) with
    | error e => exact .inl ⟨e, rfl, rfl⟩
    | ok i => exact .inr ⟨i, i, rfl, rfl, .refl b k i⟩
  · rw [hi, hj]
    unfold Index.decode
    dsimp only
    rw [← hij.schema]
    split
    next => exact .inl ⟨_, rfl, rfl⟩
    next => exact .inr ⟨i, j, rfl, rfl, hij⟩

theorem SameElsewhere.loadIndex (h : SameElsewhere b k s w s' w') (env : Env) :
    (∃ e, env.loadIndex w = .error e ∧ env.loadIndex w' = .error e) ∨
      ∃ i j, env.loadIndex w = .ok i ∧ env.loadIndex w' = .ok j ∧ Index.SameBut b k i j := by
  unfold Env.loadIndex
  split
  next => exact .inl ⟨_, rfl, rfl⟩
  next => exact h.decode

/-- The handle only brings its size limit into a call. -/
theorem SameElsewhere.op (h : SameElsewhere b k s w s' w') (c : StoreCall) :
    c.op ce s = c.op ce s' := by
  cases c with
  | putObjectOpts b' k' bytes opts =>
    dsimp only [StoreCall.op, Store.putObjectOpts]
    rw [h.size]
  | uploadPart id n bytes =>
    dsimp only [StoreCall.op, Store.uploadPart]
    rw [h.size]
  | _ => rfl

/-! ## Calls on the index -/

/-- What a decision returns, and whether it saves. -/
def Decision.outcome {ε α : Type} : Decision ε α → Except ε (Bool × α)
  | .refuse e => .error e
  | .keep a => .ok (false, a)
  | .save _ a => .ok (true, a)

theorem SameElsewhere.transact (h : SameElsewhere b k s w s' w') (wrap : String → Failure)
    {d : Index → Decision Failure Value × List (String × Bytes)}
    (hd : ∀ i j, env.loadIndex w = .ok i → Index.SameBut b k i j →
      (d i).1.outcome = (d j).1.outcome) :
    (env.transact wrap d s w).1.1 = (env.transact wrap d s' w').1.1 := by
  unfold Env.transact
  rcases h.loadIndex env with ⟨e, hi, hj⟩ | ⟨i, j, hi, hj, hij⟩
  · rw [hi, hj]
  · have heq := hd i j hi hij
    rw [hi, hj]
    dsimp only
    cases hdi : (d i).1 with
    | refuse e =>
      cases hdj : (d j).1 <;> rw [hdi, hdj] at heq <;> cases heq
      rfl
    | keep a =>
      cases hdj : (d j).1 <;> rw [hdi, hdj] at heq <;> cases heq
      rfl
    | save l a =>
      cases hdj : (d j).1 <;> rw [hdi, hdj] at heq <;> cases heq
      unfold Env.commit
      cases env.saveFails .index <;> rfl

/-- A single edit that succeeds or fails alike. -/
theorem sameDecision_edit {r r' : Except String Unit × Index} (h : r.1 = r'.1) :
    (StoreCall.plan.edit r).outcome = (StoreCall.plan.edit r').outcome := by
  obtain ⟨e | u, i⟩ := r
  · obtain ⟨e' | u', j⟩ := r'
    · cases h
      rfl
    · exact nomatch h
  · obtain ⟨e' | u', j⟩ := r'
    · exact nomatch h
    · rfl

/-- The conditions of a write refuse it with nothing but `PreconditionFailed`. -/
theorem checkWrite_error {p : Preconditions} {existing : Option String} {e : StorageError}
    (h : p.checkWrite existing = .error e) : ∃ m, e = .preconditionFailed m := by
  unfold Preconditions.checkWrite at h
  split at h
  · cases h
    exact ⟨_, rfl⟩
  · split at h
    · cases h
      exact ⟨_, rfl⟩
    · split at h
      · cases h
        exact ⟨_, rfl⟩
      · exact nomatch h

theorem putCondition_error {i : Index} {b k : String} {opts : PutOptions} {e : StorageError}
    (h : putCondition i b k opts = .error e) : ∃ m, e = .preconditionFailed m := by
  unfold putCondition at h
  split at h
  · exact checkWrite_error h
  · exact nomatch h

/-- Without a condition on what it finds, a put is not refused for it. -/
theorem putCondition_free {opts : PutOptions} (h : ¬opts.preconditions.OnWrite) (i : Index)
    (b k : String) : putCondition i b k opts = .ok () := by
  obtain ⟨hmatch, hnone⟩ := not_or.mp h
  rw [Bool.not_eq_true, Option.isSome_eq_false_iff, Option.isNone_iff_eq_none] at hmatch hnone
  unfold putCondition Preconditions.checkWrite
  rw [hmatch, hnone]
  split <;> rfl

/-- A put decides alike if its condition does. -/
theorem sameDecision_put {i j : Index} (h : Index.SameBut b k i j) {b' k' : String}
    {bytes : Bytes} {opts : PutOptions}
    (hcond : i.buckets.contains b' = true →
      putCondition i b' k' opts = putCondition j b' k' opts) :
    ((putDecision ce env b' k' bytes opts i).1.into .storage Value.object).outcome
      = ((putDecision ce env b' k' bytes opts j).1.into .storage Value.object).outcome := by
  unfold putDecision
  rw [← h.contains b']
  split
  next hb =>
    rw [hcond hb]
    cases putCondition j b' k' opts with
    | error e => rfl
    | ok u => cases env.putObject bytes <;> rfl
  next => rfl

/-- What a call on the index decides depends on no object it does not ask for. -/
theorem plan_same {c : StoreCall} {d : Index → Decision Failure Value × List (String × Bytes)}
    (hd : c.plan ce env = some d) (hc : ¬c.Asks env b k s w)
    (hcheck : c.check s.maxObjectSize = .ok ()) (hlock : env.lock = .ok ()) (i j : Index)
    (hi : env.loadIndex w = .ok i) (h : Index.SameBut b k i j) :
    (d i).1.outcome = (d j).1.outcome := by
  cases c with
  | makeBucket b' =>
    cases hd
    exact sameDecision_edit (h.makeBucket b' env.now)
  | removeBucket b' force =>
    cases hd
    exact sameDecision_edit (h.removeBucket hc force)
  | setVersioning b' on =>
    cases hd
    exact sameDecision_edit (h.setVersioning b' on)
  | setLifecycle b' rules =>
    cases hd
    exact sameDecision_edit (h.setLifecycle b' rules)
  | sweepExpired b' =>
    cases hd
    dsimp only
    unfold sweepDecision Index.expiredKeys
    rw [h.bucket hc]
    cases j.bucket b' with
    | error e => rfl
    | ok bk =>
      dsimp only [Except.map]
      split
      next => rfl
      next => split <;> rfl
  | sweepAll => exact absurd trivial hc
  | putObjectOpts b' k' bytes opts =>
    cases hd
    refine sameDecision_put h fun hb => ?_
    by_cases hkey : b' = b ∧ k' = k
    · -- the put starts, so it has no condition
      have hput : putCheck s.maxObjectSize k' bytes opts = .ok () := by
        dsimp only [StoreCall.check] at hcheck
        cases hp : putCheck s.maxObjectSize k' bytes opts with
        | error e =>
          rw [hp] at hcheck
          cases hcheck
        | ok u => rfl
      have hfree : ¬opts.preconditions.OnWrite := fun hon =>
        hc ⟨hkey, hon, hput, hlock, i, hi, hb⟩
      rw [putCondition_free hfree, putCondition_free hfree]
    · unfold putCondition
      rw [h.head hkey]
  | deleteObject b' k' =>
    cases hd
    exact sameDecision_edit (h.delete b' k' env.now)
  | deleteObjectVersion b' k' v =>
    cases hd
    exact sameDecision_edit (h.deleteVersion b' k' v)
  | deleteObjects b' keys =>
    cases hd
    dsimp only [Decision.outcome]
    rw [h.bucket_unit b']
  | copyObject sb sk b' k' =>
    cases hd
    exact sameDecision_edit (h.copy hc b' k' env.now)
  | createMultipartUpload b' k' opts => exact nomatch hd
  | uploadPart id n bytes => exact nomatch hd
  | completeMultipartUpload id parts => exact nomatch hd
  | abortMultipartUpload id => exact nomatch hd

/-! ## Calls on uploads -/

theorem commitUploads_result {ε α : Type} (wrap : String → ε) (st : MultipartState) (a : α) :
    (env.commitUploads wrap st a s w).1.1 = (env.commitUploads wrap st a s' w').1.1 := by
  unfold Env.commitUploads
  cases env.saveFails .multipart <;> rfl

theorem create_same (h : SameElsewhere b k s w s' w') (b' k' : String) (opts : PutOptions) :
    (exec ce env (Store.createMultipartUpload ce b' k' opts).prog s w).1.1
      = (exec ce env (Store.createMultipartUpload ce b' k' opts).prog s' w').1.1 := by
  rw [exec_createMultipartUpload, exec_createMultipartUpload, ← h.loadMultipart]
  cases createCheck k' opts with
  | error e => rfl
  | ok u =>
    cases env.loadMultipart w with
    | error e => rfl
    | ok st =>
      dsimp only
      rcases h.loadIndex env with ⟨e, hi, hj⟩ | ⟨i, j, hi, hj, hij⟩
      · rw [hi, hj]
      · rw [hi, hj]
        dsimp only
        rw [hij.contains b']
        split
        next =>
          cases st.create env.uploadId (newUpload ce b' k' opts env.now) with
          | error e => rfl
          | ok st' => exact commitUploads_result _ _ _
        next => rfl

theorem uploadPart_same (h : SameElsewhere b k s w s' w') (id : String) (n : Nat)
    (bytes : Bytes) :
    (exec ce env (Store.uploadPart ce s id n bytes).prog s w).1.1
      = (exec ce env (Store.uploadPart ce s id n bytes).prog s' w').1.1 := by
  rw [exec_uploadPart, exec_uploadPart, ← h.loadMultipart]
  split
  next => rfl
  next =>
    cases env.loadMultipart w with
    | error e => rfl
    | ok st =>
      dsimp only
      split
      next =>
        unfold Env.storePart
        dsimp only
        cases (env.storeChunks 0 (ce.chunkObject bytes ce.defaultChunkSize).2).1 with
        | error e => rfl
        | ok u =>
          cases env.putBlob _ (ce.manifestJson (ce.chunkObject bytes ce.defaultChunkSize).1) with
          | error e => rfl
          | ok etag =>
            dsimp only
            cases st.putPart id _ with
            | error e => rfl
            | ok st' => exact commitUploads_result _ _ _
      next => rfl

theorem bindUpload_same {i j : Index} (h : Index.SameBut b k i j) (upload : Upload)
    (m : ObjectMeta) :
    (bindUpload upload m i).map (fun _ => ()) = (bindUpload upload m j).map fun _ => () := by
  have hput := h.put upload.bucket upload.key m
  unfold bindUpload
  rw [h.contains upload.bucket]
  split
  next =>
    cases validateUserMetadata m.metadata with
    | error e => rfl
    | ok u =>
      dsimp only
      rcases hi : i.put upload.bucket upload.key m with ⟨e | u, i'⟩ <;>
        rcases hj : j.put upload.bucket upload.key m with ⟨e' | u', j'⟩ <;>
        rw [hi, hj] at hput <;> cases hput <;> rfl
  next => rfl

theorem complete_same (h : SameElsewhere b k s w s' w') (id : String)
    (parts : List (Nat × String)) :
    (exec ce env (Store.completeMultipartUpload ce id parts).prog s w).1.1
      = (exec ce env (Store.completeMultipartUpload ce id parts).prog s' w').1.1 := by
  rw [exec_completeMultipartUpload, exec_completeMultipartUpload, ← h.loadMultipart]
  cases env.loadMultipart w with
  | error e => rfl
  | ok st =>
    dsimp only
    unfold Env.complete
    rw [← h.size]
    cases st.get id with
    | error e => rfl
    | ok upload =>
      dsimp only
      cases assembleManifest ce upload parts with
      | error e => rfl
      | ok manifest =>
        dsimp only
        split
        next =>
          cases env.putBlob 0 (ce.manifestJson manifest) with
          | error e => rfl
          | ok cid =>
            dsimp only
            unfold Env.bindManifest
            -- the manifest blob leaves the index file as it is
            have hload : ∀ w : World, env.loadIndex (w.setBlob cid (ce.manifestJson manifest))
                = env.loadIndex w := fun _ => rfl
            rw [hload, hload]
            rcases h.loadIndex env with ⟨e, hi, hj⟩ | ⟨i, j, hi, hj, hij⟩
            · rw [hi, hj]
            · rw [hi, hj]
              dsimp only
              have hbind := bindUpload_same hij upload
                (completeMeta upload manifest cid env.now)
              cases hbi : bindUpload upload (completeMeta upload manifest cid env.now) i <;>
                cases hbj : bindUpload upload (completeMeta upload manifest cid env.now) j <;>
                rw [hbi, hbj] at hbind <;> cases hbind
              · rfl
              · cases env.saveFails .index with
                | some step => rfl
                | none => exact commitUploads_result _ _ _
        next => rfl

/-! ## Every call -/

/-- The same program with the lock answering the same. -/
theorem exec_result {o : Op Failure Value}
    (h : (exec ce env o.prog s w).1.1 = (exec ce env o.prog s' w').1.1) :
    (o.exec ce env s w).1.1 = (o.exec ce env s' w').1.1 := by
  cases o with
  | refused e => rfl
  | locked busy body =>
    unfold Op.exec
    cases env.lock with
    | error m => rfl
    | ok u => exact h

theorem exec_result_into {ε α : Type} {f : ε → Failure} {g : α → Value} {o : Op ε α}
    (h : (exec ce env o.prog s w).1.1 = (exec ce env o.prog s' w').1.1) :
    ((o.into f g).exec ce env s w).1.1 = ((o.into f g).exec ce env s' w').1.1 := by
  refine exec_result ?_
  rw [exec_into, exec_into, h]

/-- **A call returns the same whatever an object is that it does not ask for.** -/
theorem exec_same (h : SameElsewhere b k s w s' w') {c : StoreCall}
    (hc : ¬c.Asks env b k s w) : (c.exec ce env s w).1.1 = (c.exec ce env s' w').1.1 := by
  have planned : ∀ d, c.plan ce env = some d →
      (c.exec ce env s w).1.1 = (c.exec ce env s' w').1.1 := by
    intro d hd
    rw [StoreCall.exec_eq hd, StoreCall.exec_eq hd, ← h.size]
    cases hcheck : c.check s.maxObjectSize with
    | error e => rfl
    | ok u =>
      cases hlock : env.lock with
      | error m => rfl
      | ok u => exact h.transact c.wrap (plan_same hd hc hcheck hlock)
  unfold StoreCall.exec
  rw [← h.op c]
  cases c with
  | createMultipartUpload b' k' opts => exact exec_result_into (create_same h b' k' opts)
  | uploadPart id n bytes => exact exec_result_into (uploadPart_same h id n bytes)
  | completeMultipartUpload id parts => exact exec_result_into (complete_same h id parts)
  | abortMultipartUpload id =>
    refine exec_result_into (o := Store.abortMultipartUpload id) ?_
    rw [exec_abortMultipartUpload, exec_abortMultipartUpload, ← h.loadMultipart]
    cases env.loadMultipart w with
    | error e => rfl
    | ok st => exact commitUploads_result _ _ _
  | _ =>
    have hplan := planned _ rfl
    unfold StoreCall.exec at hplan
    rw [← h.op] at hplan
    exact hplan

/-- After a copy the handle has the source's metadata under the target. -/
theorem copyObject_head {sb sk b' k' : String} {v : Value}
    (h : ((StoreCall.copyObject sb sk b' k').exec ce env s w).1.1 = .ok v) :
    ∃ i m, Index.decode (w.files .index) = .ok i ∧ i.head sb sk = .ok m ∧
      ((StoreCall.copyObject sb sk b' k').exec ce env s w).1.2.headObject b' k'
        = .ok { m with lastModified := env.now } := by
  rcases indexCall_cases (c := .copyObject sb sk b' k') rfl s w with
    ⟨-, ⟨e, he⟩ | ⟨i, a, -, hkeep, -⟩⟩ | ⟨i, j, a, hi, hsave, -, hj, -⟩
  · rw [he] at h
    exact nomatch h
  · dsimp only [StoreCall.plan.edit, Decision.ofEdit] at hkeep
    rcases hc : i.copy sb sk b' k' env.now with ⟨e | u, l⟩ <;> rw [hc] at hkeep <;> cases hkeep
  · unfold Store.headObject
    rw [hj]
    dsimp only [StoreCall.plan.edit, Decision.ofEdit] at hsave
    rcases hc : i.copy sb sk b' k' env.now with ⟨e | u, l⟩ <;> rw [hc] at hsave <;> cases hsave
    unfold Index.copy at hc
    cases hm : i.head sb sk with
    | error e => rw [hm] at hc; cases hc
    | ok m =>
      rw [hm] at hc
      exact ⟨i, m, hi, hm, Index.head_put hc⟩

/-- So what it finds there depends on the source only. -/
theorem copyObject_head_same (h : SameElsewhere b k s w s' w') {sb sk b' k' : String}
    (hne : ¬(sb = b ∧ sk = k)) {v : Value}
    (hr : ((StoreCall.copyObject sb sk b' k').exec ce env s w).1.1 = .ok v)
    (hr' : ((StoreCall.copyObject sb sk b' k').exec ce env s' w').1.1 = .ok v) :
    ((StoreCall.copyObject sb sk b' k').exec ce env s w).1.2.headObject b' k'
      = ((StoreCall.copyObject sb sk b' k').exec ce env s' w').1.2.headObject b' k' := by
  obtain ⟨i, m, hi, hm, hhead⟩ := copyObject_head hr
  obtain ⟨j, m', hj, hm', hhead'⟩ := copyObject_head hr'
  rcases h.decode with ⟨e, he, -⟩ | ⟨i', j', hi', hj', hij⟩
  · rw [hi] at he
    exact nomatch he
  · obtain rfl : i = i' := Except.ok.inj (hi.symm.trans hi')
    obtain rfl : j = j' := Except.ok.inj (hj.symm.trans hj')
    rw [hij.head hne, hm'] at hm
    cases hm
    rw [hhead, hhead']

/-! ## Reads -/

/-- The result of an action depends on neither the handle nor the files. -/
def Act.Blind {ε α : Type} (ce : CeRs) (env : Env) (x : Act ε α) : Prop :=
  ∀ s w s' w', (exec ce env x s w).1.1 = (exec ce env x s' w').1.1

section
variable {ε ε' α β : Type}

theorem blind_pure (a : α) : (pure a : Act ε α).Blind ce env := fun _ _ _ _ => rfl

theorem blind_lift (r : Except ε α) : (Act.lift r).Blind ce env := by
  intro s w s' w'
  rw [exec_lift, exec_lift]

theorem blind_require (c : Prop) [Decidable c] (e : ε) : (Act.require c e).Blind ce env := by
  intro s w s' w'
  rw [exec_require, exec_require]

theorem blind_getBlob (cid : String) (context : String → ε) :
    (Act.blob (c := .getBlob cid) rfl context).Blind ce env := by
  intro s w s' w'
  unfold Act.blob
  rw [exec_bind_ok (exec_call _), exec_bind_ok (exec_call _), exec_lift, exec_lift]
  rfl

theorem blind_getObject (cid : String) (context : String → ε) :
    (Act.blob (c := .getObject cid) rfl context).Blind ce env := by
  intro s w s' w'
  unfold Act.blob
  rw [exec_bind_ok (exec_call _), exec_bind_ok (exec_call _), exec_lift, exec_lift]
  rfl

theorem Act.Blind.bind {x : Act ε α} {f : α → Act ε β} (hx : x.Blind ce env)
    (hf : ∀ a, (f a).Blind ce env) : (x >>= f).Blind ce env := by
  intro s w s' w'
  have heq := hx s w s' w'
  rw [exec_bind, exec_bind]
  revert heq
  rcases exec ce env x s w with ⟨⟨e | a, s₁⟩, w₁⟩ <;>
    rcases exec ce env x s' w' with ⟨⟨e' | a', s₂⟩, w₂⟩ <;> intro heq <;> cases heq
  · rfl
  · exact hf a s₁ w₁ s₂ w₂

theorem Act.Blind.mapErr {x : Act ε α} (f : ε → ε') (hx : x.Blind ce env) :
    (x.mapErr f).Blind ce env := by
  intro s w s' w'
  rw [exec_mapErr, exec_mapErr, hx s w s' w']

theorem Act.Blind.attempt {x : Act ε α} (hx : x.Blind ce env) :
    (Store.attempt x).Blind ce env := by
  intro s w s' w'
  have heq := hx s w s' w'
  unfold exec Store.attempt
  rw [Prog.run_bind, Prog.run_bind]
  exact congrArg Except.ok heq

end

theorem blind_fetchManifest (cid : String) : (Store.fetchManifest ce cid).Blind ce env :=
  (blind_getBlob cid id).bind fun _ => (blind_lift _).bind fun _ =>
    (blind_require _ _).bind fun _ => blind_pure _

theorem blind_fetchChunks (manifest : Manifest) (is : List Nat) :
    (Store.fetchChunks ce manifest is).Blind ce env := by
  induction is with
  | nil => exact blind_pure []
  | cons i is ih =>
    exact (blind_getBlob _ _).bind fun _ => (blind_require _ _).bind fun _ =>
      ih.bind fun _ => blind_pure _

theorem SameElsewhere.metaFor (h : SameElsewhere b k s w s' w') {b' k' : String}
    (hne : ¬(b' = b ∧ k' = k)) (v : Option String) : s.metaFor b' k' v = s'.metaFor b' k' v := by
  unfold Store.metaFor
  rw [h.cache.contains b', h.cache.head hne]
  cases v with
  | none => rfl
  | some v => dsimp only; rw [h.cache.headVersion hne v]

/-- Once the object is found, getting it does not look at the handle again. -/
theorem getObjectOpts_same (h : SameElsewhere b k s w s' w') {b' k' : String}
    (hne : ¬(b' = b ∧ k' = k)) (v : Option String) (pre : Preconditions) :
    (exec ce env (Store.getObjectOpts b' k' v pre) s w).1.1
      = (exec ce env (Store.getObjectOpts b' k' v pre) s' w').1.1 := by
  unfold Store.getObjectOpts
  rw [exec_bind_ok exec_self, exec_bind_ok exec_self, h.metaFor hne v]
  refine Act.Blind.bind (blind_lift _) (fun m => ?_) s w s' w'
  exact (blind_lift _).bind fun _ => (blind_getObject _ _).bind fun _ => blind_pure _

theorem getObjectRangeOpts_same (h : SameElsewhere b k s w s' w') {b' k' : String}
    (hne : ¬(b' = b ∧ k' = k)) (range : String) (v : Option String) :
    (exec ce env (Store.getObjectRangeOpts ce b' k' range v) s w).1.1
      = (exec ce env (Store.getObjectRangeOpts ce b' k' range v) s' w').1.1 := by
  unfold Store.getObjectRangeOpts
  rw [exec_bind_ok exec_self, exec_bind_ok exec_self, h.metaFor hne v]
  refine Act.Blind.bind (blind_lift _) (fun m => ?_) s w s' w'
  refine (blind_lift _).bind fun p => ?_
  refine Act.Blind.bind ((blind_fetchManifest m.cid).mapErr _).attempt fun r => ?_
  cases r with
  | ok manifest =>
    exact (blind_lift _).bind fun cov => (blind_fetchChunks manifest _).bind fun _ =>
      (blind_lift _).bind fun _ => blind_pure _
  | error e =>
    exact (blind_getObject _ _).bind fun _ => (blind_require _ _).bind fun _ => blind_pure _

end CeStorage
