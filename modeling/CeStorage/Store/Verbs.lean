import CeStorage.Store.UploadSpec

/-!
# The mutating methods as one type

`StoreCall` is a call of any of the fifteen methods of `Store` that mutate, with
its arguments; `StoreCall.op` is the method. Results and errors of different
types are injected into `Value` and `Failure`, which lose nothing.

Eleven of the calls change the index only. `StoreCall.plan` is what each of them
decides on the index it loads, and `exec_plan` says that the decision and
`Env.transact` are all there is to them.
-/

namespace CeStorage

open Lib
open Std (ExtTreeMap)

/-- What the methods return when they succeed. -/
inductive Value where
  | unit
  | keys (keys : List String)
  | report (report : ExtTreeMap String (List String))
  | results (results : List (String × Except String Unit))
  | object (m : ObjectMeta)
  /-- An upload id or the etag of a part. -/
  | text (id : String)

/-- What they return when they fail: `anyhow::Error` or `StorageError`. -/
inductive Failure where
  | message (m : String)
  | storage (e : StorageError)
  deriving DecidableEq

inductive StoreCall where
  | makeBucket (bucket : String)
  | removeBucket (bucket : String) (force : Bool)
  | setVersioning (bucket : String) (enabled : Bool)
  | setLifecycle (bucket : String) (rules : List LifecycleRule)
  | sweepExpired (bucket : String)
  | sweepAll
  | putObjectOpts (bucket key : String) (bytes : Bytes) (opts : PutOptions)
  | deleteObject (bucket key : String)
  | deleteObjectVersion (bucket key versionId : String)
  | deleteObjects (bucket : String) (keys : List String)
  | copyObject (srcBucket srcKey dstBucket dstKey : String)
  | createMultipartUpload (bucket key : String) (opts : PutOptions)
  | uploadPart (uploadId : String) (partNumber : Nat) (bytes : Bytes)
  | completeMultipartUpload (uploadId : String) (parts : List (Nat × String))
  | abortMultipartUpload (uploadId : String)

section
variable {ε α : Type} {ce : CeRs} {env : Env} {s : Store} {w : World}

/-- Put a result into `Failure` and `Value`. -/
def inject (f : ε → Failure) (g : α → Value) (r : Except ε α) : Except Failure Value :=
  (r.mapError f).map g

def Act.into (f : ε → Failure) (g : α → Value) (x : Act ε α) : Act Failure Value := fun s =>
  (x s).bind fun r => .ret (inject f g r.1, r.2)

def Op.into (f : ε → Failure) (g : α → Value) : Op ε α → Op Failure Value
  | .refused e => .refused (f e)
  | .locked busy body => .locked (fun m => f (busy m)) (body.into f g)

theorem exec_into (f : ε → Failure) (g : α → Value) (o : Op ε α) :
    exec ce env (o.into f g).prog s w
      = ((inject f g (exec ce env o.prog s w).1.1, (exec ce env o.prog s w).1.2),
          (exec ce env o.prog s w).2) := by
  cases o with
  | refused e => rfl
  | locked busy body =>
    show ((body s).bind _).run _ w = _
    rw [Prog.run_bind]
    rfl

/-- The methods that return `anyhow::Result`. -/
def Op.anyhow (g : α → Value) (o : Op String α) : Op Failure Value := o.into .message g

/-- The methods that return `Result<_, StorageError>`. -/
def Op.storage (g : α → Value) (o : Op StorageError α) : Op Failure Value := o.into .storage g

end

namespace StoreCall

/-- The method a call calls, on the handle `self`. -/
def op (ce : CeRs) (self : Store) : StoreCall → Op Failure Value
  | makeBucket b => (Store.makeBucket b).anyhow fun _ => .unit
  | removeBucket b force => (Store.removeBucket b force).anyhow fun _ => .unit
  | setVersioning b enabled => (Store.setVersioning b enabled).anyhow fun _ => .unit
  | setLifecycle b rules => (Store.setLifecycle b rules).anyhow fun _ => .unit
  | sweepExpired b => (Store.sweepExpired b).anyhow .keys
  | sweepAll => Store.sweepAll.anyhow .report
  | putObjectOpts b k bytes opts => (self.putObjectOpts b k bytes opts).storage .object
  | deleteObject b k => (Store.deleteObject b k).anyhow fun _ => .unit
  | deleteObjectVersion b k v => (Store.deleteObjectVersion b k v).anyhow fun _ => .unit
  | deleteObjects b keys => (Store.deleteObjects b keys).anyhow .results
  | copyObject sb sk db dk => (Store.copyObject sb sk db dk).anyhow fun _ => .unit
  | createMultipartUpload b k opts => (Store.createMultipartUpload ce b k opts).storage .text
  | uploadPart id n bytes => (Store.uploadPart ce self id n bytes).storage .text
  | completeMultipartUpload id parts =>
    (Store.completeMultipartUpload ce id parts).storage .object
  | abortMultipartUpload id => (Store.abortMultipartUpload id).anyhow fun _ => .unit

/-- Run a call on its own. -/
def exec (ce : CeRs) (env : Env) (c : StoreCall) (s : Store) (w : World) :
    (Except Failure Value × Store) × World :=
  (c.op ce s).exec ce env s w

end StoreCall

/-! ## Calls on the index only -/

namespace Decision

variable {ε α : Type}

def into (f : ε → Failure) (g : α → Value) : Decision ε α → Decision Failure Value
  | .refuse e => .refuse (f e)
  | .keep a => .keep (g a)
  | .save j a => .save j (g a)

/-- The index a decision saves. -/
def saves : Decision ε α → Option Index
  | .save j _ => some j
  | _ => none

end Decision

namespace StoreCall

/-- What a call decides on the index it loads, and the blobs it stores on the
way; `none` for the calls on uploads. -/
def plan (ce : CeRs) (env : Env) :
    StoreCall → Option (Index → Decision Failure Value × List (String × Bytes))
  | makeBucket b => some fun i => (edit (i.makeBucket b env.now), [])
  | removeBucket b force => some fun i => (edit (i.removeBucket b force), [])
  | setVersioning b enabled => some fun i => (edit (i.setVersioning b enabled), [])
  | setLifecycle b rules => some fun i => (edit (i.setLifecycle b rules), [])
  | sweepExpired b => some fun i => ((sweepDecision b env.now i).into .message .keys, [])
  | sweepAll => some fun i => ((sweepAllDecision env.now i).into .message .report, [])
  | putObjectOpts b k bytes opts => some fun i =>
    ((putDecision ce env b k bytes opts i).1.into .storage .object,
      (putDecision ce env b k bytes opts i).2)
  | deleteObject b k => some fun i => (edit (i.delete b k env.now), [])
  | deleteObjectVersion b k v => some fun i => (edit (i.deleteVersion b k v), [])
  | deleteObjects b keys => some fun i => (.save (i.deleteAll b env.now keys)
      (.results (keys.map fun k => (k, (i.bucket b).map fun _ => ()))), [])
  | copyObject sb sk db dk => some fun i => (edit (i.copy sb sk db dk env.now), [])
  | createMultipartUpload .. | uploadPart .. | completeMultipartUpload ..
  | abortMultipartUpload .. => none
where
  /-- A single edit that returns nothing. -/
  edit (r : Except String Unit × Index) : Decision Failure Value :=
    (Decision.ofEdit r ()).into .message fun _ => .unit

/-- What a call on the index checks before it takes the lock. -/
def check (maxObjectSize : Nat) : StoreCall → Except Failure Unit
  | putObjectOpts _ k bytes opts => (putCheck maxObjectSize k bytes opts).mapError .storage
  | _ => .ok ()

/-- How a call reports a failure to load or to save. -/
def wrap : StoreCall → String → Failure
  | putObjectOpts .. => fun m => .storage (.backend m)
  | _ => .message

end StoreCall

section
variable {ε α : Type} {ce : CeRs} {env : Env} {s : Store} {w : World}

theorem commit_into (f : ε → Failure) (g : α → Value) (wrap : String → ε) (j : Index) (a : α) :
    ((inject f g (env.commit wrap j a s w).1.1, (env.commit wrap j a s w).1.2),
        (env.commit wrap j a s w).2)
      = env.commit (fun m => f (wrap m)) j (g a) s w := by
  unfold Env.commit
  cases env.saveFails .index <;> rfl

theorem transact_into (f : ε → Failure) (g : α → Value) (wrap : String → ε)
    (d : Index → Decision ε α × List (String × Bytes)) :
    ((inject f g (env.transact wrap d s w).1.1, (env.transact wrap d s w).1.2),
        (env.transact wrap d s w).2)
      = env.transact (fun m => f (wrap m)) (fun i => ((d i).1.into f g, (d i).2)) s w := by
  unfold Env.transact
  cases env.loadIndex w with
  | error e => rfl
  | ok i =>
    dsimp only
    cases (d i).1 with
    | refuse e => rfl
    | keep a => rfl
    | save j a => exact commit_into f g wrap j a

/-- An operation that is a transaction still is one in `Failure` and `Value`. -/
theorem exec_into_transact {f : ε → Failure} {g : α → Value} {wrap : String → ε} {o : Op ε α}
    {d : Index → Decision ε α × List (String × Bytes)}
    (h : exec ce env o.prog s w = env.transact wrap d s w) :
    exec ce env (o.into f g).prog s w
      = env.transact (fun m => f (wrap m)) (fun i => ((d i).1.into f g, (d i).2)) s w := by
  rw [exec_into, h]
  exact transact_into f g wrap d

/-- A call on the index either fails its check, or is the transaction that its
plan says. -/
theorem exec_plan {c : StoreCall} {d : Index → Decision Failure Value × List (String × Bytes)}
    (hd : c.plan ce env = some d) :
    exec ce env (c.op ce s).prog s w
      = match c.check s.maxObjectSize with
        | .error e => ((.error e, s), w)
        | .ok () => env.transact c.wrap d s w := by
  cases c with
  | makeBucket b =>
    cases hd
    exact exec_into_transact (exec_makeBucket b)
  | removeBucket b force =>
    cases hd
    exact exec_into_transact (exec_removeBucket b force)
  | setVersioning b enabled =>
    cases hd
    exact exec_into_transact (exec_setVersioning b enabled)
  | setLifecycle b rules =>
    cases hd
    exact exec_into_transact (exec_setLifecycle b rules)
  | sweepExpired b =>
    cases hd
    exact exec_into_transact (exec_sweepExpired b)
  | sweepAll =>
    cases hd
    exact exec_into_transact exec_sweepAll
  | putObjectOpts b k bytes opts =>
    cases hd
    refine (exec_into _ _ _).trans ?_
    rw [exec_putObjectOpts]
    dsimp only [StoreCall.check]
    cases putCheck s.maxObjectSize k bytes opts with
    | error e => rfl
    | ok u => exact transact_into _ _ _ _
  | deleteObject b k =>
    cases hd
    exact exec_into_transact (exec_deleteObject b k)
  | deleteObjectVersion b k v =>
    cases hd
    exact exec_into_transact (exec_deleteObjectVersion b k v)
  | deleteObjects b keys =>
    cases hd
    exact exec_into_transact (exec_deleteObjects b keys)
  | copyObject sb sk db dk =>
    cases hd
    exact exec_into_transact (exec_copyObject sb sk db dk)
  | createMultipartUpload b k opts => exact nomatch hd
  | uploadPart id n bytes => exact nomatch hd
  | completeMultipartUpload id parts => exact nomatch hd
  | abortMultipartUpload id => exact nomatch hd

/-- A call on the index takes the lock if it passes its check. -/
theorem op_of_check {c : StoreCall} {d : Index → Decision Failure Value × List (String × Bytes)}
    (hd : c.plan ce env = some d) :
    (∃ e, c.check s.maxObjectSize = .error e ∧ c.op ce s = .refused e) ∨
      c.check s.maxObjectSize = .ok () ∧ ∃ body, c.op ce s = .locked c.wrap body := by
  cases c with
  | putObjectOpts b k bytes opts =>
    dsimp only [StoreCall.check, StoreCall.op, putCheck, Store.putObjectOpts, Op.storage]
    split
    next => exact .inl ⟨_, rfl, rfl⟩
    next =>
      cases validKey k with
      | error e => exact .inl ⟨_, rfl, rfl⟩
      | ok u =>
        dsimp only
        cases validateUserMetadata opts.metadata with
        | error e => exact .inl ⟨_, rfl, rfl⟩
        | ok u => exact .inr ⟨rfl, _, rfl⟩
  | createMultipartUpload b k opts => cases hd
  | uploadPart id n bytes => cases hd
  | completeMultipartUpload id parts => cases hd
  | abortMultipartUpload id => cases hd
  | _ => exact .inr ⟨rfl, _, rfl⟩

/-- A call on the index fails its check, fails to get the lock, or is the
transaction that its plan says. -/
theorem StoreCall.exec_eq {c : StoreCall}
    {d : Index → Decision Failure Value × List (String × Bytes)} (hd : c.plan ce env = some d) :
    c.exec ce env s w
      = match c.check s.maxObjectSize with
        | .error e => ((.error e, s), w)
        | .ok () =>
          match env.lock with
          | .error m => ((.error (c.wrap m), s), w)
          | .ok () => env.transact c.wrap d s w := by
  have hp := exec_plan (s := s) (w := w) hd
  unfold StoreCall.exec
  rcases op_of_check (s := s) hd with ⟨e, hc, ho⟩ | ⟨hc, body, ho⟩
  · rw [hc, ho]
    rfl
  · rw [hc, ho] at hp
    rw [hc, ho]
    unfold Op.exec
    cases env.lock with
    | error m => rfl
    | ok u => exact hp

end

end CeStorage
