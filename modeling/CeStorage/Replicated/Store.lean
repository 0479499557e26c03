import CeStorage.Lib.Runs
import CeStorage.Reads
import CeStorage.Replicated.Index

/-!
# The replicated store (`replicated/store.rs`)

`ReplicatedStore` over a `Store` and a replica index, as a step relation over any number
of handles on the same two files. `put_object` and `maintain` wait for the network between
their steps; `Task` is where a handle waits, with what the function knows there, and
`resume` takes it from one wait to the next. The handle's replica index is loaded when it
is opened and never again; a save writes the whole of it.

A call of the store underneath is one step: it runs under the index lock. Everything of
`ce_pin` is an answer of the environment, apart from its pure planner `repair_plan`, which
is a parameter.
-/

namespace CeStorage

open Lib

/-! ## What the store underneath offers -/

namespace Store

def putObject (self : Store) (bucket key : String) (bytes : Bytes) (contentType : String) :
    Op StorageError ObjectMeta :=
  self.putObjectOpts bucket key bytes { contentType }

def getObject (bucket key : String) : Act StorageError GetResult :=
  getObjectOpts bucket key none {}

/-- The CID an object resolves to. -/
def pinHint (self : Store) (bucket key : String) : Except String String :=
  (self.index.head bucket key).map (·.cid)

end Store

/-! ## What `ce_pin` offers -/

structure Replica where
  holder : String
  channelId : String
  lastProofOk : Bool

structure RepairPlan where
  toPlace : Nat
  exclude : List String

/-- `ce_pin::repair::repair_plan`. -/
abbrev RepairPlanner := List Replica → List String → Nat → RepairPlan

/-- What `ce_pin::client::replicate` is called with. -/
structure ReplicateCall where
  cid : String
  bytesLen : Nat
  rentPerGbHour : String
  expiryHeight : Nat
  n : Nat
  caps : String
  candidates : List String
  exclude : List String

/-! ## A handle -/

structure ReplicatedStore where
  store : Store
  index : ReplicaIndex
  caps : String
  defaultFactor : Nat
  rentPerGbHour : String
  leaseBlocks : Nat

structure MaintainReport where
  objectsChecked : Nat := 0
  objectsRepaired : Nat := 0
  replicasAdded : Nat := 0
  replicasUnhealthy : Nat := 0

/-- A `put_object` whose key the store has bound. -/
structure Putting where
  bucket : String
  key : String
  cid : String
  bytesLen : Nat
  factor : Nat

/-- A `maintain` pass: the objects that are left, and whether it changed a record. -/
structure Pass where
  targets : List (String × String)
  expiryHeight : Nat
  dirty : Bool
  report : MaintainReport

/-- The object a pass is at: its record, the holders left to audit, and those that passed. -/
structure Audit where
  bucket : String
  key : String
  record : RecordEntry
  left : List String
  healthy : List String

/-- What a handle is in the middle of. -/
inductive Task where
  | idle
  /-- `put_object`, waiting for the height of the chain. -/
  | putTip (a : Putting)
  | putCandidates (a : Putting) (expiryHeight : Nat)
  | putReplicate (a : Putting) (expiryHeight : Nat) (candidates : List String)
  /-- The record is in the index; about to save it. -/
  | putSave (a : Putting) (replicaHosts : List String)
  | maintainTip (targets : List (String × String))
  /-- At the head of the loop over the objects. -/
  | each (pass : Pass)
  | audit (pass : Pass) (a : Audit)
  | repairCandidates (pass : Pass) (a : Audit) (plan : RepairPlan)
  | repairReplicate (pass : Pass) (a : Audit) (plan : RepairPlan) (candidates : List String)
  | maintainSave (pass : Pass)

/-- `expiry_height_from`. -/
def expiryHeightFrom (tip leaseBlocks : Nat) : Nat := Str.saturatingAdd tip (max leaseBlocks 1)

/-- The record of a put. -/
def Putting.entry (a : Putting) (replicaHosts : List String) (expiryHeight : Nat) : RecordEntry :=
  { cid := a.cid, bytesLen := a.bytesLen, replicationFactor := a.factor, replicaHosts
    expiryHeight }

/-- The holders as the planner sees them. -/
def Audit.replicas (a : Audit) : List Replica :=
  a.record.replicaHosts.map fun h =>
    { holder := h, channelId := "", lastProofOk := a.healthy.contains h }

/-- The holders that passed and the new ones, none of them twice. -/
def Audit.updated (a : Audit) (newHosts : List String) : List String :=
  newHosts.foldl (fun updated h => if updated.contains h then updated else updated ++ [h]) a.healthy

/-- What `replicate` is called with, where a handle is about to call it. -/
def Task.replicateCall (self : ReplicatedStore) : Task → Option ReplicateCall
  | .putReplicate a expiryHeight candidates => some
    { cid := a.cid, bytesLen := a.bytesLen, rentPerGbHour := self.rentPerGbHour, expiryHeight
      n := a.factor, caps := self.caps, candidates, exclude := [] }
  | .repairReplicate pass a plan candidates => some
    { cid := a.record.cid, bytesLen := a.record.bytesLen, rentPerGbHour := self.rentPerGbHour
      expiryHeight := pass.expiryHeight, n := plan.toPlace, caps := self.caps, candidates
      exclude := plan.exclude }
  | _ => none

/-- What the environment answers to a wait, or that the function goes on by itself. -/
inductive Wait where
  /-- `status`: the height of the chain, if the node can be asked. -/
  | tip (height : Option Nat)
  | candidates (answer : Except String (List String))
  /-- `replicate`: the holders that accepted. -/
  | replicate (answer : Except String (List String))
  /-- `audit_replica`, for the holder whose turn it is. -/
  | audit (answer : Except String Bool)
  | next

namespace ReplicatedStore

/-- `lease_expiry_height`: a node that cannot be asked counts as being at height 0. -/
def leaseExpiryHeight (self : ReplicatedStore) (height : Option Nat) : Nat :=
  expiryHeightFrom (height.getD 0) self.leaseBlocks

/-- Step 4 of `put_object`. -/
def bindRecord (self : ReplicatedStore) (a : Putting) (expiryHeight : Nat)
    (replicaHosts : List String) : ReplicatedStore × Task :=
  ({ self with
      index := self.index.putRecord a.bucket a.key (a.entry replicaHosts expiryHeight) },
    .putSave a replicaHosts)

/-- Step 4 of `maintain`: the record is touched only if its holders are others now. -/
def writeBack (self : ReplicatedStore) (pass : Pass) (a : Audit) (newHosts : List String) :
    ReplicatedStore × Task :=
  if a.updated newHosts = a.record.replicaHosts then (self, .each pass)
  else
    match self.index.getRecord a.bucket a.key with
    | none => (self, .each pass)
    | some _ =>
      ({ self with
          index := self.index.modifyRecord a.bucket a.key fun e =>
            { e with replicaHosts := a.updated newHosts, expiryHeight := pass.expiryHeight } },
        .each { pass with dirty := true })

/-- From one wait of `put_object` or `maintain` to the next; `none` when the answer is not
the one that is waited for. -/
def resume (repairPlan : RepairPlanner) (self : ReplicatedStore) :
    Wait → Task → Option (ReplicatedStore × Task)
  | .tip height, .putTip a =>
    let expiryHeight := self.leaseExpiryHeight height
    -- `place_replicas` of none does not ask for candidates
    if a.factor = 0 then some (self.bindRecord a expiryHeight [])
    else some (self, .putCandidates a expiryHeight)
  -- a placement that fails leaves the object without holders
  | .candidates answer, .putCandidates a expiryHeight =>
    match answer with
    | .error _ | .ok [] => some (self.bindRecord a expiryHeight [])
    | .ok (c :: cs) => some (self, .putReplicate a expiryHeight (c :: cs))
  | .replicate answer, .putReplicate a expiryHeight _ =>
    some (self.bindRecord a expiryHeight (answer.toOption.getD []))
  | .tip height, .maintainTip targets =>
    some (self, .each
      { targets, expiryHeight := self.leaseExpiryHeight height, dirty := false, report := {} })
  | .next, .each pass =>
    match pass.targets with
    | [] => some (self, if pass.dirty then .maintainSave pass else .idle)
    | (bucket, key) :: targets =>
      match self.index.getRecord bucket key with
      | none => some (self, .each { pass with targets })
      | some record => some (self, .audit
          { pass with
            targets
            report := { pass.report with objectsChecked := pass.report.objectsChecked + 1 } }
          { bucket, key, record, left := record.replicaHosts, healthy := [] })
  | .audit answer, .audit pass a =>
    match a.left with
    | [] => none
    | holder :: left =>
      match answer with
      | .ok true => some (self, .audit pass { a with left, healthy := a.healthy ++ [holder] })
      | .ok false | .error _ => some (self, .audit
          { pass with report :=
              { pass.report with replicasUnhealthy := pass.report.replicasUnhealthy + 1 } }
          { a with left })
  | .next, .audit pass a =>
    match a.left with
    | _ :: _ => none
    | [] =>
      let plan := repairPlan a.replicas a.healthy a.record.replicationFactor
      if 0 < plan.toPlace then
        some (self, .repairCandidates
          { pass with report :=
              { pass.report with objectsRepaired := pass.report.objectsRepaired + 1 } } a plan)
      else some (self.writeBack pass a [])
  | .candidates answer, .repairCandidates pass a plan =>
    match answer with
    | .error _ | .ok [] => some (self.writeBack pass a [])
    | .ok (c :: cs) => some (self, .repairReplicate pass a plan (c :: cs))
  | .replicate answer, .repairReplicate pass a _ _ =>
    let placed := answer.toOption.getD []
    some (self.writeBack
      { pass with report :=
          { pass.report with replicasAdded := pass.report.replicasAdded + placed.length } }
      a placed)
  | _, _ => none

/-- `GetObject`: any error of the store falls back to the replica index. -/
def getObject (ce : CeRs) (env : Env) (pinGet : String → Except String Bytes)
    (self : ReplicatedStore) (bucket key : String) (w : World) :
    Except (StorageError ⊕ String) Bytes :=
  match (exec ce env (Store.getObject bucket key) self.store w).1.1 with
  | .ok res => .ok res.bytes
  | .error e =>
    match self.index.getRecord bucket key with
    | some record => (pinGet record.cid).mapError .inr
    | none => .error (.inl e)

/-- The CID an object resolves to: from the replica index, else from the store. -/
def objectCid (self : ReplicatedStore) (bucket key : String) : Except String String :=
  match self.index.getRecord bucket key with
  | some record => .ok record.cid
  | none => self.store.pinHint bucket key

end ReplicatedStore

/-! ## The system -/

/-- The files on disk, and the handles that are open. -/
structure Node (P : Type) where
  world : World
  /-- The replica index file. -/
  replicas : Option ReplicaIndex
  handles : P → Option (ReplicatedStore × Task)

/-- What a replicated store is opened with. -/
structure OpenOptions where
  caps : String
  defaultFactor : Nat
  rentPerGbHour : String
  leaseBlocks : Nat
  maxObjectSize : Nat
  pid : Nat

inductive NodeEvent (P : Type) where
  /-- A call of the store through a handle of its own, on the same bucket index. -/
  | core (s : Store) (c : StoreCall) (env : Env)
  /-- `open`; `readable` is whether the replica index loads. -/
  | «open» (p : P) (options : OpenOptions) (env : Env) (readable : Bool)
  /-- The handle is dropped, or its process dies, whatever it was doing. -/
  | close (p : P)
  /-- `make_bucket` and `set_policy`; `saved` is whether the replica index is written. -/
  | makeBucket (p : P) (bucket : String) (factor : Option Nat) (env : Env) (saved : Bool)
  | setPolicy (p : P) (bucket : String) (factor : Nat) (saved : Bool)
  /-- A call of `put_object`, up to its first wait. -/
  | put (p : P) (bucket key : String) (bytes : Bytes) (contentType : String)
    (replicationFactor : Option Nat) (env : Env)
  | maintain (p : P)
  | resume (p : P) (w : Wait)
  | save (p : P) (saved : Bool)

namespace Node

variable {P : Type}

/-- No replica index yet, and nothing open. -/
def start (w : World) : Node P := { world := w, replicas := none, handles := fun _ => none }

variable [DecidableEq P]

/-- Handle `p` goes on as `h`. -/
def goto (x : Node P) (p : P) (h : ReplicatedStore × Task) : Node P :=
  { x with handles := Function.update x.handles p (some h) }

/-- The replica index of a handle is written over the file, if the save succeeds. -/
def write (x : Node P) (i : ReplicaIndex) (saved : Bool) : Node P :=
  if saved then { x with replicas := some i } else x

/-- `open`. -/
def openAt (x : Node P) (options : OpenOptions) (env : Env) (readable : Bool) :
    Option ReplicatedStore :=
  match Store.openAt env x.world options.maxObjectSize options.pid with
  | .error _ => none
  | .ok store =>
    if readable then some
      { store, index := ReplicaIndex.loadFrom x.replicas, caps := options.caps
        defaultFactor := options.defaultFactor, rentPerGbHour := options.rentPerGbHour
        leaseBlocks := options.leaseBlocks }
    else none

/-- What one event does; `none` when it cannot happen. -/
def fire (ce : CeRs) (repairPlan : RepairPlanner) : NodeEvent P → Node P → Option (Node P)
  | .core s c env, x => some { x with world := (c.exec ce env s x.world).2 }
  | .open p options env readable, x =>
    match x.handles p, x.openAt options env readable with
    | none, some self => some (x.goto p (self, .idle))
    | _, _ => none
  | .close p, x =>
    match x.handles p with
    | some _ => some { x with handles := Function.update x.handles p none }
    | none => none
  | .makeBucket p bucket factor env saved, x =>
    match x.handles p with
    | some (self, .idle) =>
      let r := (Store.makeBucket bucket).exec ce env self.store x.world
      let self := { self with store := r.1.2 }
      match r.1.1, factor with
      | .ok (), some f =>
        let index := self.index.setPolicy bucket (.withFactor f)
        some (({ x with world := r.2 }.goto p ({ self with index }, .idle)).write index saved)
      | _, _ => some ({ x with world := r.2 }.goto p (self, .idle))
    | _ => none
  | .setPolicy p bucket factor saved, x =>
    match x.handles p with
    | some (self, .idle) =>
      let index := self.index.setPolicy bucket (.withFactor factor)
      some ((x.goto p ({ self with index }, .idle)).write index saved)
    | _ => none
  | .put p bucket key bytes contentType replicationFactor env, x =>
    match x.handles p with
    | some (self, .idle) =>
      let r := (self.store.putObject bucket key bytes contentType).exec ce env self.store x.world
      let self := { self with store := r.1.2 }
      match r.1.1 with
      | .error _ => some ({ x with world := r.2 }.goto p (self, .idle))
      | .ok m =>
        let factor := (replicationFactor.map (max · 1)).getD
          (self.index.factorFor bucket self.defaultFactor)
        some ({ x with world := r.2 }.goto p
          (self, .putTip { bucket, key, cid := m.cid, bytesLen := m.size, factor }))
    | _ => none
  | .maintain p, x =>
    match x.handles p with
    | some (self, .idle) => some (x.goto p (self, .maintainTip self.index.allRecords))
    | _ => none
  | .resume p w, x =>
    match x.handles p with
    | some (self, task) => (self.resume repairPlan w task).map (x.goto p)
    | none => none
  | .save p saved, x =>
    match x.handles p with
    | some (self, .putSave _ _) | some (self, .maintainSave _) =>
      some ((x.goto p (self, .idle)).write self.index saved)
    | _ => none

end Node

end CeStorage
