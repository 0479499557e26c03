import CeStorage.Lib.Program
import CeStorage.Multipart

/-!
# What the store calls: files, clock and blob store

A store operation is a program (`Lib.Program`) over the calls below: the file
system, one call at a time, the clock, the upload-id generator, and the CE blob
store. `World` is what outlives an operation: the two files next to each other,
the temp files, and the blobs that were put. `Env` holds the environment's
answers during one operation, so a statement over every `Env` covers every
failure of every call.

`Act` is the shape of a Rust method on `&mut Store`: it may fail, and whether it
fails or not it leaves a `Store` behind. `exec` runs one; the `exec_*` lemmas
evaluate it construct by construct.
-/

namespace CeStorage

open Lib
open Std (ExtTreeMap)

/-- The two files a store keeps: the index and, next to it, the multipart
state. -/
inductive File where
  | index
  | multipart
  deriving DecidableEq

/-- What a file holds: the whole JSON text of an index or of a multipart state,
or bytes that parse as neither (empty or half-written). -/
inductive Text where
  | index (i : Index)
  | multipart (m : MultipartState)
  | torn
  deriving DecidableEq

/-- The steps of a save, in order; each can fail. -/
inductive SaveStep where
  | createDir
  | createTemp
  | write
  | sync
  | rename
  deriving DecidableEq

/-- One call out of a store operation. Temp files are named after the process
id. -/
inductive Call where
  | read (f : File)
  | createDir (f : File)
  | createTemp (f : File) (pid : Nat)
  | write (f : File) (pid : Nat) (t : Text)
  | sync (f : File) (pid : Nat)
  | rename (f : File) (pid : Nat)
  | now
  | randomUploadId
  | putObject (bytes : Bytes)
  /-- The `n`-th blob put of the operation. -/
  | putBlob (n : Nat) (bytes : Bytes)
  | getObject (cid : String)
  | getBlob (cid : String)

/-- The answer to each call. A file-system call that fails answers `none` or
`false`: its error text is always replaced by the caller's context. A read
answers `some none` when the file does not exist. -/
@[reducible] def Resp : Call → Type
  | .read _ => Option (Option Text)
  | .createDir _ => Bool
  | .createTemp _ _ => Bool
  | .write _ _ _ => Bool
  | .sync _ _ => Bool
  | .rename _ _ => Bool
  | .now => Nat
  | .randomUploadId => String
  | .putObject _ => Except String String
  | .putBlob _ _ => Except String String
  | .getObject _ => Except String Bytes
  | .getBlob _ => Except String Bytes

structure World where
  /-- The published files. -/
  files : File → Option Text
  /-- The temp file of each process for each file. -/
  temps : File → Nat → Option Text
  /-- The blobs put so far, under the ids the blob store answered. -/
  blobs : String → Option Bytes

/-- The environment's answers during one operation. -/
structure Env where
  /-- `FileLock::acquire`. -/
  lock : Except String Unit
  readFails : File → Bool
  /-- The step of the save of a file that fails, if one does. -/
  saveFails : File → Option SaveStep
  now : Nat
  uploadId : String
  putObject : Bytes → Except String String
  putBlob : Nat → Bytes → Except String String
  getObject : String → Except String Bytes
  getBlob : String → Except String Bytes

/-- An environment in which every call succeeds and the blob store answers as a
content-addressed store does. -/
def Env.calm (ce : CeRs) (now : Nat) (uploadId : String) : Env where
  lock := .ok ()
  readFails _ := false
  saveFails _ := none
  now := now
  uploadId := uploadId
  putObject bytes := .ok (ce.cid (ce.manifestJson (ce.chunkObject bytes ce.defaultChunkSize).1))
  putBlob _ bytes := .ok (ce.cid bytes)
  getObject cid := .error s!"blob {cid} not found"
  getBlob cid := .error s!"blob {cid} not found"

namespace World

/-- No files and no blobs. -/
def blank : World := { files := fun _ => none, temps := fun _ _ => none, blobs := fun _ => none }

/-- Write a published file. -/
def setFile (w : World) (f : File) (t : Option Text) : World :=
  { w with files := Function.update w.files f t }

/-- Write a temp file. -/
def setTemp (w : World) (f : File) (pid : Nat) (t : Option Text) : World :=
  { w with temps := Function.update w.temps f (Function.update (w.temps f) pid t) }

/-- Record one blob. -/
def setBlob (w : World) (cid : String) (bytes : Bytes) : World :=
  { w with blobs := Function.update w.blobs cid (some bytes) }

/-- Record a list of blobs. -/
def setBlobs (w : World) (l : List (String × Bytes)) : World :=
  l.foldl (fun w p => w.setBlob p.1 p.2) w

end World

/-- What each call does to the world and answers. A temp file is truncated when
it is created, torn while it is written, and gone once it is renamed over the
published file; no other call touches a published file. -/
def perform (ce : CeRs) (env : Env) : (c : Call) → World → Resp c × World
  | .read f, w => (if env.readFails f then none else some (w.files f), w)
  | .createDir f, w => (env.saveFails f != some .createDir, w)
  | .createTemp f pid, w =>
    if env.saveFails f = some .createTemp then (false, w)
    else (true, w.setTemp f pid (some .torn))
  | .write f pid t, w =>
    if env.saveFails f = some .write then (false, w.setTemp f pid (some .torn))
    else (true, w.setTemp f pid (some t))
  | .sync f _, w => (env.saveFails f != some .sync, w)
  | .rename f pid, w =>
    if env.saveFails f = some .rename then (false, w)
    else (true, (w.setFile f (w.temps f pid)).setTemp f pid none)
  | .now, w => (env.now, w)
  | .randomUploadId, w => (env.uploadId, w)
  | .putObject bytes, w =>
    match env.putObject bytes with
    | .error e => (.error e, w)
    | .ok cid =>
      let obj := ce.chunkObject bytes ce.defaultChunkSize
      (.ok cid, (w.setBlobs obj.2).setBlob cid (ce.manifestJson obj.1))
  | .putBlob n bytes, w =>
    match env.putBlob n bytes with
    | .error e => (.error e, w)
    | .ok cid => (.ok cid, w.setBlob cid bytes)
  | .getObject cid, w => (env.getObject cid, w)
  | .getBlob cid, w => (env.getBlob cid, w)

/-- `Store`, less the client and the index path, which never change: the
in-memory index, the size limit, and the id of the process the handle lives in. -/
structure Store where
  index : Index
  maxObjectSize : Nat
  pid : Nat

/-- `Store::open` on a missing index, in process `pid`. -/
def Store.fresh (pid : Nat) : Store :=
  { index := Index.empty, maxObjectSize := 5 * 1024 * 1024 * 1024, pid }

/-- A method on `&mut Store`. -/
def Act (ε α : Type) : Type := Store → Prog Resp (Except ε α × Store)

namespace Act

variable {ε ε' α β : Type}

instance : Monad (Act ε) where
  pure a := fun s => .ret (.ok a, s)
  bind x f := fun s => (x s).bind fun
    | (.ok a, s') => f a s'
    | (.error e, s') => .ret (.error e, s')

/-- Return early with an error. -/
def fail (e : ε) : Act ε α := fun s => .ret (.error e, s)

/-- Make one call. -/
def call (c : Call) : Act ε (Resp c) := fun s => .call c fun r => .ret (.ok r, s)

/-- `self`. -/
def self : Act ε Store := fun s => .ret (.ok s, s)

/-- `self.index = i`. -/
def setIndex (i : Index) : Act ε Unit := fun s => .ret (.ok (), { s with index := i })

/-- `?` on a result that does not touch the store. -/
def lift : Except ε α → Act ε α
  | .ok a => pure a
  | .error e => fail e

/-- `.map_err(f)`. -/
def mapErr (f : ε → ε') (x : Act ε α) : Act ε' α := fun s =>
  (x s).bind fun r => .ret (r.1.mapError f, r.2)

theorem bind_apply (x : Act ε α) (f : α → Act ε β) (s : Store) :
    (x >>= f) s = (x s).bind fun
      | (.ok a, s') => f a s'
      | (.error e, s') => .ret (.error e, s') := rfl

theorem self_bind (f : Store → Act ε β) (s : Store) : (Act.self >>= f) s = f s s := rfl

theorem lift_ok_bind (a : α) (f : α → Act ε β) (s : Store) :
    (Act.lift (.ok a) >>= f) s = f a s := rfl

end Act

/-- Run a method on a store in a world. -/
def exec {ε α : Type} (ce : CeRs) (env : Env) (x : Act ε α) (s : Store) (w : World) :
    (Except ε α × Store) × World :=
  (x s).run (perform ce env) w

section
variable {ε ε' α β : Type} {ce : CeRs} {env : Env} {s : Store} {w : World}

@[simp] theorem exec_pure (a : α) :
    exec ce env (pure a : Act ε α) s w = ((.ok a, s), w) := rfl

@[simp] theorem exec_fail (e : ε) :
    exec ce env (Act.fail e : Act ε α) s w = ((.error e, s), w) := rfl

@[simp] theorem exec_call (c : Call) :
    exec ce env (Act.call c : Act ε (Resp c)) s w
      = ((.ok (perform ce env c w).1, s), (perform ce env c w).2) := rfl

@[simp] theorem exec_self : exec ce env (Act.self : Act ε Store) s w = ((.ok s, s), w) := rfl

@[simp] theorem exec_setIndex (i : Index) :
    exec ce env (Act.setIndex i : Act ε Unit) s w = ((.ok (), { s with index := i }), w) := rfl

@[simp] theorem exec_lift (x : Except ε α) :
    exec ce env (Act.lift x) s w = ((x, s), w) := by
  cases x <;> rfl

theorem exec_bind (x : Act ε α) (f : α → Act ε β) :
    exec ce env (x >>= f) s w
      = match exec ce env x s w with
        | ((.ok a, s'), w') => exec ce env (f a) s' w'
        | ((.error e, s'), w') => ((.error e, s'), w') := by
  show ((x s).bind _).run _ w = _
  rw [Prog.run_bind]
  unfold exec
  rcases (x s).run (perform ce env) w with ⟨⟨_ | _, _⟩, _⟩ <;> rfl

/-- The bind of a step that succeeds. -/
theorem exec_bind_ok {x : Act ε α} {f : α → Act ε β} {a : α} {s' : Store} {w' : World}
    (h : exec ce env x s w = ((.ok a, s'), w')) :
    exec ce env (x >>= f) s w = exec ce env (f a) s' w' := by
  rw [exec_bind, h]

@[simp] theorem exec_mapErr (f : ε → ε') (x : Act ε α) :
    exec ce env (x.mapErr f) s w
      = (((exec ce env x s w).1.1.mapError f, (exec ce env x s w).1.2),
          (exec ce env x s w).2) := by
  show ((x s).bind _).run _ w = _
  rw [Prog.run_bind]
  rfl

theorem exec_ite (p : Prop) [Decidable p] (x y : Act ε α) :
    exec ce env (if p then x else y) s w
      = if p then exec ce env x s w else exec ce env y s w := by
  split <;> rfl

end

/-! ## The lock's scope -/

/-- A method of `Store` that mutates under the lock: it either fails before it
takes the lock, or takes the lock (`busy` wraps a failure to), runs `body`, and
drops the lock on every way out. -/
inductive Op (ε α : Type) where
  | refused (e : ε)
  | locked (busy : String → ε) (body : Act ε α)

namespace Op

variable {ε α : Type}

/-- What an operation does from the moment it has the lock. -/
def prog : Op ε α → Act ε α
  | .refused e => Act.fail e
  | .locked _ body => body

/-- Run an operation on its own, the lock answering as `env` says. -/
def exec (ce : CeRs) (env : Env) (o : Op ε α) (s : Store) (w : World) :
    (Except ε α × Store) × World :=
  match o with
  | .refused e => ((.error e, s), w)
  | .locked busy body =>
    match env.lock with
    | .error e => ((.error (busy e), s), w)
    | .ok () => CeStorage.exec ce env body s w

/-- Either the lock answers with an error, and nothing happens, or the program
runs. -/
theorem exec_cases (ce : CeRs) (env : Env) (o : Op ε α) (s : Store) (w : World) :
    (∃ e, o.exec ce env s w = ((.error e, s), w)) ∨
      o.exec ce env s w = CeStorage.exec ce env o.prog s w := by
  cases o with
  | refused e => exact .inl ⟨e, rfl⟩
  | locked busy body =>
    unfold exec
    cases env.lock with
    | error e => exact .inl ⟨busy e, rfl⟩
    | ok u => exact .inr rfl

/-- With the lock the program runs. -/
theorem exec_of_lock {ce : CeRs} {env : Env} {s : Store} {w : World} {o : Op ε α}
    (hlock : env.lock = .ok ()) : o.exec ce env s w = CeStorage.exec ce env o.prog s w := by
  cases o with
  | refused e => rfl
  | locked busy body =>
    unfold exec
    rw [hlock]
    rfl

end Op

end CeStorage
