import CeStorage.Lib.CrashLogic
import CeStorage.Lib.Utf8
import CeStorage.Locked
import CeStorage.Store.Edits

/-!
# Saving the index, byte by byte

`Index::save` and `Index::load` one level below the store's own calls: files hold
bytes, a write takes as many of them as it likes, and a process can crash between
any two writes. Temp files are named after the process id, which another process
may have had before, so a save finds whatever an earlier one left there.

`Disk` also records which indexes were passed to `save` and which of them were
renamed into place. Under the index lock the published file always holds the last
of the latter in full (`Disk.Published`, `load_last_renamed`), whatever the temp
files hold.

`saveBytes_refines` connects this level to the one above: a save does to the
published file what `Index.save` does there, for one of its failing steps or none.
-/

namespace CeStorage

open Lib

/-- `serde_json`, for an index. -/
structure SerdeJson where
  toVecPretty : Index → Except String Bytes
  fromSlice : Bytes → Except String Index

/-- What `to_vec_pretty` writes, `from_slice` reads back. -/
def SerdeJson.RoundTrips (serde : SerdeJson) : Prop :=
  ∀ i bytes, serde.toVecPretty i = .ok bytes → serde.fromSlice bytes = .ok i

/-- What the bytes of an index file are to `Index::load`. -/
def SerdeJson.text (serde : SerdeJson) (bytes : Bytes) : Text :=
  match serde.fromSlice bytes with
  | .ok i => .index i
  | .error _ => .torn

/-! ## The file system -/

structure Disk where
  /-- The index file. -/
  file : Option Bytes
  /-- Its temp file, for each process id. -/
  temps : Nat → Option Bytes
  /-- The indexes passed to `save` so far. -/
  passed : List Index
  /-- Those of them whose rename took place, in the order of the renames. -/
  renamed : List Index

namespace Disk

/-- Any files, and no save yet. -/
def start (file : Option Bytes) (temps : Nat → Option Bytes) : Disk :=
  { file, temps, passed := [], renamed := [] }

def setTemp (d : Disk) (pid : Nat) (t : Option Bytes) : Disk :=
  { d with temps := Function.update d.temps pid t }

/-- `Index::load` of the index path. -/
def load (serde : SerdeJson) (d : Disk) : Except String Index :=
  Index.decode (d.file.map serde.text)

end Disk

inductive DiskCall where
  | read
  /-- The call of `save`: `create_dir_all`. -/
  | createDir (i : Index)
  /-- `File::create`: the file is made, or emptied. -/
  | create (pid : Nat)
  /-- One `write` of what is left to write. -/
  | write (pid : Nat) (rest : Bytes)
  | sync (pid : Nat)
  /-- The rename of the temp file that a save of `i` wrote. -/
  | rename (pid : Nat) (i : Index)

/-- A `write` answers how many bytes it took, if it did not fail. -/
@[reducible] def DiskResp : DiskCall → Type
  | .read => Option (Option Bytes)
  | .write _ _ => Option Nat
  | .createDir _ | .create _ | .sync _ | .rename _ _ => Bool

/-- The environment's answers during one transaction. -/
structure DiskEnv where
  readFails : Bool
  /-- The step of the save that fails, apart from the write. -/
  saveFails : Option SaveStep
  /-- How many bytes of the rest a `write` takes. -/
  accepts : Bytes → Option Nat

/-- An environment in which no call fails and a write takes all it is given. -/
def DiskEnv.calm : DiskEnv :=
  { readFails := false, saveFails := none, accepts := fun rest => some rest.length }

/-- What each call does to the disk and answers. -/
def DiskEnv.perform (env : DiskEnv) : (c : DiskCall) → Disk → DiskResp c × Disk
  | .read, d => (if env.readFails then none else some d.file, d)
  | .createDir i, d =>
    (env.saveFails != some .createDir, { d with passed := d.passed ++ [i] })
  | .create pid, d =>
    if env.saveFails = some .createTemp then (false, d) else (true, d.setTemp pid (some []))
  | .write pid rest, d =>
    match env.accepts rest with
    | none => (none, d)
    | some n => (some n, d.setTemp pid ((d.temps pid).map (· ++ rest.take n)))
  | .sync _, d => (env.saveFails != some .sync, d)
  | .rename pid i, d =>
    match d.temps pid with
    | none => (false, d)
    | some bytes =>
      if env.saveFails = some .rename then (false, d)
      else (true, { d.setTemp pid none with file := some bytes, renamed := d.renamed ++ [i] })

/-! ## Save, and the transaction around it -/

/-- A function that makes these calls and may fail. -/
def DiskAct (α : Type) : Type := Prog DiskResp (Except String α)

namespace DiskAct

variable {α β : Type}

instance : Monad DiskAct where
  pure a := .ret (.ok a)
  bind x f := Prog.bind x fun
    | .ok a => f a
    | .error e => .ret (.error e)

def fail (e : String) : DiskAct α := .ret (.error e)

def call (c : DiskCall) : DiskAct (DiskResp c) := Prog.call c fun r => .ret (.ok r)

def lift (x : Except String α) : DiskAct α := .ret x

/-- A call that has to succeed. -/
def ensure {c : DiskCall} (h : DiskResp c = Bool) (context : String) : DiskAct Unit := do
  let ok ← call c
  if (h ▸ ok : Bool) then pure () else fail context

/-- `f.write_all(..)`: write what is left until nothing is. Each write but a failing one
takes a byte at least, so `fuel` writes are enough for `fuel` bytes. -/
def writeAll (pid : Nat) (context : String) : Nat → Bytes → DiskAct Unit
  | _, [] => pure ()
  | 0, _ :: _ => fail context
  | fuel + 1, rest => do
    match ← call (.write pid rest) with
    -- a write that takes nothing is an error too
    | none | some 0 => fail context
    | some (n + 1) => writeAll pid context fuel (rest.drop (n + 1))

end DiskAct

/-- `Index::save`. -/
def Index.saveBytes (serde : SerdeJson) (self : Index) (pid : Nat) : DiskAct Unit := do
  DiskAct.ensure (c := .createDir self) rfl (indexSaveContext .createDir)
  let bytes ← DiskAct.lift ((serde.toVecPretty self).mapError fun _ => "serializing index")
  DiskAct.ensure (c := .create pid) rfl (indexSaveContext .createTemp)
  DiskAct.writeAll pid (indexSaveContext .write) bytes.length bytes
  DiskAct.ensure (c := .sync pid) rfl (indexSaveContext .sync)
  DiskAct.ensure (c := .rename pid self) rfl (indexSaveContext .rename)

/-- `Index::load`. -/
def Index.loadBytes (serde : SerdeJson) : DiskAct Index := do
  match ← DiskAct.call .read with
  | none => DiskAct.fail "reading bucket index"
  | some file => DiskAct.lift (Index.decode (file.map serde.text))

/-- What an operation does under the lock: `decide` looks at the index it loaded, and
either refuses, or gives the edits to make and save. -/
structure Mutation where
  decide : Index → Except String (List IndexEdit)
  env : DiskEnv

/-- The index after a list of edits. -/
def Index.editAll (self : Index) (edits : List IndexEdit) : Index :=
  edits.foldl (fun i e => e.apply i) self

/-- `lock_and_reload`, the edits, and `flush`. -/
def Mutation.body (serde : SerdeJson) (t : Mutation) (pid : Nat) : DiskAct Unit := do
  let i ← Index.loadBytes serde
  let edits ← DiskAct.lift (t.decide i)
  (i.editAll edits).saveBytes serde pid

/-- Mutations of the index by processes that each have a process id. -/
def saveScheme (serde : SerdeJson) :
    Scheme Mutation DiskCall Disk Nat (Except String Unit) DiskResp where
  body t pid := Prog.bind (t.body serde pid) fun r => .ret (r, pid)
  perform t := t.env.perform

/-! ## What a save does to the disk -/

variable {serde : SerdeJson} {env : DiskEnv} {i j : Index} {d d₀ : Disk} {pid : Nat}
  {bytes : Bytes}

/-- Only the temp files differ from those of `d₀`. -/
structure Disk.Kept (d₀ d : Disk) : Prop where
  file : d.file = d₀.file
  passed : d.passed = d₀.passed
  renamed : d.renamed = d₀.renamed

/-- `save` has been called with `i`. -/
def Disk.pass (d : Disk) (i : Index) : Disk := { d with passed := d.passed ++ [i] }

/-- The rename of a save of `i` begun on `d₀` has taken place. -/
structure Disk.Replaced (serde : SerdeJson) (i : Index) (d₀ d : Disk) : Prop where
  file : ∃ bytes, serde.toVecPretty i = .ok bytes ∧ d.file = some bytes
  passed : d.passed = d₀.passed ++ [i]
  renamed : d.renamed = d₀.renamed ++ [i]

/-- The states a save of `i` begun on `d₀` passes through. -/
inductive Disk.Saving (serde : SerdeJson) (i : Index) (d₀ d : Disk) : Prop where
  | called (h : d₀.Kept d)
  | begun (h : (d₀.pass i).Kept d)
  | done (h : d₀.Replaced serde i d)

theorem Disk.Kept.refl (d : Disk) : d.Kept d := ⟨rfl, rfl, rfl⟩

theorem Disk.Kept.setTemp (h : d₀.Kept d) (pid : Nat) (t : Option Bytes) :
    d₀.Kept (d.setTemp pid t) := ⟨h.file, h.passed, h.renamed⟩

/-- `File::create` touches the temp file only, and leaves it empty. -/
theorem perform_create (env : DiskEnv) (pid : Nat) (hk : d₀.Kept d) :
    d₀.Kept (env.perform (.create pid) d).2 ∧
      ((env.perform (.create pid) d).1 = true →
        (env.perform (.create pid) d).2.temps pid = some []) := by
  simp only [DiskEnv.perform]
  split
  · exact ⟨hk, nofun⟩
  · exact ⟨hk.setTemp pid _, fun _ => Function.update_self _ _ _⟩

/-- The rename publishes the whole temp file, or nothing. -/
theorem perform_rename (env : DiskEnv) (hk : (d₀.pass i).Kept d) (ht : d.temps pid = some bytes)
    (hjson : serde.toVecPretty i = .ok bytes) :
    ((env.perform (.rename pid i) d).1 = true ∧
        d₀.Replaced serde i (env.perform (.rename pid i) d).2) ∨
      (env.perform (.rename pid i) d).1 = false ∧
        (d₀.pass i).Kept (env.perform (.rename pid i) d).2 := by
  simp only [DiskEnv.perform, ht]
  split
  · exact .inr ⟨rfl, hk⟩
  · exact .inl ⟨rfl, ⟨bytes, hjson, rfl⟩, hk.passed, congrArg (· ++ [i]) hk.renamed⟩

namespace DiskAct

variable {α β : Type} {I : Disk → Prop} {Q : Except String β → Disk → Prop}

/-- `Lib.Prog.Safe`, in an environment. -/
def Safe (env : DiskEnv) (I : Disk → Prop) (Q : Except String α → Disk → Prop)
    (x : DiskAct α) (d : Disk) : Prop := Prog.Safe env.perform I Q x d

/-- A step that fails ends the function. -/
theorem safe_bind {x : DiskAct α} {f : α → DiskAct β}
    (h : x.Safe env I (fun r d => match r with
      | .ok a => (f a).Safe env I Q d
      | .error e => Q (.error e) d) d) :
    (x >>= f).Safe env I Q d := by
  refine Prog.Safe.bind (Prog.Safe.mono h (fun _ => id) ?_)
  rintro (e | a) d' hI hQ
  · exact ⟨hI, hQ⟩
  · exact hQ

theorem safe_lift {x : Except String α} {f : α → DiskAct β} (hI : I d)
    (hok : ∀ a, x = .ok a → (f a).Safe env I Q d)
    (herr : ∀ e, x = .error e → Q (.error e) d) :
    (lift x >>= f).Safe env I Q d := by
  cases x with
  | ok a => exact hok a rfl
  | error e => exact ⟨hI, herr e rfl⟩

theorem safe_ensure {c : DiskCall} (h : DiskResp c = Bool) {context : String}
    {Q : Except String Unit → Disk → Prop} (hI : I d) (hI' : I (env.perform c d).2)
    (hok : (h ▸ (env.perform c d).1 : Bool) = true → Q (.ok ()) (env.perform c d).2)
    (herr : (h ▸ (env.perform c d).1 : Bool) = false → Q (.error context) (env.perform c d).2) :
    (ensure h context).Safe env I Q d := by
  refine safe_bind ⟨hI, hI', ?_⟩
  dsimp only
  split
  next hr => exact ⟨hI', hok hr⟩
  next hr => exact ⟨hI', herr (Bool.not_eq_true _ ▸ hr)⟩

/-- The temp file ends up with all the bytes, or the function fails. -/
theorem writeAll_safe (env : DiskEnv) (context : String) (fuel : Nat) {rest written : Bytes}
    {d : Disk} (hk : d₀.Kept d) (ht : d.temps pid = some written) (hfuel : rest.length ≤ fuel) :
    (writeAll pid context fuel rest).Safe env d₀.Kept
      (fun r d' => r = .ok () → d'.temps pid = some (written ++ rest)) d := by
  induction fuel generalizing rest written d with
  | zero =>
    obtain rfl : rest = [] := List.length_eq_zero_iff.mp (Nat.le_zero.mp hfuel)
    exact ⟨hk, fun _ => by rw [ht, List.append_nil]⟩
  | succ fuel ih =>
    cases rest with
    | nil => exact ⟨hk, fun _ => by rw [ht, List.append_nil]⟩
    | cons b rest =>
      refine safe_bind ⟨hk, ?_⟩
      cases ha : env.accepts (b :: rest) with
      | none =>
        simp only [DiskEnv.perform, ha]
        exact ⟨hk, hk, fun hr => by cases hr⟩
      | some n =>
        simp only [DiskEnv.perform, ha, ht, Option.map_some]
        have hk' := hk.setTemp pid (some (written ++ (b :: rest).take n))
        refine ⟨hk', ?_⟩
        cases n with
        | zero => exact ⟨hk', fun hr => by cases hr⟩
        | succ n =>
          refine Prog.Safe.mono (ih hk' (Function.update_self _ _ _) ?_) (fun _ => id) ?_
          · rw [List.length_drop]
            simp only [List.length_cons] at hfuel ⊢
            omega
          · intro r d' _ hq hr
            rw [hq hr, List.append_assoc, List.take_append_drop]

end DiskAct

/-- A save either takes place or fails with the published file as it was, and whoever looks
in between sees one or the other. -/
theorem saveBytes_safe (serde : SerdeJson) (env : DiskEnv) (i : Index) (pid : Nat) (d₀ : Disk) :
    (i.saveBytes serde pid).Safe env (d₀.Saving serde i) (fun r d =>
      (r = .ok () ∧ d₀.Replaced serde i d) ∨ ∃ e, r = .error e ∧ (d₀.pass i).Kept d) d₀ := by
  have failed : ∀ (e : String) (d : Disk), (d₀.pass i).Kept d →
      ((Except.error e : Except String Unit) = .ok () ∧ d₀.Replaced serde i d) ∨
        ∃ e', (Except.error e : Except String Unit) = .error e' ∧ (d₀.pass i).Kept d :=
    fun e d h => .inr ⟨e, rfl, h⟩
  have hk : (d₀.pass i).Kept (d₀.pass i) := .refl _
  refine DiskAct.safe_bind (DiskAct.safe_ensure rfl (.called (.refl d₀)) (.begun hk) ?_ ?_)
  case refine_2 => exact fun _ => failed _ _ hk
  intro _
  refine DiskAct.safe_lift (.begun hk) (fun bytes hbytes => ?_) (fun e _ => failed e _ hk)
  have hjson : serde.toVecPretty i = .ok bytes := by
    cases h : serde.toVecPretty i with
    | error e => rw [h] at hbytes; exact nomatch hbytes
    | ok b => rw [h] at hbytes; exact hbytes
  -- the temp file, whatever it was before, is emptied and then filled
  have hcreate := perform_create env pid hk
  refine DiskAct.safe_bind (DiskAct.safe_ensure rfl (.begun hk) (.begun hcreate.1) ?_ ?_)
  case refine_2 => exact fun _ => failed _ _ hcreate.1
  intro hcreated
  have hwrite := DiskAct.writeAll_safe env (indexSaveContext .write) bytes.length hcreate.1
    (hcreate.2 hcreated) (Nat.le_refl _)
  refine DiskAct.safe_bind (Prog.Safe.mono hwrite (fun _ => .begun) ?_)
  rintro (e | _) d hd hq
  · exact failed e d hd
  refine DiskAct.safe_bind (DiskAct.safe_ensure rfl (.begun hd) (.begun hd) ?_ ?_)
  case refine_2 => exact fun _ => failed _ d hd
  intro _
  rcases perform_rename env hd (hq rfl) hjson with ⟨hr, hd'⟩ | ⟨hr, hd'⟩
  · refine DiskAct.safe_ensure rfl (.begun hd) (.done hd') (fun _ => .inl ⟨rfl, hd'⟩) ?_
    exact fun h => nomatch hr.symm.trans h
  · refine DiskAct.safe_ensure rfl (.begun hd) (.begun hd') ?_ (fun _ => failed _ _ hd')
    exact fun h => nomatch hr.symm.trans h

/-! ## The level above -/

variable {ce : CeRs} {s : Store} {w : World}

theorem Disk.Replaced.text (hserde : serde.RoundTrips) (h : d₀.Replaced serde i d) :
    d.file.map serde.text = some (.index i) := by
  obtain ⟨bytes, hjson, hfile⟩ := h.file
  unfold SerdeJson.text
  rw [hfile, Option.map_some, hserde i bytes hjson]

/-- On the published file a save does what `Index.save` does with some step failing or none. -/
theorem saveBytes_refines (hserde : serde.RoundTrips) (env : DiskEnv) (i : Index) (pid : Nat)
    (hd : d.file.map serde.text = w.files .index) (up : Env) :
    ∃ step : Option SaveStep,
      let r := Prog.run env.perform (i.saveBytes serde pid) d
      let r' := exec ce { up with saveFails := fun _ => step } i.save s w
      r.2.file.map serde.text = r'.2.files .index ∧ (r.1 = .ok () ↔ r'.1.1 = .ok ()) := by
  unfold Index.save
  rcases Prog.Safe.run (saveBytes_safe serde env i pid d) with ⟨hr, hrep⟩ | ⟨e, hr, hk⟩
  · refine ⟨none, ?_, iff_of_true hr (by rw [exec_saveFile]; rfl)⟩
    rw [exec_saveFile]
    unfold Env.save
    rw [hrep.text hserde, World.files_saved, Function.update_self]
  · refine ⟨some .createDir, ?_, iff_of_false (by rw [hr]; intro h; cases h) ?_⟩
    · rw [exec_saveFile]
      unfold Env.save
      rw [hk.file, World.files_unsaved, ← hd]
      rfl
    · rw [exec_saveFile]
      intro hsaved
      cases hsaved

/-- Edits one after another are a list of edits. -/
theorem Edited.editAll {may : IndexEdit → Prop} (h : Edited may i j) :
    ∃ edits, i.editAll edits = j := by
  induction h with
  | start => exact ⟨[], rfl⟩
  | next _ _ hf ih =>
    obtain ⟨edits, rfl⟩ := ih
    cases hf
    exact ⟨edits ++ [_], List.foldl_concat ..⟩

/-- What a call of the store saves, if it saves the index at all, a `Mutation` can decide on. -/
theorem call_editAll (ce : CeRs) (env : Env) (c : StoreCall) (s : Store) (w : World) :
    (c.exec ce env s w).2.files .index = w.files .index ∨
      ∃ i edits, Index.decode (w.files .index) = .ok i ∧
        (c.exec ce env s w).2.files .index = some (.index (i.editAll edits)) := by
  rcases index_cases ce env c s w with h | ⟨i, j, hi, hj, -, hed⟩
  · exact .inl h
  · obtain ⟨edits, rfl⟩ := hed.editAll
    exact .inr ⟨i, edits, hi, hj⟩

/-! ## The published file -/

/-- The index file holds the last index whose rename took place, in full. -/
def Disk.Published (serde : SerdeJson) (d : Disk) : Prop :=
  ∀ i, d.renamed.getLast? = some i →
    i ∈ d.passed ∧ i.schema ≤ schemaVersion ∧
      ∃ bytes, serde.toVecPretty i = .ok bytes ∧ d.file = some bytes

theorem Disk.Published.saving (h : d₀.Published serde) (hi : i.schema ≤ schemaVersion)
    (hd : d₀.Saving serde i d) : d.Published serde := by
  intro l hl
  cases hd with
  | called hk =>
    rw [hk.renamed] at hl
    rw [hk.passed, hk.file]
    exact h l hl
  | begun hk =>
    rw [hk.renamed] at hl
    rw [hk.passed, hk.file]
    exact ⟨List.mem_append_left _ (h l hl).1, (h l hl).2⟩
  | done hd =>
    rw [hd.renamed, List.getLast?_concat] at hl
    cases hl
    rw [hd.passed]
    exact ⟨List.mem_append_right _ List.mem_cons_self, hi, hd.file⟩

theorem Disk.Published.load_eq (h : d.Published serde) (hserde : serde.RoundTrips)
    (hi : d.renamed.getLast? = some i) : d.load serde = .ok i := by
  obtain ⟨-, hschema, bytes, hjson, hfile⟩ := h i hi
  unfold Disk.load SerdeJson.text
  rw [hfile, Option.map_some, hserde i bytes hjson]
  exact Index.decode_saved hschema

/-- The edits leave the schema that was loaded. -/
theorem Index.schema_editAll (edits : List IndexEdit) (i : Index) :
    (i.editAll edits).schema = i.schema := by
  induction edits generalizing i with
  | nil => rfl
  | cons e es ih => exact (ih _).trans (Index.schema_apply e)

/-- A load touches nothing, and answers what the file means or fails. -/
theorem loadBytes_safe (serde : SerdeJson) (env : DiskEnv) (d : Disk) :
    (Index.loadBytes serde).Safe env (· = d)
      (fun r d' => d' = d ∧ ∀ i, r = .ok i → d.load serde = .ok i) d := by
  refine DiskAct.safe_bind ⟨rfl, rfl, ?_⟩
  by_cases hr : env.readFails
  · simp only [DiskEnv.perform, hr]
    exact ⟨rfl, rfl, nofun⟩
  · simp only [DiskEnv.perform, hr]
    exact ⟨rfl, rfl, fun _ h => h⟩

/-- A mutation keeps the published file whole, wherever it is cut. -/
theorem body_safe (t : Mutation) (pid : Nat) (hd : d.Published serde) :
    (t.body serde pid).Safe t.env (Disk.Published serde) (fun _ _ => True) d := by
  have hload := loadBytes_safe serde t.env d
  refine DiskAct.safe_bind (Prog.Safe.mono hload (fun _ h => h ▸ hd) ?_)
  rintro (e | i) d' rfl ⟨-, hi⟩
  · trivial
  refine DiskAct.safe_lift hd (fun edits _ => ?_) (fun _ _ => trivial)
  have hschema : (i.editAll edits).schema ≤ schemaVersion := by
    rw [Index.schema_editAll]
    exact Index.schema_of_decode (hi i rfl)
  exact Prog.Safe.mono (saveBytes_safe serde t.env _ pid d') (fun _ => hd.saving hschema)
    fun _ _ _ _ => trivial

theorem saveScheme_safe (serde : SerdeJson) : (saveScheme serde).Safe (Disk.Published serde) := by
  intro t pid d hd
  refine Prog.Safe.bind (Prog.Safe.mono (body_safe t pid hd) (fun _ => id) ?_)
  exact fun _ _ h _ => ⟨h, trivial⟩

/-- **Crash-atomic persistence.** Any number of processes, each with whatever process id,
mutate the index one at a time under its lock, on a disk with any index file and any temp
files; each call of theirs can fail and each process can crash before it. In every state in
which a save was completed, the index file loads as the last index that was renamed into
place, and that index was passed to a save. -/
theorem load_last_renamed {P : Type} [DecidableEq P] (serde : SerdeJson)
    (hserde : serde.RoundTrips) (file : Option Bytes) (temps : Nat → Option Bytes)
    (pids : P → Nat) (c : Config P Mutation DiskCall Disk Nat (Except String Unit) DiskResp)
    (hc : Reach (saveScheme serde).fire Scheme.Exclusive
      (Scheme.init (Disk.start file temps, pids)) c)
    (hsaved : c.shared.renamed ≠ []) :
    ∃ i, c.shared.renamed.getLast? = some i ∧ i ∈ c.shared.passed ∧
      c.shared.load serde = .ok i := by
  have hpub : c.shared.Published serde :=
    (saveScheme_safe serde).reach (x := (Disk.start file temps, pids)) (fun _ h => nomatch h) hc
  obtain ⟨i, hi⟩ := Option.ne_none_iff_exists'.mp (mt List.getLast?_eq_none_iff.mp hsaved)
  exact ⟨i, hi, (hpub i hi).1, hpub.load_eq hserde hi⟩

/-- The same under the lock file itself, as long as no reclaim removes it from a process that
holds the lock. -/
theorem published_of_guarded {P : Type} [DecidableEq P] (serde : SerdeJson)
    (file : Option Bytes) (temps : Nat → Option Bytes) (pids : P → Nat)
    (x : Guarded P Mutation DiskCall Disk Nat (Except String Unit) DiskResp)
    (hx : Reach (Guarded.fire (saveScheme serde)) Guarded.Harmless
      (Guarded.start (Disk.start file temps, pids)) x) :
    x.sections.shared.Published serde :=
  (Guarded.reach_inv hx).serial.safe (saveScheme_safe serde) fun _ h => nomatch h

/-! A process is killed after ten bytes; another, with the same process id, then saves. -/

/-- `serde_json` on one index. -/
private def SerdeJson.one (i : Index) (bytes : Bytes) : SerdeJson where
  toVecPretty j := if j = i then .ok bytes else .error "another index"
  fromSlice b := if b = bytes then .ok i else .error "other bytes"

private theorem SerdeJson.one_roundTrips (i : Index) (bytes : Bytes) :
    (SerdeJson.one i bytes).RoundTrips := by
  intro j b h
  simp only [one] at h ⊢
  split at h
  next hj =>
    cases h
    rw [if_pos rfl, hj]
  next => exact nomatch h

private def photos : Index := Index.empty.editAll [.makeBucket "photos" 1]

private def photosJson : Bytes := Str.utf8
  ("\x7b\n  \"schema\": 2,\n  \"buckets\": \x7b\n    \"photos\": \x7b\n      \"created\": 1,\n"
    ++ "      \"versioning\": false,\n      \"objects\": \x7b\x7d\n    \x7d\n  \x7d\n\x7d")

private def makePhotos (accepts : Bytes → Option Nat) : Mutation :=
  { decide := fun _ => .ok [.makeBucket "photos" 1], env := { DiskEnv.calm with accepts } }

private def killedAndSaved : List (SectionEvent Bool Mutation) :=
  [.enter false (makePhotos fun _ => some 10), .call false, .call false, .call false, .call false,
    .crash false, .enter true (makePhotos fun rest => some rest.length), .call true, .call true,
    .call true, .call true, .call true, .call true, .leave true]

private def unsaved : Config Bool Mutation DiskCall Disk Nat (Except String Unit) DiskResp :=
  Scheme.init (Disk.start none fun _ => none, fun _ => 7)

private def savedOnce : Config Bool Mutation DiskCall Disk Nat (Except String Unit) DiskResp :=
  (play (fireIf (saveScheme (SerdeJson.one photos photosJson)).fire Scheme.Exclusive)
    killedAndSaved unsaved).getD unsaved

private theorem savedOnce_reach : Reach (saveScheme (SerdeJson.one photos photosJson)).fire
    Scheme.Exclusive unsaved savedOnce :=
  reach_getD (by decide +kernel)

theorem load_last_renamed_photos : ∃ i, savedOnce.shared.renamed.getLast? = some i ∧
    i ∈ savedOnce.shared.passed ∧
      savedOnce.shared.load (SerdeJson.one photos photosJson) = .ok i :=
  load_last_renamed _ (SerdeJson.one_roundTrips photos photosJson) none (fun _ => none)
    (fun _ => 7) savedOnce savedOnce_reach (by decide +kernel)

end CeStorage
