import CeStorage.Lib.Atomic
import CeStorage.Store.Verbs

/-!
# Where an operation is cut

A process can crash between any two calls of an operation. `cutExec n` is the
world a method leaves that crashed after `n` calls.

A save replaces its file in one call, the rename. So every method is `Atomic` in
each of the two files: whenever it crashes, the file is as it was before, or as
the whole method leaves it.
-/

namespace CeStorage

open Lib

variable {ε ε' α β : Type} {ce : CeRs} {env : Env} {s : Store} {w : World} {g : File}

/-- The world after the first `n` calls of a method. -/
def cutExec (ce : CeRs) (env : Env) (n : Nat) (x : Act ε α) (s : Store) (w : World) : World :=
  (x s).cut (perform ce env) n w

/-- How many calls a method makes. -/
def callsExec (ce : CeRs) (env : Env) (x : Act ε α) (s : Store) (w : World) : Nat :=
  (x s).calls (perform ce env) w

theorem cutExec_of_calls_le {n : Nat} {x : Act ε α} (h : callsExec ce env x s w ≤ n) :
    cutExec ce env n x s w = (exec ce env x s w).2 :=
  Prog.cut_of_calls_le h

theorem callsExec_bind (x : Act ε α) (f : α → Act ε β) :
    callsExec ce env (x >>= f) s w
      = callsExec ce env x s w +
        match exec ce env x s w with
        | ((.ok a, s'), w') => callsExec ce env (f a) s' w'
        | ((.error _, _), _) => 0 := by
  refine (Prog.calls_bind (x s) _ w).trans ?_
  unfold exec callsExec
  rcases (x s).run (perform ce env) w with ⟨⟨_ | a, s'⟩, w'⟩ <;> rfl

theorem le_callsExec_bind (x : Act ε α) (f : α → Act ε β) :
    callsExec ce env x s w ≤ callsExec ce env (x >>= f) s w := by
  rw [callsExec_bind]
  exact Nat.le_add_right _ _

@[simp] theorem callsExec_mapErr (f : ε → ε') (x : Act ε α) :
    callsExec ce env (x.mapErr f) s w = callsExec ce env x s w :=
  Prog.calls_bind (x s) _ w

theorem cutExec_mapErr (n : Nat) (f : ε → ε') (x : Act ε α) :
    cutExec ce env n (x.mapErr f) s w = cutExec ce env n x s w := by
  refine (Prog.cut_bind n (x s) _ w).trans ?_
  split
  next => rfl
  next h =>
    rw [Prog.cut_ret]
    exact (cutExec_of_calls_le (Nat.le_of_lt (Nat.lt_of_not_le h))).symm

/-! ## Quiet and atomic methods -/

/-- The method leaves file `g` alone. -/
def Quiet (ce : CeRs) (env : Env) (g : File) (x : Act ε α) : Prop :=
  ∀ s, (x s).Quiet (perform ce env) (·.files g)

/-- The method replaces file `g` in one call, if at all. -/
def Atomic (ce : CeRs) (env : Env) (g : File) (x : Act ε α) : Prop :=
  ∀ s, (x s).Atomic (perform ce env) (·.files g)

theorem Quiet.atomic {x : Act ε α} (h : Quiet ce env g x) : Atomic ce env g x :=
  fun s => (h s).atomic

theorem quiet_ret (r : Store → Except ε α × Store) :
    Quiet ce env g (fun s => .ret (r s) : Act ε α) :=
  fun s => Prog.quiet_ret (r s)

theorem Quiet.bind {x : Act ε α} {f : α → Act ε β} (hx : Quiet ce env g x)
    (hf : ∀ a, Quiet ce env g (f a)) : Quiet ce env g (x >>= f) := fun s =>
  (hx s).bind fun
    | (.ok a, s') => hf a s'
    | (.error _, _) => Prog.quiet_ret _

theorem Quiet.bind_atomic {x : Act ε α} {f : α → Act ε β} (hx : Quiet ce env g x)
    (hf : ∀ a, Atomic ce env g (f a)) : Atomic ce env g (x >>= f) := fun s =>
  (hx s).bind_atomic fun
    | (.ok a, s') => hf a s'
    | (.error _, _) => (Prog.quiet_ret _).atomic

theorem Atomic.bind_quiet {x : Act ε α} {f : α → Act ε β} (hx : Atomic ce env g x)
    (hf : ∀ a, Quiet ce env g (f a)) : Atomic ce env g (x >>= f) := fun s =>
  (hx s).bind_quiet fun
    | (.ok a, s') => hf a s'
    | (.error _, _) => Prog.quiet_ret _

theorem Quiet.mapErr {x : Act ε α} (f : ε → ε') (h : Quiet ce env g x) :
    Quiet ce env g (x.mapErr f) :=
  fun s => (h s).bind fun _ => Prog.quiet_ret _

theorem Atomic.mapErr {x : Act ε α} (f : ε → ε') (h : Atomic ce env g x) :
    Atomic ce env g (x.mapErr f) :=
  fun s => (h s).bind_quiet fun _ => Prog.quiet_ret _

/-- An operation is atomic in `Failure` and `Value` if it is at its own types. -/
theorem Atomic.into {o : Op ε α} (f : ε → Failure) (h : α → Value)
    (ho : Atomic ce env g o.prog) : Atomic ce env g (o.into f h).prog := by
  cases o with
  | refused e => exact fun _ => (Prog.quiet_ret _).atomic
  | locked busy body => exact fun s => (ho s).bind_quiet fun _ => Prog.quiet_ret _

/-! ### The pieces of a method -/

theorem quiet_lift (x : Except ε α) : Quiet ce env g (Act.lift x) := by
  cases x <;> exact quiet_ret _

theorem quiet_require (c : Prop) [Decidable c] (e : ε) : Quiet ce env g (Act.require c e) := by
  unfold Act.require
  split <;> exact quiet_ret _

/-- The only call that writes a file is the rename onto it. -/
theorem files_perform {c : Call} (h : ∀ pid, c ≠ .rename g pid) :
    (perform ce env c w).2.files g = w.files g := by
  cases c with
  | rename f pid =>
    have hf : g ≠ f := fun hf => h pid (by rw [hf])
    unfold perform
    dsimp only
    split
    · rfl
    · exact Function.update_of_ne hf _ _
  | createTemp f pid => unfold perform; dsimp only; split <;> rfl
  | write f pid t => unfold perform; dsimp only; split <;> rfl
  | putObject bytes =>
    simp only [perform]
    cases env.putObject bytes with
    | error e => rfl
    | ok cid => exact congrFun (World.files_setBlobs _ _) g
  | putBlob n bytes =>
    simp only [perform]
    cases env.putBlob n bytes <;> rfl
  | _ => rfl

theorem quiet_call {c : Call} (h : ∀ pid, c ≠ .rename g pid) :
    Quiet ce env g (Act.call c : Act ε _) :=
  fun _ => Prog.quiet_call (fun _ => files_perform h) fun _ => Prog.quiet_ret _

theorem quiet_blob {c : Call} (hc : Resp c = Except String α) (context : String → ε)
    (h : ∀ pid, c ≠ .rename g pid) : Quiet ce env g (Act.blob hc context) :=
  (quiet_call h).bind fun _ => quiet_lift _

theorem quiet_ensure {c : Call} (hc : Resp c = Bool) (context : ε)
    (h : ∀ pid, c ≠ .rename g pid) : Quiet ce env g (Act.ensure hc context) :=
  (quiet_call h).bind fun _ => quiet_require _ _

theorem atomic_saveFile (f : File) (context : SaveStep → String) (t : Text) :
    Atomic ce env g (saveFile f context t) := by
  unfold saveFile
  refine (quiet_ret _).bind_atomic fun self => ?_
  refine (quiet_ensure _ _ (by simp)).bind_atomic fun _ => ?_
  refine (quiet_ensure _ _ (by simp)).bind_atomic fun _ => ?_
  refine (quiet_ensure _ _ (by simp)).bind_atomic fun _ => ?_
  refine (quiet_ensure _ _ (by simp)).bind_atomic fun _ => ?_
  exact fun s => Prog.atomic_call fun r => quiet_require (g := g) _ _ s

theorem quiet_saveFile {f : File} (h : f ≠ g) (context : SaveStep → String) (t : Text) :
    Quiet ce env g (saveFile f context t) := by
  unfold saveFile
  refine (quiet_ret _).bind fun self => ?_
  refine (quiet_ensure _ _ (by simp)).bind fun _ => ?_
  refine (quiet_ensure _ _ (by simp)).bind fun _ => ?_
  refine (quiet_ensure _ _ (by simp)).bind fun _ => ?_
  refine (quiet_ensure _ _ (by simp)).bind fun _ => ?_
  exact quiet_ensure _ _ (by simp [h])

theorem quiet_indexLoad : Quiet ce env g Index.load := by
  unfold Index.load
  refine (quiet_call (by simp)).bind fun r => ?_
  rcases r with _ | t
  · exact quiet_ret _
  · exact quiet_lift _

theorem quiet_multipartLoad : Quiet ce env g MultipartState.load := by
  unfold MultipartState.load
  refine (quiet_call (by simp)).bind fun r => ?_
  rcases r with _ | t
  · exact quiet_ret _
  · exact quiet_lift _

theorem quiet_reload : Quiet ce env g Store.reload :=
  quiet_indexLoad.bind fun _ => quiet_ret _

theorem quiet_now : Quiet ce env g (Act.call .now : Act ε _) := quiet_call (by simp)

theorem quiet_edit (f : Index → Except String α × Index) : Quiet ce env g (Store.edit f) :=
  (quiet_ret _).bind fun _ => (quiet_ret _).bind fun _ => quiet_lift _

theorem atomic_flush : Atomic ce env g Store.flush :=
  (quiet_ret _).bind_atomic fun _ => atomic_saveFile _ _ _

theorem atomic_flush_pure (a : α) : Atomic ce env g (do Store.flush; pure a) :=
  atomic_flush.bind_quiet fun _ => quiet_ret _

/-! ## Every method is atomic in the index -/

theorem quiet_deleteEach (b : String) (t : Nat) (ks : List String) :
    Quiet ce env g (Store.deleteEach b t ks) := by
  induction ks with
  | nil => exact quiet_ret _
  | cons k ks ih => exact (quiet_edit _).bind fun _ => ih

theorem quiet_deleteMany (b : String) (t : Nat) (ks : List String) :
    Quiet ce env g (Store.deleteMany b t ks) := by
  induction ks with
  | nil => exact quiet_ret _
  | cons k ks ih =>
    refine (quiet_ret _).bind fun self => ?_
    exact (quiet_ret _).bind fun _ => ih.bind fun _ => quiet_ret _

theorem quiet_sweepBuckets (t : Nat) (bs : List String) (any : Bool)
    (report : Std.ExtTreeMap String (List String)) :
    Quiet ce env g (Store.sweepBuckets t bs any report) := by
  induction bs generalizing any report with
  | nil => exact quiet_ret _
  | cons b bs ih =>
    refine (quiet_ret _).bind fun self => (quiet_lift _).bind fun expired => ?_
    split
    · exact ih any report
    · exact (quiet_deleteEach b t expired).bind fun _ => ih true _

theorem quiet_putChunks (n : Nat) (chunks : List (String × Bytes)) :
    Quiet ce env g (Store.putChunks n chunks) := by
  induction chunks generalizing n with
  | nil => exact quiet_ret _
  | cons p rest ih =>
    refine (quiet_blob _ _ (by simp)).bind fun stored => ?_
    exact (quiet_require _ _).bind fun _ => ih (n + 1)

theorem quiet_createMultipartUpload (b k : String) (opts : PutOptions) :
    Quiet ce env .index (Store.createMultipartUpload ce b k opts).prog := by
  unfold Store.createMultipartUpload
  split
  · exact quiet_ret _
  · split
    · exact quiet_ret _
    · refine (quiet_multipartLoad.mapErr _).bind fun st => (quiet_reload.mapErr _).bind fun _ => ?_
      refine (quiet_ret _).bind fun self => (quiet_require _ _).bind fun _ => ?_
      refine (quiet_call (by simp)).bind fun id => quiet_now.bind fun t => ?_
      refine (quiet_lift _).bind fun st => ?_
      exact ((quiet_saveFile (by decide) _ _).mapErr _).bind fun _ => quiet_ret _

theorem quiet_uploadPart (self : Store) (id : String) (n : Nat) (bytes : Bytes) :
    Quiet ce env .index (Store.uploadPart ce self id n bytes).prog := by
  unfold Store.uploadPart
  split
  · exact quiet_ret _
  · refine (quiet_multipartLoad.mapErr _).bind fun st => (quiet_require _ _).bind fun _ => ?_
    refine (quiet_putChunks _ _).bind fun _ => ?_
    refine (quiet_blob _ _ (by simp)).bind fun etag => (quiet_lift _).bind fun st => ?_
    exact ((quiet_saveFile (by decide) _ _).mapErr _).bind fun _ => quiet_ret _

theorem atomic_completeMultipartUpload (id : String) (parts : List (Nat × String)) :
    Atomic ce env .index (Store.completeMultipartUpload ce id parts).prog := by
  refine (quiet_multipartLoad.mapErr _).bind_atomic fun st => ?_
  refine (quiet_lift _).bind_atomic fun upload => (quiet_lift _).bind_atomic fun manifest => ?_
  refine (quiet_ret _).bind_atomic fun self => (quiet_require _ _).bind_atomic fun _ => ?_
  refine (quiet_blob _ _ (by simp)).bind_atomic fun cid => ?_
  refine (quiet_reload.mapErr _).bind_atomic fun _ => (quiet_ret _).bind_atomic fun self => ?_
  refine (quiet_require _ _).bind_atomic fun _ => quiet_now.bind_atomic fun t => ?_
  refine (quiet_lift _).bind_atomic fun m => ((quiet_edit _).mapErr _).bind_atomic fun _ => ?_
  -- the index is saved here, the multipart state after it
  refine (atomic_flush.mapErr _).bind_quiet fun _ => ?_
  exact ((quiet_saveFile (by decide) _ _).mapErr _).bind fun _ => quiet_ret _

theorem atomic_putObjectOpts (self : Store) (b k : String) (bytes : Bytes) (opts : PutOptions) :
    Atomic ce env .index (self.putObjectOpts b k bytes opts).prog := by
  unfold Store.putObjectOpts
  split
  · exact (quiet_ret _).atomic
  · split
    · exact (quiet_ret _).atomic
    · split
      · exact (quiet_ret _).atomic
      · refine (quiet_reload.mapErr _).bind_atomic fun _ => (quiet_ret _).bind_atomic fun self => ?_
        refine (quiet_require _ _).bind_atomic fun _ => (quiet_lift _).bind_atomic fun _ => ?_
        refine (quiet_blob _ _ (by simp)).bind_atomic fun cid => quiet_now.bind_atomic fun t => ?_
        refine (quiet_lift _).bind_atomic fun m => ((quiet_edit _).mapErr _).bind_atomic fun _ => ?_
        exact (atomic_flush.mapErr _).bind_quiet fun _ => quiet_ret _

theorem atomic_sweepExpired (b : String) :
    Atomic ce env .index (Store.sweepExpired b).prog := by
  refine quiet_reload.bind_atomic fun _ => quiet_now.bind_atomic fun t => ?_
  refine (quiet_ret _).bind_atomic fun self => (quiet_lift _).bind_atomic fun expired => ?_
  refine (quiet_deleteEach _ _ _).bind_atomic fun _ => ?_
  split
  · exact (quiet_ret _).atomic
  · exact atomic_flush_pure _

theorem atomic_sweepAll : Atomic ce env .index Store.sweepAll.prog := by
  refine quiet_reload.bind_atomic fun _ => quiet_now.bind_atomic fun t => ?_
  refine (quiet_ret _).bind_atomic fun self => (quiet_sweepBuckets _ _ _ _).bind_atomic fun r => ?_
  dsimp only
  split
  · exact atomic_flush_pure _
  · exact (quiet_ret _).atomic

/-- Whenever a method crashes, the index file is as before or as the whole
method leaves it. -/
theorem atomic_prog (c : StoreCall) (self : Store) :
    Atomic ce env .index (c.op ce self).prog := by
  have simple : ∀ f : Index → Except String Unit × Index,
      Atomic ce env .index (do Store.edit f; Store.flush) :=
    fun f => (quiet_edit f).bind_atomic fun _ => atomic_flush
  -- every call ends in one save of the index, or saves no index
  cases c with
  | putObjectOpts b k bytes opts => exact (atomic_putObjectOpts self b k bytes opts).into _ _
  | createMultipartUpload b k opts => exact (quiet_createMultipartUpload b k opts).atomic.into _ _
  | uploadPart id n bytes => exact (quiet_uploadPart self id n bytes).atomic.into _ _
  | completeMultipartUpload id parts => exact (atomic_completeMultipartUpload id parts).into _ _
  | sweepExpired b => exact (atomic_sweepExpired b).into _ _
  | sweepAll => exact atomic_sweepAll.into _ _
  | deleteObjects b ks =>
    refine Atomic.into (o := Store.deleteObjects b ks) _ _ (quiet_reload.bind_atomic fun _ => ?_)
    refine quiet_now.bind_atomic fun t => (quiet_deleteMany b t ks).bind_atomic fun out => ?_
    exact atomic_flush_pure out
  | abortMultipartUpload id =>
    refine Atomic.into (o := Store.abortMultipartUpload id) _ _ (Quiet.atomic ?_)
    exact quiet_multipartLoad.bind fun st => quiet_saveFile (by decide) _ _
  | makeBucket b =>
    exact Atomic.into (o := Store.makeBucket b) _ _
      (quiet_reload.bind_atomic fun _ => quiet_now.bind_atomic fun _ => simple _)
  | deleteObject b k =>
    exact Atomic.into (o := Store.deleteObject b k) _ _
      (quiet_reload.bind_atomic fun _ => quiet_now.bind_atomic fun _ => simple _)
  | copyObject sb sk db dk =>
    exact Atomic.into (o := Store.copyObject sb sk db dk) _ _
      (quiet_reload.bind_atomic fun _ => quiet_now.bind_atomic fun _ => simple _)
  | removeBucket b force =>
    exact Atomic.into (o := Store.removeBucket b force) _ _
      (quiet_reload.bind_atomic fun _ => simple _)
  | setVersioning b enabled =>
    exact Atomic.into (o := Store.setVersioning b enabled) _ _
      (quiet_reload.bind_atomic fun _ => simple _)
  | setLifecycle b rules =>
    exact Atomic.into (o := Store.setLifecycle b rules) _ _
      (quiet_reload.bind_atomic fun _ => simple _)
  | deleteObjectVersion b k v =>
    exact Atomic.into (o := Store.deleteObjectVersion b k v) _ _
      (quiet_reload.bind_atomic fun _ => simple _)

/-! ## Counting calls -/

/-- The method leaves file `g` alone during its first `k` calls. -/
def QuietUpTo (ce : CeRs) (env : Env) (g : File) (k : Nat) (x : Act ε α) : Prop :=
  ∀ s, (x s).QuietUpTo (perform ce env) (·.files g) k

theorem quietUpTo_zero (x : Act ε α) : QuietUpTo ce env g 0 x :=
  fun s => Prog.quietUpTo_zero (x s)

/-- A quiet part that makes at least `c` calls when it succeeds. -/
theorem Quiet.bind_upTo {k c : Nat} {x : Act ε α} {f : α → Act ε β} (hx : Quiet ce env g x)
    (hc : ∀ s w r, (exec ce env x s w).1.1 = .ok r → c ≤ callsExec ce env x s w)
    (hf : ∀ a, QuietUpTo ce env g (k - c) (f a)) : QuietUpTo ce env g k (x >>= f) := by
  intro s
  refine (hx s).bind_upTo fun w => ?_
  have hcalls := hc s w
  unfold exec callsExec at hcalls
  rcases hr : ((x s).run (perform ce env) w).1 with ⟨e | a, s'⟩
  · exact (Prog.quiet_ret _).upTo _
  · rw [hr] at hcalls
    have hle := hcalls a rfl
    exact (hf a s').mono (by omega)

/-- A part that makes no counted call. -/
theorem Quiet.then_upTo {k : Nat} {x : Act ε α} {f : α → Act ε β} (hx : Quiet ce env g x)
    (hf : ∀ a, QuietUpTo ce env g k (f a)) : QuietUpTo ce env g k (x >>= f) :=
  hx.bind_upTo (fun _ _ _ _ => Nat.zero_le _) hf

/-- A part that makes all `k` calls when it succeeds. -/
theorem QuietUpTo.bind {k : Nat} {x : Act ε α} (hx : QuietUpTo ce env g k x)
    (hc : ∀ s w r, (exec ce env x s w).1.1 = .ok r → k ≤ callsExec ce env x s w)
    (hfail : ∀ s w e, (exec ce env x s w).1.1 = .error e →
      (exec ce env x s w).2.files g = w.files g) (f : α → Act ε β) :
    QuietUpTo ce env g k (x >>= f) := by
  intro s
  refine (hx s).bind fun w => ?_
  have hcalls := hc s w
  have hf := hfail s w
  unfold exec at hcalls hf
  rcases hr : (x s).run (perform ce env) w with ⟨⟨e | a, s'⟩, w'⟩
  · rw [hr] at hf
    refine .inr ?_
    intro n
    exact (congrArg (·.files g) (Prog.cut_ret n _ w')).trans (hf e rfl)
  · rw [hr] at hcalls
    exact .inl (hcalls a rfl)

theorem callsExec_ensure {c : Call} (h : Resp c = Bool) (context : ε) :
    callsExec ce env (Act.ensure h context) s w = 1 := by
  unfold Act.ensure Act.require
  rw [callsExec_bind, exec_call]
  dsimp only
  split <;> rfl

theorem callsExec_blob {c : Call} (h : Resp c = Except String α) (context : String → ε) :
    callsExec ce env (Act.blob h context) s w = 1 := by
  unfold Act.blob
  rw [callsExec_bind, exec_call]
  dsimp only
  cases Except.mapError context _ <;> rfl

/-- A save that succeeds makes five calls. -/
theorem callsExec_saveFile {f : File} {context : SaveStep → String} {t : Text} {r : Unit}
    (h : (exec ce env (saveFile f context t) s w).1.1 = .ok r) :
    callsExec ce env (saveFile f context t) s w = 5 := by
  rw [exec_saveFile] at h
  unfold Env.save at h
  cases hs : env.saveFails f with
  | some step =>
    rw [hs] at h
    exact nomatch h
  | none =>
    unfold saveFile
    simp [callsExec_bind, callsExec_ensure, exec_ensure, perform, hs]
    rfl

/-- The rename is the fifth call of a save. -/
theorem quietUpTo_saveFile (f : File) (context : SaveStep → String) (t : Text) :
    QuietUpTo ce env g 4 (saveFile f context t) := by
  unfold saveFile
  have step : ∀ {c : Call} (h : Resp c = Bool) (m : String),
      ∀ s w r, (exec ce env (Act.ensure h m) s w).1.1 = .ok r →
        1 ≤ callsExec ce env (Act.ensure h m) s w :=
    fun h m s w _ _ => Nat.le_of_eq (callsExec_ensure h m).symm
  refine (quiet_ret _).then_upTo ?_
  intro self
  refine (quiet_ensure _ _ (by simp)).bind_upTo (step _ _) fun _ => ?_
  refine (quiet_ensure _ _ (by simp)).bind_upTo (step _ _) fun _ => ?_
  refine (quiet_ensure _ _ (by simp)).bind_upTo (step _ _) fun _ => ?_
  refine (quiet_ensure _ _ (by simp)).bind_upTo (step _ _) fun _ => ?_
  exact quietUpTo_zero _

/-- The method makes at most `k` calls. -/
def AtMost (ce : CeRs) (env : Env) (k : Nat) (x : Act ε α) : Prop :=
  ∀ s w, callsExec ce env x s w ≤ k

theorem AtMost.bind {j k : Nat} {x : Act ε α} {f : α → Act ε β} (hx : AtMost ce env j x)
    (hf : ∀ a, AtMost ce env k (f a)) : AtMost ce env (j + k) (x >>= f) := by
  intro s w
  rw [callsExec_bind]
  refine Nat.add_le_add (hx s w) ?_
  split
  next a s' w' h => exact hf a s' w'
  next => exact Nat.zero_le k

theorem AtMost.mapErr {k : Nat} {x : Act ε α} (f : ε → ε') (hx : AtMost ce env k x) :
    AtMost ce env k (x.mapErr f) :=
  fun s w => Nat.le_trans (Nat.le_of_eq (callsExec_mapErr f x)) (hx s w)

theorem atMost_ret (r : Store → Except ε α × Store) :
    AtMost ce env 0 (fun s => .ret (r s) : Act ε α) :=
  fun _ _ => Nat.le_refl 0

theorem atMost_lift (x : Except ε α) : AtMost ce env 0 (Act.lift x) := by
  cases x <;> exact atMost_ret _

theorem atMost_require (c : Prop) [Decidable c] (e : ε) : AtMost ce env 0 (Act.require c e) := by
  unfold Act.require
  split <;> exact atMost_ret _

theorem atMost_call (c : Call) : AtMost ce env 1 (Act.call c : Act ε _) :=
  fun _ _ => Nat.le_refl 1

theorem atMost_blob {c : Call} (h : Resp c = Except String α) (context : String → ε) :
    AtMost ce env 1 (Act.blob h context) :=
  fun _ _ => Nat.le_of_eq (callsExec_blob h context)

theorem atMost_saveFile (f : File) (context : SaveStep → String) (t : Text) :
    AtMost ce env 5 (saveFile f context t) := by
  have step : ∀ {c : Call} (h : Resp c = Bool) (m : String), AtMost ce env 1 (Act.ensure h m) :=
    fun h m s w => Nat.le_of_eq (callsExec_ensure h m)
  unfold saveFile
  refine (atMost_ret _).bind (j := 0) (k := 5) fun self => ?_
  exact (step _ _).bind fun _ => (step _ _).bind fun _ => (step _ _).bind fun _ =>
    (step _ _).bind fun _ => step _ _

end CeStorage
