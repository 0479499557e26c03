import CeStorage.Lib.Ghost
import CeStorage.Store.Edits

/-!
# What a handle's cached index is worth

A handle reads from the index it has in memory, never from the file. `Synced`
is what its own calls tell about that index: it is what the text `t` means, which
the handle loaded from the file or wrote into its temp file last (`text t`), or
nothing is known, because a save broke off before the text was written
(`unknown`).

Every method keeps this true, whatever its calls are answered (`op_settled`): it
reloads the index before it edits it, and writes every edit that it keeps.
-/

namespace CeStorage

open Lib

/-- What the calls of a handle so far tell about its cached index. -/
inductive Synced where
  | text (t : Option Text)
  | unknown

namespace Synced

/-- The cached index is `i`. -/
def Of : Synced → Index → Prop
  | text t, i => Index.decode t = .ok i
  | unknown, _ => True

/-- After one more call. A load that parses counts, and a write whether it is
answered or not. -/
def note : (c : Call) → Resp c → Synced → Synced
  | .read .index, r, g =>
    match r with
    | none => g
    | some t => if (Index.decode t).isOk then text t else g
  | .createDir .index, ok, g => if ok then g else unknown
  | .createTemp .index _, ok, g => if ok then g else unknown
  | .write .index _ t, _, _ => text (some t)
  | .read .multipart, _, g | .createDir .multipart, _, g | .createTemp .multipart _, _, g
  | .write .multipart _ _, _, g | .sync _ _, _, g | .rename _ _, _, g | .now, _, g
  | .randomUploadId, _, g | .putObject _, _, g | .putBlob _ _, _, g | .getObject _, _, g
  | .getBlob _, _, g => g

end Synced

variable {ε ε' α β : Type} {ce : CeRs} {s : Store} {g : Synced}

/-- Whatever its calls are answered, the method ends with `Q` of its result, the
handle and what is known of the cache. -/
def Ends (Q : Except ε α → Store → Synced → Prop) (x : Act ε α) (s : Store) (g : Synced) : Prop :=
  (x s).Watched Synced.note (fun r g => Q r.1 r.2 g) g

/-- What holds of a method's end: the cached index is as known. -/
def Settled (_ : Except ε α) (s : Store) (g : Synced) : Prop := g.Of s.index

section
variable {Q : Except ε α → Store → Synced → Prop}

theorem ends_bind {Q : Except ε β → Store → Synced → Prop} {x : Act ε α} {f : α → Act ε β}
    (h : Ends (fun r s g => match r with
      | .ok a => Ends Q (f a) s g
      | .error e => Q (.error e) s g) x s g) : Ends Q (x >>= f) s g :=
  (Prog.watched_bind (x s) _).mpr <| h.mono fun
    | (.ok _, _), _ => id
    | (.error _, _), _ => id

theorem ends_call {c : Call} {Q : Except ε (Resp c) → Store → Synced → Prop}
    (h : ∀ r, Q (.ok r) s (Synced.note c r g)) : Ends Q (Act.call c) s g := h

theorem ends_mapErr {Q : Except ε' α → Store → Synced → Prop} {f : ε → ε'} {x : Act ε α}
    (h : Ends (fun r s g => Q (r.mapError f) s g) x s g) : Ends Q (x.mapErr f) s g :=
  (Prog.watched_bind (x s) _).mpr h

/-- An operation in `Failure` and `Value` ends as it does at its own types. -/
theorem ends_into {o : Op ε α} (f : ε → Failure) (h : α → Value)
    (ho : Ends Settled o.prog s g) (hs : g.Of s.index) : Ends Settled (o.into f h).prog s g := by
  cases o with
  | refused e => exact hs
  | locked busy body => exact (Prog.watched_bind (body s) _).mpr ho

/-! ## Methods that leave the handle alone -/

/-- The method neither changes the handle nor touches the index file. -/
def Aside (x : Act ε α) : Prop :=
  ∀ (Q : Except ε α → Store → Synced → Prop) s g, (∀ r, Q r s g) → Ends Q x s g

theorem aside_ret (r : Store → Except ε α) : Aside (fun s => .ret (r s, s) : Act ε α) :=
  fun _ _ _ h => h _

/-- A method that keeps aside keeps the cache as known. -/
theorem Aside.settled {x : Act ε α} (hx : Aside x) (hs : g.Of s.index) : Ends Settled x s g :=
  hx Settled s g fun _ => hs

theorem aside_lift (x : Except ε α) : Aside (Act.lift x) := by
  cases x <;> exact aside_ret _

theorem aside_require (c : Prop) [Decidable c] (e : ε) : Aside (Act.require c e) := by
  unfold Act.require
  split <;> exact aside_ret _

theorem Aside.bind {x : Act ε α} {f : α → Act ε β} (hx : Aside x) (hf : ∀ a, Aside (f a)) :
    Aside (x >>= f) := by
  intro Q s g h
  refine ends_bind (hx _ s g fun r => ?_)
  cases r with
  | error e => exact h _
  | ok a => exact hf a Q s g h

theorem Aside.mapErr {x : Act ε α} (f : ε → ε') (hx : Aside x) : Aside (x.mapErr f) :=
  fun _ s g h => ends_mapErr (hx _ s g fun _ => h _)

/-- A method that keeps aside, and what follows it. -/
theorem Aside.ends {Q : Except ε β → Store → Synced → Prop} {x : Act ε α} {f : α → Act ε β}
    (hx : Aside x) (he : ∀ e, Q (.error e) s g) (hf : ∀ a, Ends Q (f a) s g) :
    Ends Q (x >>= f) s g := by
  refine ends_bind (hx _ s g fun r => ?_)
  cases r with
  | error e => exact he e
  | ok a => exact hf a

theorem aside_call {c : Call} (h : ∀ r g, Synced.note c r g = g) :
    Aside (Act.call c : Act ε _) := by
  intro Q s g hQ r
  rw [h]
  exact hQ _

theorem aside_now : Aside (Act.call .now : Act ε _) := aside_call fun _ _ => rfl

theorem aside_blob {c : Call} (hc : Resp c = Except String α) (context : String → ε)
    (h : ∀ r g, Synced.note c r g = g) : Aside (Act.blob hc context) :=
  (aside_call h).bind fun _ => aside_lift _

theorem aside_ensure {c : Call} (hc : Resp c = Bool) (context : ε)
    (h : ∀ r g, Synced.note c r g = g) : Aside (Act.ensure hc context) :=
  (aside_call h).bind fun _ => aside_require _ _

theorem aside_multipartLoad : Aside MultipartState.load := by
  refine (aside_call fun _ _ => rfl).bind fun r => ?_
  cases r with
  | none => exact aside_ret _
  | some t => exact aside_lift _

theorem aside_multipartSave (st : MultipartState) : Aside st.save := by
  intro Q s g hQ
  have hrest : Aside (do
      Act.ensure (c := .createDir .multipart) rfl (multipartSaveContext .createDir)
      Act.ensure (c := .createTemp .multipart s.pid) rfl (multipartSaveContext .createTemp)
      Act.ensure (c := .write .multipart s.pid (.multipart st)) rfl (multipartSaveContext .write)
      Act.ensure (c := .sync .multipart s.pid) rfl (multipartSaveContext .sync)
      Act.ensure (c := .rename .multipart s.pid) rfl (multipartSaveContext .rename)) := by
    refine (aside_ensure _ _ fun _ _ => rfl).bind fun _ => ?_
    refine (aside_ensure _ _ fun _ _ => rfl).bind fun _ => ?_
    refine (aside_ensure _ _ fun _ _ => rfl).bind fun _ => ?_
    refine (aside_ensure _ _ fun _ _ => rfl).bind fun _ => ?_
    exact aside_ensure _ _ fun _ _ => rfl
  exact hrest Q s g hQ

theorem aside_putChunks (n : Nat) (chunks : List (String × Bytes)) :
    Aside (Store.putChunks n chunks) := by
  induction chunks generalizing n with
  | nil => exact aside_ret _
  | cons p rest ih =>
    refine (aside_blob _ _ fun _ _ => rfl).bind fun stored => ?_
    exact (aside_require _ _).bind fun _ => ih (n + 1)

end

/-! ## Loading and saving the index -/

section
variable {Q : Except String Unit → Store → Synced → Prop}

/-- A reload fails and leaves everything, or the handle has what the text it
loaded means. -/
theorem ends_reload (he : ∀ e, Q (.error e) s g)
    (hok : ∀ t i, Index.decode t = .ok i → Q (.ok ()) { s with index := i } (.text t)) :
    Ends Q Store.reload s g := by
  refine ends_bind (ends_bind (ends_call fun r => ?_))
  cases r with
  | none => exact he _
  | some t =>
    show Ends _ (Act.lift (Index.decode t)) s (if (Index.decode t).isOk then .text t else g)
    cases hd : Index.decode t with
    | error e => exact he e
    | ok i => exact hok t i hd

/-- An edit of the cached index. -/
theorem ends_edit {Q : Except String α → Store → Synced → Prop}
    {f : Index → Except String α × Index}
    (h : Q (f s.index).1 { s with index := (f s.index).2 } g) : Ends Q (Store.edit f) s g := by
  refine ends_bind (ends_bind (x := Act.setIndex (f s.index).2) ?_)
  show Ends Q (Act.lift (f s.index).1) { s with index := (f s.index).2 } g
  cases hr : (f s.index).1 <;> (rw [hr] at h; exact h)

/-- A save leaves the handle alone, and the cached index as known. -/
theorem ends_flush (hs : s.index.schema ≤ schemaVersion)
    (hQ : ∀ r g, g.Of s.index → Q r s g) : Ends Q Store.flush s g := by
  have hwritten : (Synced.text (some (.index s.index))).Of s.index := Index.decode_saved hs
  intro dir
  cases dir with
  | false => exact hQ _ _ trivial
  | true =>
    intro temp
    cases temp with
    | false => exact hQ _ _ trivial
    | true =>
      -- from the write on, the text is the cached index
      intro written
      cases written with
      | false => exact hQ _ _ hwritten
      | true =>
        intro synced
        cases synced with
        | false => exact hQ _ _ hwritten
        | true =>
          intro renamed
          cases renamed <;> exact hQ _ _ hwritten

end

/-! ## Every method keeps the cache as known -/

section
variable {x : Act ε β}

/-- Reload, and go on with an index that the file, as it was read, means. -/
theorem reload_then {x : Unit → Act String β} (hs : g.Of s.index)
    (h : ∀ t i, Index.decode t = .ok i → Ends Settled (x ()) { s with index := i } (.text t)) :
    Ends Settled (Store.reload >>= x) s g :=
  ends_bind (ends_reload (fun _ => hs) h)

theorem reload_mapErr_then {x : Unit → Act ε β} (f : String → ε) (hs : g.Of s.index)
    (h : ∀ t i, Index.decode t = .ok i → Ends Settled (x ()) { s with index := i } (.text t)) :
    Ends Settled (Store.reload.mapErr f >>= x) s g :=
  ends_bind (ends_mapErr (ends_reload (fun _ => hs) h))

/-- A flush is the end, whatever a method returns after it. -/
theorem flush_pure (hs : s.index.schema ≤ schemaVersion) (a : α) :
    Ends Settled (do Store.flush; pure a) s g := by
  refine ends_bind (ends_flush hs fun r g hg => ?_)
  cases r <;> exact hg

theorem flush_mapErr_then (f : String → ε) (hs : s.index.schema ≤ schemaVersion)
    (hx : Aside x) : Ends Settled (do Store.flush.mapErr f; x) s g := by
  refine ends_bind (ends_mapErr (ends_flush hs fun r g hg => ?_))
  cases r with
  | error e => exact hg
  | ok u => exact hx Settled s g fun _ => hg

/-- An edit that fails changes nothing; one that does not is saved. -/
theorem edit_flush {f : Index → Except String Unit × Index}
    (hf : ∀ i e, (f i).1 = .error e → (f i).2 = i) (hschema : ∀ i, (f i).2.schema = i.schema)
    {t : Option Text} (hs : Index.decode t = .ok s.index) :
    Ends Settled (do Store.edit f; Store.flush) s (.text t) := by
  have hsaved : (f s.index).2.schema ≤ schemaVersion := by
    rw [hschema]
    exact Index.schema_of_decode hs
  have hfail := hf s.index
  refine ends_bind (ends_edit ?_)
  cases hr : (f s.index).1 with
  | error e =>
    show Index.decode t = .ok (f s.index).2
    rw [hfail e hr]
    exact hs
  | ok u =>
    exact ends_flush (Q := Settled) (s := { s with index := (f s.index).2 }) hsaved
      fun _ _ hg => hg

/-- Binding a key and saving the index, the errors put into the caller's type. -/
theorem put_flush_then (f h : String → ε) (b k : String) (m : ObjectMeta) {t : Option Text}
    (hs : Index.decode t = .ok s.index) (hx : Aside x) :
    Ends Settled (do
      (Store.edit (·.put b k m)).mapErr f
      Store.flush.mapErr h
      x) s (.text t) := by
  have hsaved : (s.index.put b k m).2.schema ≤ schemaVersion := by
    rw [Index.put_schema]
    exact Index.schema_of_decode hs
  refine ends_bind (ends_mapErr (ends_edit ?_))
  cases hr : (s.index.put b k m).1 with
  | error e =>
    show Index.decode t = .ok (s.index.put b k m).2
    rw [Index.put_error hr]
    exact hs
  | ok u => exact flush_mapErr_then h (s := { s with index := (s.index.put b k m).2 }) hsaved hx

end

/-! ### Loops without calls -/

/-- A method that makes no call ends as every run of it does. -/
theorem ends_of_silent {Q : Except ε β → Store → Synced → Prop} {x : Act ε α} {f : α → Act ε β}
    (hx : (x s).Uses fun _ => False) {a : α} {s' : Store}
    (hr : ∀ ce env w, exec ce env x s w = ((.ok a, s'), w)) (h : Ends Q (f a) s' g) :
    Ends Q (x >>= f) s g := by
  let env := Env.calm CeRs.plain 0 ""
  have hrun := hr CeRs.plain env World.blank
  refine ends_bind ((Prog.watched_of_silent hx (perform CeRs.plain env) World.blank).mpr ?_)
  rw [show (x s).run _ World.blank = ((.ok a, s'), World.blank) from hrun]
  exact h

theorem silent_bind {x : Act ε α} {f : α → Act ε β} (hx : ∀ s, (x s).Uses fun _ => False)
    (hf : ∀ a s, (f a s).Uses fun _ => False) (s : Store) :
    ((x >>= f) s).Uses fun _ => False :=
  (hx s).bind fun
    | (.ok a, s') => hf a s'
    | (.error _, _) => trivial

theorem silent_edit (f : Index → Except String α × Index) (s : Store) :
    (Store.edit f s).Uses fun _ => False := by
  show ((Act.lift (f s.index).1) { s with index := (f s.index).2 }).Uses _
  cases (f s.index).1 <;> trivial

theorem silent_deleteEach (b : String) (t : Nat) (ks : List String) (s : Store) :
    (Store.deleteEach b t ks s).Uses fun _ => False := by
  induction ks generalizing s with
  | nil => trivial
  | cons k ks ih => exact silent_bind (silent_edit _) (fun _ => ih) s

theorem silent_deleteMany (b : String) (t : Nat) (ks : List String) (s : Store) :
    (Store.deleteMany b t ks s).Uses fun _ => False := by
  induction ks generalizing s with
  | nil => trivial
  | cons k ks ih => exact (ih _).bind fun
      | (.ok _, _) => trivial
      | (.error _, _) => trivial

theorem silent_sweepBuckets (t : Nat) (bs : List String) (any : Bool)
    (report : Std.ExtTreeMap String (List String)) (s : Store) :
    (Store.sweepBuckets t bs any report s).Uses fun _ => False := by
  induction bs generalizing any report s with
  | nil => trivial
  | cons b bs ih =>
    refine silent_bind (x := Act.self) (fun _ => trivial) (fun self => ?_) s
    refine silent_bind (fun s => ?_) (fun expired => ?_)
    · cases self.index.expiredKeys b t <;> trivial
    · split
      · exact ih any report
      · exact silent_bind (silent_deleteEach b t expired) fun _ => ih true _

/-! ### The methods -/

theorem ends_createMultipartUpload (b k : String) (opts : PutOptions) (hs : g.Of s.index) :
    Ends Settled (Store.createMultipartUpload ce b k opts).prog s g := by
  unfold Store.createMultipartUpload
  split
  · exact hs
  · split
    · exact hs
    · refine (aside_multipartLoad.mapErr _).ends (fun _ => hs) fun st => ?_
      refine reload_mapErr_then _ hs fun t i hi => Aside.settled ?_ hi
      refine (aside_ret _).bind fun self => (aside_require _ _).bind fun _ => ?_
      refine (aside_call fun _ _ => rfl).bind fun id => aside_now.bind fun t => ?_
      refine (aside_lift _).bind fun st => ?_
      exact ((aside_multipartSave st).mapErr _).bind fun _ => aside_ret _

theorem aside_uploadPart (self : Store) (id : String) (n : Nat) (bytes : Bytes) :
    Aside (Store.uploadPart ce self id n bytes).prog := by
  unfold Store.uploadPart
  split
  · exact aside_ret _
  · refine (aside_multipartLoad.mapErr _).bind fun st => (aside_require _ _).bind fun _ => ?_
    refine (aside_putChunks _ _).bind fun _ => (aside_blob _ _ fun _ _ => rfl).bind fun _ => ?_
    refine (aside_lift _).bind fun st => ?_
    exact ((aside_multipartSave st).mapErr _).bind fun _ => aside_ret _

theorem ends_completeMultipartUpload (id : String) (parts : List (Nat × String))
    (hs : g.Of s.index) : Ends Settled (Store.completeMultipartUpload ce id parts).prog s g := by
  refine (aside_multipartLoad.mapErr _).ends (fun _ => hs) fun st => ?_
  refine (aside_lift _).ends (fun _ => hs) fun u => (aside_lift _).ends (fun _ => hs) fun m => ?_
  refine (aside_ret _).ends (fun _ => hs) fun self => (aside_require _ _).ends (fun _ => hs) fun _ => ?_
  refine (aside_blob _ _ fun _ _ => rfl).ends (fun _ => hs) fun cid => ?_
  refine reload_mapErr_then _ hs fun t i hi => (aside_ret _).ends (fun _ => hi) fun self => ?_
  refine (aside_require _ _).ends (fun _ => hi) fun _ => aside_now.ends (fun _ => hi) fun now => ?_
  refine (aside_lift _).ends (fun _ => hi) fun m => put_flush_then _ _ _ _ _ hi ?_
  exact ((aside_multipartSave _).mapErr _).bind fun _ => aside_ret _

theorem ends_putObjectOpts (self : Store) (b k : String) (bytes : Bytes) (opts : PutOptions)
    (hs : g.Of s.index) : Ends Settled (self.putObjectOpts b k bytes opts).prog s g := by
  unfold Store.putObjectOpts
  split
  · exact hs
  · split
    · exact hs
    · split
      · exact hs
      · refine reload_mapErr_then _ hs fun t i hi => (aside_ret _).ends (fun _ => hi) fun self => ?_
        refine (aside_require _ _).ends (fun _ => hi) fun _ => ?_
        refine (aside_lift _).ends (fun _ => hi) fun _ => ?_
        refine (aside_blob _ _ fun _ _ => rfl).ends (fun _ => hi) fun cid => ?_
        refine aside_now.ends (fun _ => hi) fun now => (aside_lift _).ends (fun _ => hi) fun m => ?_
        exact put_flush_then _ _ _ _ _ hi (aside_ret _)

/-- What edits make of an index that was loaded can be loaded again. -/
theorem saved_schema (may : IndexEdit → Prop) {t : Option Text} {i j : Index}
    (hi : Index.decode t = .ok i) (h : Edited may i j) : j.schema ≤ schemaVersion := by
  rw [Index.schema_edited h]
  exact Index.schema_of_decode hi

theorem ends_sweepExpired (b : String) (hs : g.Of s.index) :
    Ends Settled (Store.sweepExpired b).prog s g := by
  refine reload_then hs fun t i hi => aside_now.ends (fun _ => hi) fun now => ?_
  refine ends_bind (x := Act.self) ?_
  show Ends Settled (Act.lift (i.expiredKeys b now) >>= _) { s with index := i } (.text t)
  cases hex : i.expiredKeys b now with
  | error e => exact hi
  | ok expired =>
    have hb := Index.bucket_of_expiredKeys hex
    show Ends Settled (Store.deleteEach b now expired >>= _) { s with index := i } (.text t)
    refine ends_of_silent (silent_deleteEach b now expired _)
      (fun _ _ _ => exec_deleteEach expired hb) ?_
    split
    next he =>
      rw [List.isEmpty_iff.mp he]
      exact hi
    next =>
      refine flush_pure (saved_schema (fun _ => True) hi ?_) expired
      exact deleteAll_edited b now expired i fun _ _ => trivial

theorem ends_sweepAll (hs : g.Of s.index) : Ends Settled Store.sweepAll.prog s g := by
  refine reload_then hs fun t i hi => aside_now.ends (fun _ => hi) fun now => ?_
  refine ends_bind (x := Act.self) ?_
  refine ends_of_silent (silent_sweepBuckets now _ false ∅ _) (fun _ _ _ =>
    exec_sweepBuckets _ _ _ fun b hb => Index.bucket_of_mem_listBuckets hb) ?_
  dsimp only
  split
  next =>
    refine flush_pure (saved_schema (fun _ => True) hi ?_) _
    exact sweepBuckets_edited now _ i false ∅ fun _ _ => trivial
  next ha =>
    -- nothing was deleted, so the index is the one that was loaded
    show Index.decode t = .ok (i.sweepBuckets now i.listBuckets false ∅).1
    rw [Index.sweepBuckets_keep _ _ _ _ (Bool.eq_false_iff.mpr ha)]
    exact hi

theorem ends_deleteObjects (b : String) (ks : List String) (hs : g.Of s.index) :
    Ends Settled (Store.deleteObjects b ks).prog s g := by
  refine reload_then hs fun t i hi => aside_now.ends (fun _ => hi) fun now => ?_
  refine ends_of_silent (silent_deleteMany b now ks _) (fun _ _ _ => exec_deleteMany ks) ?_
  refine flush_pure (saved_schema (fun _ => True) hi ?_) _
  exact deleteAll_edited b now ks i fun _ _ => trivial

/-- **Whatever its calls are answered, a method leaves the cache as its calls
tell.** -/
theorem op_settled (c : StoreCall) (self : Store) (hs : g.Of s.index) :
    Ends Settled (c.op ce self).prog s g := by
  cases c with
  | putObjectOpts b k bytes opts =>
    exact ends_into _ _ (ends_putObjectOpts self b k bytes opts hs) hs
  | createMultipartUpload b k opts =>
    exact ends_into _ _ (ends_createMultipartUpload b k opts hs) hs
  | uploadPart id n bytes => exact ends_into _ _ ((aside_uploadPart self id n bytes).settled hs) hs
  | completeMultipartUpload id parts =>
    exact ends_into _ _ (ends_completeMultipartUpload id parts hs) hs
  | sweepExpired b => exact ends_into _ _ (ends_sweepExpired b hs) hs
  | sweepAll => exact ends_into _ _ (ends_sweepAll hs) hs
  | deleteObjects b ks => exact ends_into _ _ (ends_deleteObjects b ks hs) hs
  | abortMultipartUpload id =>
    refine ends_into (o := Store.abortMultipartUpload id) _ _ (Aside.settled ?_ hs) hs
    exact aside_multipartLoad.bind fun st => aside_multipartSave _
  -- reload, read the clock, edit, flush
  | makeBucket b =>
    refine ends_into (o := Store.makeBucket b) _ _ (reload_then hs ?_) hs
    intro t i hi
    refine aside_now.ends (fun _ => hi) fun now => ?_
    exact edit_flush (fun _ _ => Index.makeBucket_error)
      (fun _ => Index.schema_apply (.makeBucket b now)) hi
  | deleteObject b k =>
    refine ends_into (o := Store.deleteObject b k) _ _ (reload_then hs ?_) hs
    intro t i hi
    refine aside_now.ends (fun _ => hi) fun now => ?_
    exact edit_flush (fun _ _ => Index.delete_error)
      (fun _ => Index.schema_apply (.delete b k now)) hi
  | copyObject sb sk b k =>
    refine ends_into (o := Store.copyObject sb sk b k) _ _ (reload_then hs ?_) hs
    intro t i hi
    refine aside_now.ends (fun _ => hi) fun now => ?_
    exact edit_flush (fun _ _ => Index.copy_error)
      (fun _ => Index.schema_apply (.copy sb sk b k now)) hi
  -- reload, edit, flush
  | removeBucket b force =>
    refine ends_into (o := Store.removeBucket b force) _ _ (reload_then hs ?_) hs
    intro t i hi
    exact edit_flush (fun _ _ => Index.removeBucket_error)
      (fun _ => Index.schema_apply (.removeBucket b force)) hi
  | setVersioning b on =>
    refine ends_into (o := Store.setVersioning b on) _ _ (reload_then hs ?_) hs
    intro t i hi
    exact edit_flush (fun _ _ => Index.setVersioning_error)
      (fun _ => Index.schema_apply (.setVersioning b on)) hi
  | setLifecycle b rules =>
    refine ends_into (o := Store.setLifecycle b rules) _ _ (reload_then hs ?_) hs
    intro t i hi
    exact edit_flush (fun _ _ => Index.setLifecycle_error)
      (fun _ => Index.schema_apply (.setLifecycle b rules)) hi
  | deleteObjectVersion b k v =>
    refine ends_into (o := Store.deleteObjectVersion b k v) _ _ (reload_then hs ?_) hs
    intro t i hi
    exact edit_flush (fun _ _ => Index.deleteVersion_error)
      (fun _ => Index.schema_apply (.deleteVersion b k v)) hi

end CeStorage
