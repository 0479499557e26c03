import CeStorage.Replicated.Steps
import CeStorage.Store.Edits

/-!
# What a replicated get serves

The store keeps `bucket/key -> CID` in the bucket index, and the replicated store keeps it
once more in the records of the replica index; a get falls back from the first to the
second. No record is ever dropped, and the handle's copy of the bucket index is read again
only by its own operations.

So a handle `Knows` a CID for a key in three ways: from its copy of the bucket index, from
its records, and from the put that it is in. It serves nothing but current bindings as long
as no other handle binds a key otherwise than it knows it, none of its own puts breaks off
in the save of the bucket index, and it was opened on records that are current
(`serves_current`).
-/

namespace CeStorage

open Lib

/-! ## The current binding of a key -/

/-- The CID that an index binds a key to. -/
def Index.cidOf (i : Index) (bucket key : String) : Option String :=
  ((i.head bucket key).map (·.cid)).toOption

/-- The current object of a key in the bucket index on file. -/
def World.head (w : World) (bucket key : String) : Option ObjectMeta :=
  (Index.decode (w.files .index)).toOption.bind fun i => (i.head bucket key).toOption

def World.cidOf (w : World) (bucket key : String) : Option String :=
  (w.head bucket key).map (·.cid)

section
variable {i j : Index} {w w' : World} {m : ObjectMeta} {b k b' k' cid : String}

theorem Index.cidOf_eq_some : i.cidOf b k = some cid ↔ ∃ m, i.head b k = .ok m ∧ m.cid = cid := by
  unfold cidOf
  cases i.head b k with
  | error e => simp [Except.map, Except.toOption]
  | ok m => simp [Except.map, Except.toOption]

theorem World.cidOf_of_decode (h : Index.decode (w.files .index) = .ok i) :
    w.cidOf b k = i.cidOf b k := by
  unfold cidOf head Index.cidOf
  rw [h]
  cases hm : i.head b k <;> simp [Except.map, Except.toOption, hm]

theorem World.cidOf_congr (h : w'.files = w.files) : w'.cidOf b k = w.cidOf b k := by
  unfold cidOf head
  rw [h]

/-- After the save of an index with the schema of the one that was there. -/
theorem World.cidOf_saved (hi : Index.decode (w.files .index) = .ok i) (hj : j.schema = i.schema)
    (hf : w'.files = Function.update w.files .index (some (.index j))) :
    w'.cidOf b k = j.cidOf b k := by
  refine World.cidOf_of_decode ?_
  rw [hf, Function.update_self]
  exact Index.decode_kept hi hj

theorem Index.cidOf_of_history (h : j.history b k = i.history b k) : j.cidOf b k = i.cidOf b k := by
  refine Option.ext fun cid => ?_
  rw [cidOf_eq_some, cidOf_eq_some]
  constructor
  · rintro ⟨m, hm, hc⟩
    exact ⟨m, head_of_history h.symm hm, hc⟩
  · rintro ⟨m, hm, hc⟩
    exact ⟨m, head_of_history h hm, hc⟩

theorem Index.cidOf_put (h : i.put b k m = (.ok (), j)) :
    j.cidOf b' k' = if b = b' ∧ k = k' then some m.cid else i.cidOf b' k' := by
  split
  next hbk =>
    rw [← hbk.1, ← hbk.2]
    exact cidOf_eq_some.mpr ⟨m, head_put h, rfl⟩
  next hbk =>
    have hj : (i.put b k m).2 = j := congrArg Prod.snd h
    rw [← hj]
    exact cidOf_of_history (history_put_other m hbk)

end

/-! ## What a handle knows -/

/-- The CID that a handle has for a key: in its copy of the bucket index, in a record, or in
the put it is in, which has yet to replace the record. -/
inductive Knows (h : ReplicatedStore × Task) (b k cid : String) : Prop where
  | cached (hc : h.1.store.index.cidOf b k = some cid)
  | recorded {r : RecordEntry} (hr : h.1.index.getRecord b k = some r) (hc : r.cid = cid)
      (hother : ∀ a, h.2.putting = some a → ¬(a.bucket = b ∧ a.key = k))
  | putting {a : Putting} (ha : h.2.putting = some a) (hb : a.bucket = b) (hk : a.key = k)
      (hc : a.cid = cid)

/-- The keys that were bound so far, as the ghost of a run. -/
abbrev EverBound := String → String → Prop

/-- A key that was bound before, or is now. -/
def EverBound.Now (g : EverBound) (w : World) : EverBound := fun b k =>
  g b k ∨ (w.cidOf b k).isSome = true

def EverBound.note {P : Type} (_ : NodeEvent P) (x : Node P) (g : EverBound) : EverBound :=
  g.Now x.world

/-- What the handle knows of a key that was ever bound is its current binding. -/
def Agrees (g : EverBound) (w : World) (h : ReplicatedStore × Task) : Prop :=
  ∀ b k cid, Knows h b k cid → g.Now w b k → w.cidOf b k = some cid

/-! ## The condition -/

/-- The put comes to the save of the bucket index, with the key bound to `m`, and the save
fails. -/
def Store.PutBreaks (ce : CeRs) (env : Env) (self : Store) (bucket key : String) (bytes : Bytes)
    (contentType : String) (w : World) (m : ObjectMeta) : Prop :=
  putCheck self.maxObjectSize key bytes { contentType } = .ok () ∧ env.lock = .ok () ∧
    (∃ i j, env.loadIndex w = .ok i ∧
      (putDecision ce env bucket key bytes { contentType } i).1 = .save j m) ∧
    env.saveFails .index ≠ none

/-- With the files as in `w'`, no key is bound otherwise than before, but as every handle
apart from `p` that knows it does. -/
def Node.Respects {P : Type} (x : Node P) (w' : World) (p : Option P) : Prop :=
  ∀ q h, some q ≠ p → x.handles q = some h → ∀ b k cid, Knows h b k cid →
    w'.cidOf b k = x.world.cidOf b k ∨ w'.cidOf b k = some cid

/-- The event leaves no handle with a binding that is not the current one: what others bind
or delete no handle knows otherwise, a put that breaks off in the save binds nothing new, and
a handle is opened on records that are current. -/
def Node.KeepsCurrent {P : Type} (ce : CeRs) (x : Node P × EverBound) : NodeEvent P → Prop
  | .core s c env => x.1.Respects (c.exec ce env s x.1.world).2 none
  | .put p bucket key bytes contentType _ env =>
    ∀ self, x.1.handles p = some (self, .idle) →
      x.1.Respects ((self.store.putObject bucket key bytes contentType).exec ce env self.store
        x.1.world).2 (some p) ∧
      ∀ m, self.store.PutBreaks ce env bucket key bytes contentType x.1.world m →
        x.2.Now x.1.world bucket key → x.1.world.cidOf bucket key = some m.cid
  | .open _ _ _ _ => ∀ b k r, (ReplicaIndex.loadFrom x.1.replicas).getRecord b k = some r →
      x.2.Now x.1.world b k → x.1.world.cidOf b k = some r.cid
  | _ => True

/-! ## What the gets answer -/

/-- The answers for a CID are the bytes it names. -/
structure Env.Names (env : Env) (pinGet : String → Except String Bytes)
    (content : String → Bytes) : Prop where
  getObject : ∀ cid bytes, env.getObject cid = .ok bytes → bytes = content cid
  pinGet : ∀ cid bytes, pinGet cid = .ok bytes → bytes = content cid

/-- Of a key that was ever bound, a handle that is in no call gets nothing but the bytes of
the current binding, and answers no other CID. -/
def Node.Serves {P : Type} (ce : CeRs) (content : String → Bytes) (x : Node P × EverBound) :
    Prop :=
  ∀ p self, x.1.handles p = some (self, .idle) → ∀ b k, x.2.Now x.1.world b k →
    (∀ env pinGet bytes, env.Names pinGet content →
      self.getObject ce env pinGet b k x.1.world = .ok bytes →
      ∃ m, x.1.world.head b k = some m ∧ bytes = content m.cid ∧
        self.objectCid b k = .ok m.cid) ∧
    ∀ cid, self.objectCid b k = .ok cid → ∃ m, x.1.world.head b k = some m ∧ m.cid = cid

section
variable {ce : CeRs} {env : Env} {w w' : World} {self : ReplicatedStore} {b k cid : String}
  {g : EverBound} {h h' : ReplicatedStore × Task}

theorem World.cidOf_eq_some : w.cidOf b k = some cid ↔ ∃ m, w.head b k = some m ∧ m.cid = cid :=
  Option.map_eq_some_iff

/-- A handle is opened with the bucket index that is on file. -/
theorem Node.decode_openAt {P : Type} {x : Node P} {options : OpenOptions} {readable : Bool}
    (h : x.openAt options env readable = some self) :
    Index.decode (x.world.files .index) = .ok self.store.index := by
  unfold openAt at h
  split at h
  · exact nomatch h
  next store hs =>
    split at h
    · cases h
      exact Store.openAt_synced (congrArg Except.toOption hs)
    · exact nomatch h

/-- A full read: the current object of the handle's copy of the index, and its bytes. -/
theorem exec_getObject (s : Store) (w : World) :
    (exec ce env (Store.getObject b k) s w).1.1
      = (s.metaFor b k none).bind fun m =>
          ((env.getObject m.cid).mapError fun e => .backend s!"fetching object: {e}").map
            (Store.resultFrom m · none) := by
  unfold Store.getObject Store.getObjectOpts
  rw [exec_bind_ok exec_self, exec_bind_lift]
  cases s.metaFor b k none with
  | error e => rfl
  | ok m =>
    -- there is no condition to check
    show (exec ce env (Act.blob (c := .getObject m.cid) rfl _ >>= _) s w).1.1 = _
    unfold Act.blob
    rw [exec_bind, exec_bind_ok (exec_call _), exec_lift]
    dsimp only [perform, Except.bind]
    cases env.getObject m.cid <;> rfl

theorem getObject_ok {s : Store} {res : GetResult}
    (h : (exec ce env (Store.getObject b k) s w).1.1 = .ok res) :
    ∃ m, s.index.head b k = .ok m ∧ env.getObject m.cid = .ok res.bytes := by
  rw [exec_getObject] at h
  unfold Store.metaFor at h
  cases hm : s.index.head b k with
  | error e =>
    rw [hm] at h
    exact nomatch h
  | ok m =>
    rw [hm] at h
    refine ⟨m, rfl, ?_⟩
    dsimp only [Except.mapError, Except.bind] at h
    cases hget : env.getObject m.cid with
    | error e =>
      rw [hget] at h
      exact nomatch h
    | ok bytes =>
      rw [hget] at h
      cases h
      rfl

/-- `object_cid` answers what the handle knows. -/
theorem objectCid_knows (h : self.objectCid b k = .ok cid) : Knows (self, .idle) b k cid := by
  unfold ReplicatedStore.objectCid at h
  split at h
  next r hr =>
    cases h
    exact .recorded hr rfl nofun
  next =>
    refine .cached ?_
    unfold Store.pinHint at h
    unfold Index.cidOf
    rw [h]
    rfl

theorem objectCid_of_getRecord {r : RecordEntry} (hr : self.index.getRecord b k = some r) :
    self.objectCid b k = .ok r.cid := by
  unfold ReplicatedStore.objectCid
  rw [hr]

theorem objectCid_of_head {m : ObjectMeta} (hm : self.store.index.head b k = .ok m) :
    ∃ cid, self.objectCid b k = .ok cid := by
  cases hr : self.index.getRecord b k with
  | some r => exact ⟨r.cid, objectCid_of_getRecord hr⟩
  | none =>
    refine ⟨m.cid, ?_⟩
    unfold ReplicatedStore.objectCid Store.pinHint
    rw [hr, hm]
    rfl

/-- A get serves the bytes of a CID that the handle knows, where `object_cid` answers one. -/
theorem getObject_knows {pinGet : String → Except String Bytes} {content : String → Bytes}
    {bytes : Bytes} (hnames : env.Names pinGet content)
    (h : self.getObject ce env pinGet b k w = .ok bytes) :
    ∃ cid, Knows (self, .idle) b k cid ∧ bytes = content cid ∧
      ∃ cid', self.objectCid b k = .ok cid' := by
  unfold ReplicatedStore.getObject at h
  split at h
  next res hres =>
    cases h
    obtain ⟨m, hm, hbytes⟩ := getObject_ok hres
    exact ⟨m.cid, .cached (Index.cidOf_eq_some.mpr ⟨m, hm, rfl⟩), hnames.getObject _ _ hbytes,
      objectCid_of_head hm⟩
  next =>
    split at h
    next r hr =>
      refine ⟨r.cid, .recorded hr rfl nofun, hnames.pinGet _ _ ?_, r.cid,
        objectCid_of_getRecord hr⟩
      cases hpin : pinGet r.cid with
      | error e =>
        rw [hpin] at h
        cases h
      | ok bs =>
        rw [hpin] at h
        cases h
        rfl
    next => cases h

/-- A handle that agrees with the bucket index on what it knows answers from it. -/
theorem serves_of_agrees {content : String → Bytes} (hA : Agrees g w (self, .idle))
    (hg : g.Now w b k) :
    (∀ env pinGet bytes, env.Names pinGet content →
      self.getObject ce env pinGet b k w = .ok bytes →
      ∃ m, w.head b k = some m ∧ bytes = content m.cid ∧ self.objectCid b k = .ok m.cid) ∧
    ∀ cid, self.objectCid b k = .ok cid → ∃ m, w.head b k = some m ∧ m.cid = cid := by
  have hcurrent : ∀ cid, Knows (self, .idle) b k cid → ∃ m, w.head b k = some m ∧ m.cid = cid :=
    fun cid hknows => World.cidOf_eq_some.mp (hA b k cid hknows hg)
  refine ⟨?_, fun cid hcid => hcurrent cid (objectCid_knows hcid)⟩
  intro env pinGet bytes hnames hget
  obtain ⟨cid, hknows, hbytes, cid', hcid'⟩ := getObject_knows hnames hget
  obtain ⟨m, hm, rfl⟩ := hcurrent cid hknows
  obtain ⟨m', hm', rfl⟩ := hcurrent cid' (objectCid_knows hcid')
  cases hm.symm.trans hm'
  exact ⟨m, hm, hbytes, hcid'⟩

end

/-! ## One step -/

section
variable {P : Type} {ce : CeRs} {env : Env} {repairPlan : RepairPlanner} {x x' : Node P}
  {e : NodeEvent P} {g : EverBound} {w' : World} {h h' : ReplicatedStore × Task}
  {self : ReplicatedStore} {b k cid : String}

/-- What a handle knows after an event is the binding that the event made, or it knew it
before and the binding is still the same. -/
theorem Agrees.next (hA : Agrees g x.world h)
    (hk : ∀ b k cid, Knows h' b k cid → (g.Now x.world).Now w' b k →
      w'.cidOf b k = some cid ∨ Knows h b k cid ∧ w'.cidOf b k = x.world.cidOf b k) :
    Agrees (g.Now x.world) w' h' := by
  intro b k cid hknows hnow
  rcases hk b k cid hknows hnow with hcur | ⟨hold, hsame⟩
  · exact hcur
  · rw [hsame]
    refine hA b k cid hold ?_
    rcases hnow with hbefore | hbound
    · exact hbefore
    · exact .inr (hsame ▸ hbound)

/-- A handle that learns nothing. -/
theorem Agrees.still (hA : Agrees g x.world h)
    (hk : ∀ b k cid, Knows h' b k cid → Knows h b k cid) : Agrees (g.Now x.world) x.world h' :=
  hA.next fun b k cid hknows _ => .inr ⟨hk b k cid hknows, rfl⟩

theorem Node.Respects.next {p : Option P} {q : P} (hx : x.Respects w' p) (hqp : some q ≠ p)
    (hq : x.handles q = some h) (hA : Agrees g x.world h) : Agrees (g.Now x.world) w' h := by
  refine hA.next fun b k cid hknows _ => ?_
  rcases hx q h hqp hq b k cid hknows with hsame | hcur
  · exact .inr ⟨hknows, hsame⟩
  · exact .inl hcur

/-- Going on within a call, or ending it, teaches a handle nothing. -/
theorem Knows.of_putting {task task' : Task} (hput : task'.putting = task.putting)
    (hk : Knows (self, task') b k cid) : Knows (self, task) b k cid := by
  cases hk with
  | cached hc => exact .cached hc
  | recorded hr hc hother => exact .recorded hr hc (hput ▸ hother)
  | putting ha hb hk hc => exact .putting (hput ▸ ha) hb hk hc

theorem writeBack_ends (self : ReplicatedStore) (pass : Pass) (a : Audit)
    (newHosts : List String) :
    (self.writeBack pass a newHosts).1.store = self.store ∧
      (self.writeBack pass a newHosts).2.putting = none := by
  unfold ReplicatedStore.writeBack
  split
  · exact ⟨rfl, rfl⟩
  · split <;> exact ⟨rfl, rfl⟩

/-- From one wait to the next a handle learns nothing: a put that is recorded was known. -/
theorem resumed_knows {w : Wait} {task : Task} (hr : Resumed repairPlan self w task h)
    (hknows : Knows h b k cid) : Knows (self, task) b k cid := by
  cases hr with
  | on _ hput _ _ _ _ => exact hknows.of_putting hput
  | @bind a expiryHeight hput _ =>
    cases hknows with
    | cached hc => exact .cached hc
    | @recorded r hr hc _ =>
      rw [getRecord_bindRecord] at hr
      split at hr
      next hbk =>
        cases hr
        exact .putting hput hbk.1 hbk.2 hc
      next hne =>
        refine .recorded hr hc ?_
        intro a' ha'
        cases hput.symm.trans ha'
        exact hne
    | putting ha _ _ _ => exact nomatch ha
  | @back pass pass' a hobject _ _ _ =>
    have hput : task.putting = none := by
      cases task <;> first | rfl | exact nomatch hobject
    have hend := writeBack_ends self pass' a w.accepted
    cases hknows with
    | cached hc => exact .cached (hend.1 ▸ hc)
    | @recorded r hr hc _ =>
      have hsame := cid_writeBack self pass' a w.accepted b k
      rw [hr] at hsame
      obtain ⟨r', hr', hc'⟩ := Option.map_eq_some_iff.mp hsame.symm
      refine .recorded hr' (hc'.trans hc) fun a' ha' => ?_
      exact nomatch hput.symm.trans ha'
    | putting ha _ _ _ => exact nomatch hend.2.symm.trans ha

/-! ### The operations on the store -/

/-- Where a handle is in no call, it knows what its copy of the bucket index has and what its
records say. -/
theorem knows_idle {self' : ReplicatedStore}
    (hi : ∀ b k, self'.index.getRecord b k = self.index.getRecord b k)
    (hk : Knows (self', .idle) b k cid) :
    self'.store.index.cidOf b k = some cid ∨ Knows (self, .idle) b k cid := by
  cases hk with
  | cached hc => exact .inl hc
  | recorded hr hc _ => exact .inr (.recorded (hi _ _ ▸ hr) hc nofun)
  | putting ha _ _ _ => exact nomatch ha

theorem Index.cidOf_makeBucket (i : Index) (bucket : String) (t : Nat) :
    (i.makeBucket bucket t).2.cidOf b k = i.cidOf b k :=
  cidOf_of_history (history_makeBucket t)

/-- Making a bucket binds no key; the handle keeps its copy or has what is on file. -/
theorem makeBucket_cidOf (ce : CeRs) (env : Env) (bucket : String) (s : Store) (w : World) :
    let r := (Store.makeBucket bucket).exec ce env s w
    (∀ b k, r.2.cidOf b k = w.cidOf b k) ∧
      (r.1.2 = s ∨ ∀ b k, r.1.2.index.cidOf b k = w.cidOf b k) := by
  dsimp only
  rcases (Store.makeBucket bucket).exec_cases ce env s w with ⟨e, he⟩ | hex
  · rw [he]
    exact ⟨fun _ _ => rfl, .inl rfl⟩
  rw [hex, exec_makeBucket]
  rcases transact_cases env id
      (fun i => (Decision.ofEdit (i.makeBucket bucket env.now) (), [])) s w with
    ⟨e, -, he⟩ | ⟨i, hl, hrest⟩
  · rw [he]
    exact ⟨fun _ _ => rfl, .inl rfl⟩
  have hi := Env.decode_of_loadIndex hl
  rcases hrest with ⟨hs, hf, -⟩ | ⟨j, a, hsave, hs, hend⟩
  · refine ⟨fun b k => World.cidOf_congr hf, .inr fun b k => ?_⟩
    rw [hs, World.cidOf_of_decode hi]
  · have hj : (i.makeBucket bucket env.now).2 = j := by
      rw [(Decision.ofEdit_eq_save.mp hsave).1]
    have hij : ∀ b k, j.cidOf b k = w.cidOf b k := by
      intro b k
      rw [← hj, Index.cidOf_makeBucket, World.cidOf_of_decode hi]
    refine ⟨fun b k => ?_, .inr fun b k => hs ▸ hij b k⟩
    rcases hend with ⟨-, -, hf⟩ | ⟨-, -, hf, -⟩
    · exact World.cidOf_congr hf
    · rw [World.cidOf_saved hi (hj ▸ Index.schema_apply (.makeBucket bucket env.now)) hf, hij]

/-- What a put leaves: it comes to no save, or the key is bound in the handle's copy of the
index, and on file unless the save failed. -/
theorem putObject_cidOf (ce : CeRs) (env : Env) (s : Store) (bucket key : String) (bytes : Bytes)
    (contentType : String) (w : World) :
    let r := (s.putObject bucket key bytes contentType).exec ce env s w
    ((∃ e, r.1.1 = .error e) ∧ (∀ b k, r.2.cidOf b k = w.cidOf b k) ∧
        (r.1.2 = s ∨ ∀ b k, r.1.2.index.cidOf b k = w.cidOf b k)) ∨
      ∃ m, (∀ b k, r.1.2.index.cidOf b k
          = if bucket = b ∧ key = k then some m.cid else w.cidOf b k) ∧
        (((∃ e, r.1.1 = .error e) ∧ (∀ b k, r.2.cidOf b k = w.cidOf b k) ∧
            s.PutBreaks ce env bucket key bytes contentType w m) ∨
          (r.1.1 = .ok m ∧ ∀ b k, r.2.cidOf b k
            = if bucket = b ∧ key = k then some m.cid else w.cidOf b k)) := by
  dsimp only
  unfold Store.putObject
  rw [putObjectOpts_exec]
  cases hcheck : putCheck s.maxObjectSize key bytes { contentType } with
  | error e => exact .inl ⟨⟨e, rfl⟩, fun _ _ => rfl, .inl rfl⟩
  | ok u =>
  cases hlock : env.lock with
  | error e => exact .inl ⟨⟨_, rfl⟩, fun _ _ => rfl, .inl rfl⟩
  | ok u =>
  dsimp only
  rcases transact_cases env StorageError.backend
      (putDecision ce env bucket key bytes { contentType }) s w with
    ⟨e, -, he⟩ | ⟨i, hl, hrest⟩
  · rw [he]
    exact .inl ⟨⟨_, rfl⟩, fun _ _ => rfl, .inl rfl⟩
  have hi := Env.decode_of_loadIndex hl
  rcases putDecision_cases ce env bucket key bytes { contentType } i with
    ⟨e, hdec⟩ | ⟨cid, hput, hbucket, hcond, hdec⟩
  · -- refused on the index that was loaded
    rw [hdec] at hrest
    rcases hrest with ⟨hs, hf, ⟨e', -, hr⟩ | ⟨_, hkeep, -⟩⟩ | ⟨_, _, hsave, -⟩
    · refine .inl ⟨⟨e', hr⟩, fun b k => World.cidOf_congr hf, .inr fun b k => ?_⟩
      rw [hs, World.cidOf_of_decode hi]
    · exact nomatch hkeep
    · exact nomatch hsave
  · obtain ⟨hk, hm⟩ := putCheck_ok hcheck
    have hbound := Index.put_ok (m := putMeta cid bytes { contentType } env.now) hbucket hk hm
    have hbinds : ∀ b k, (i.put bucket key (putMeta cid bytes { contentType } env.now)).2.cidOf b k
        = if bucket = b ∧ key = k then some cid else w.cidOf b k := by
      intro b k
      rw [Index.cidOf_put (Prod.ext hbound rfl), World.cidOf_of_decode hi]
      rfl
    rw [hdec] at hrest
    rcases hrest with ⟨-, -, ⟨_, hrefuse, -⟩ | ⟨_, hkeep, -⟩⟩ | ⟨j, m, hsave, hs, hend⟩
    · exact nomatch hrefuse
    · exact nomatch hkeep
    · cases hsave
      refine .inr ⟨putMeta cid bytes { contentType } env.now, hs ▸ hbinds, ?_⟩
      rcases hend with ⟨hfails, ⟨e, hr⟩, hf⟩ | ⟨-, hr, hf, -⟩
      · exact .inl ⟨⟨_, hr⟩, fun b k => World.cidOf_congr hf, hcheck, hlock,
          ⟨i, _, hl, by rw [hdec]⟩, hfails⟩
      · refine .inr ⟨hr, fun b k => ?_⟩
        rw [World.cidOf_saved hi Index.put_schema hf]
        exact hbinds b k

/-- A handle after an operation that binds no key, with what it had or what is on file. -/
theorem Agrees.reloaded {self' : ReplicatedStore} (hA : Agrees g x.world (self, .idle))
    (hi : ∀ b k, self'.index.getRecord b k = self.index.getRecord b k)
    (hw : ∀ b k, w'.cidOf b k = x.world.cidOf b k)
    (hs : self'.store = self.store ∨
      ∀ b k, self'.store.index.cidOf b k = x.world.cidOf b k) :
    Agrees (g.Now x.world) w' (self', .idle) := by
  refine hA.next fun b k cid hknows _ => ?_
  rcases knows_idle hi hknows with hc | hold
  · rcases hs with hs | hs
    · exact .inr ⟨.cached (hs ▸ hc), hw b k⟩
    · exact .inl ((hw b k).trans ((hs b k).symm.trans hc))
  · exact .inr ⟨hold, hw b k⟩

/-- The handle that puts a key. -/
theorem Agrees.put {bucket key : String} {bytes : Bytes} {contentType : String} {task : Task}
    {r : (Except StorageError ObjectMeta × Store) × World}
    (hA : Agrees g x.world (self, .idle))
    (hr : r = (self.store.putObject bucket key bytes contentType).exec ce env self.store x.world)
    (ht : (∃ e, r.1.1 = .error e ∧ task = .idle) ∨
      ∃ m a, r.1.1 = .ok m ∧ task = .putTip a ∧ a.bucket = bucket ∧ a.key = key ∧ a.cid = m.cid)
    (hbreaks : ∀ m, self.store.PutBreaks ce env bucket key bytes contentType x.world m →
      g.Now x.world bucket key → x.world.cidOf bucket key = some m.cid) :
    Agrees (g.Now x.world) r.2
      ({ self with store := r.1.2 }, task) := by
  have hcases := putObject_cidOf ce env self.store bucket key bytes contentType x.world
  rw [← hr] at hcases
  have hidle : (∃ e, r.1.1 = .error e) → task = .idle := by
    rintro ⟨e, he⟩
    rcases ht with ⟨_, _, hidle⟩ | ⟨_, _, hok, _⟩
    · exact hidle
    · exact nomatch he.symm.trans hok
  rcases hcases with ⟨he, hw, hs⟩ | ⟨m, hs, ⟨he, hw, hb⟩ | ⟨hm, hw⟩⟩
  · obtain rfl := hidle he
    exact hA.reloaded (fun _ _ => rfl) hw hs
  · -- the handle's copy has the key bound to `m`, the file has not
    obtain rfl := hidle he
    refine hA.next fun b k cid hknows hnow => ?_
    have hrecords : ∀ b k, ({ self with store := r.1.2 } : ReplicatedStore).index.getRecord b k
        = self.index.getRecord b k := fun _ _ => rfl
    rcases knows_idle hrecords hknows with hc | hold
    · rw [hs] at hc
      split at hc
      next hbk =>
        obtain ⟨rfl, rfl⟩ := hbk
        cases hc
        have hbefore : g.Now x.world bucket key :=
          hnow.elim id fun hbound => .inr (hw bucket key ▸ hbound)
        exact .inl ((hw bucket key).trans (hbreaks m hb hbefore))
      next => exact .inl ((hw b k).trans hc)
    · exact .inr ⟨hold, hw b k⟩
  · obtain ⟨a, rfl, rfl, rfl, hcid⟩ : ∃ a, task = .putTip a ∧ a.bucket = bucket ∧ a.key = key ∧
        a.cid = m.cid := by
      rcases ht with ⟨_, he, _⟩ | ⟨m', a, hok, ha⟩
      · exact nomatch he.symm.trans hm
      · cases hm.symm.trans hok
        exact ⟨a, ha⟩
    refine hA.next fun b k cid hknows _ => ?_
    cases hknows with
    | cached hc => exact .inl ((hw b k).trans ((hs b k).symm.trans hc))
    | recorded hrec hc hother =>
      exact .inr ⟨.recorded hrec hc nofun, (hw b k).trans (if_neg (hother a rfl))⟩
    | putting ha hb hk hc =>
      cases ha
      rw [hw, if_pos ⟨hb, hk⟩, ← hcid, hc]
      exact .inl rfl

variable [DecidableEq P]

/-- One event keeps every handle in agreement. -/
theorem fire_agrees (hA : ∀ p h, x.handles p = some h → Agrees g x.world h)
    (hok : Node.KeepsCurrent ce (x, g) e) (hf : Node.fire ce repairPlan e x = some x') :
    ∀ p h, x'.handles p = some h → Agrees (g.Now x.world) x'.world h := by
  have still : ∀ (p q : P) h, q ≠ p → x.handles q = some h → Agrees (g.Now x.world) x.world h :=
    fun _ q h _ hq => (hA q h hq).still fun _ _ _ => id
  cases Node.fire_step hf with
  | core s c env =>
    intro q h hq
    have hresp : x.Respects (c.exec ce env s x.world).2 none := hok
    exact hresp.next nofun hq (hA q h hq)
  | @«open» p options env readable self hp hs =>
    refine Node.forall_goto.mpr ⟨?_, still p⟩
    intro b k cid hknows hnow
    have hbefore : g.Now x.world b k := hnow.elim id .inr
    cases hknows with
    | cached hc => exact (World.cidOf_of_decode (Node.decode_openAt hs)).trans hc
    | recorded hr hc _ =>
      rw [Node.index_openAt hs] at hr
      rw [← hc]
      exact hok b k _ hr hbefore
    | putting ha _ _ _ => exact nomatch ha
  | close p =>
    intro q h hq
    rcases update_eq_some.mp hq with ⟨_, hh⟩ | ⟨hqp, hh⟩
    · exact nomatch hh
    · exact still p q h hqp hh
  | @makeBucket p bucket factor env saved self r hp hr hno =>
    subst hr
    obtain ⟨hw, hs⟩ := makeBucket_cidOf ce env bucket self.store x.world
    refine Node.forall_goto.mpr ⟨(hA p _ hp).reloaded (fun _ _ => rfl) hw hs, ?_⟩
    exact fun q h _ hq => (hA q h hq).next fun b k cid hknows _ => .inr ⟨hknows, hw b k⟩
  | @makeBucketPolicy p bucket factor env saved self r hp hr hmade =>
    subst hr
    obtain ⟨hw, hs⟩ := makeBucket_cidOf ce env bucket self.store x.world
    rw [Node.handles_write, Node.world_write]
    refine Node.forall_goto.mpr ⟨(hA p _ hp).reloaded (fun _ _ => rfl) hw hs, ?_⟩
    exact fun q h _ hq => (hA q h hq).next fun b k cid hknows _ => .inr ⟨hknows, hw b k⟩
  | @setPolicy p bucket factor saved self hp =>
    rw [Node.handles_write, Node.world_write]
    refine Node.forall_goto.mpr ⟨?_, still p⟩
    exact (hA p _ hp).reloaded (fun _ _ => rfl) (fun _ _ => rfl) (.inl rfl)
  | @put p bucket key bytes contentType f env self task r hp hr ht =>
    obtain ⟨hresp, hbreaks⟩ := hok self hp
    refine Node.forall_goto.mpr ⟨(hA p _ hp).put hr ht hbreaks, fun q h hqp hq => ?_⟩
    subst hr
    exact hresp.next (fun hsome => hqp (Option.some.inj hsome)) hq (hA q h hq)
  | @maintain p self hp =>
    exact Node.forall_goto.mpr ⟨(hA p _ hp).still fun _ _ _ => Knows.of_putting rfl, still p⟩
  | @resume p w self task h hp hr =>
    exact Node.forall_goto.mpr ⟨(hA p _ hp).still fun _ _ _ => resumed_knows hr, still p⟩
  | @savePut p saved self a hosts hp =>
    rw [Node.handles_write, Node.world_write]
    exact Node.forall_goto.mpr ⟨(hA p _ hp).still fun _ _ _ => Knows.of_putting rfl, still p⟩
  | @saveMaintain p saved self pass hp =>
    rw [Node.handles_write, Node.world_write]
    exact Node.forall_goto.mpr ⟨(hA p _ hp).still fun _ _ _ => Knows.of_putting rfl, still p⟩

/-- **No get of what is no longer bound.** However the operations of replicated handles and
of core stores interleave, and wherever they fail: while every event keeps what the handles
know current, no get through a handle serves, of a key that was ever bound, anything but the
bytes of its current binding, and `object_cid` answers no other CID. -/
theorem serves_current (ce : CeRs) (repairPlan : RepairPlanner) (content : String → Bytes)
    (w : World) (g : EverBound) (x : Node P × EverBound)
    (hx : Reach (withGhost (Node.fire ce repairPlan) EverBound.note) (Node.KeepsCurrent ce)
      (Node.start w, g) x) : Node.Serves ce content x := by
  have hA : ∀ p h, x.1.handles p = some h → Agrees x.2 x.1.world h := by
    have hclosed : ∀ p h, (Node.start w : Node P).handles p ≠ some h := fun _ _ h => nomatch h
    refine hx.inv (I := fun x => ∀ p h, x.1.handles p = some h → Agrees x.2 x.1.world h)
      (fun p h hp => absurd hp (hclosed p h)) ?_
    intro x e x' _ hA hok hf
    obtain ⟨hfire, hnote⟩ := withGhost_eq_some.mp hf
    rw [← hnote]
    exact fire_agrees hA hok hfire
  exact fun p self hp b k hg => serves_of_agrees (hA p _ hp) hg

end

/-- A key that was bound once was ever bound. -/
theorem now_of_reach {P : Type} [DecidableEq P] {ce : CeRs} {repairPlan : RepairPlanner}
    {ok : Node P × EverBound → NodeEvent P → Prop} {x y : Node P × EverBound} {b k : String}
    (h : Reach (withGhost (Node.fire ce repairPlan) EverBound.note) ok x y)
    (hx : x.2.Now x.1.world b k) : y.2.Now y.1.world b k := by
  refine h.inv (I := fun z => z.2.Now z.1.world b k) hx ?_
  intro z e z' _ hz _ hf
  rw [← (withGhost_eq_some.mp hf).2]
  exact .inl hz

/-! A handle puts a key, and a store deletes it; a handle that is opened then serves it. -/

private def neverRepair : RepairPlanner := fun _ _ _ => { toPlace := 0, exclude := [] }

private def unopened : Node Unit × EverBound := (Node.start World.blank, fun _ _ => False)

private def opening : NodeEvent Unit :=
  .open () ⟨"caps", 1, "0", 10, 100, 7⟩ (Env.calm CeRs.plain 1 "u") true

private def catPut : List (NodeEvent Unit) :=
  let env := Env.calm CeRs.plain 1 "u"
  [.makeBucket () "photos" none env true, .put () "photos" "cat" [1] "" none env,
    .resume () (.tip none), .resume () (.candidates (.error "timeout")), .save () true]

private def catBound : Node Unit × EverBound :=
  (play (withGhost (Node.fire CeRs.plain neverRepair) EverBound.note) (opening :: catPut)
    unopened).getD unopened

private def catDeleted : Node Unit × EverBound :=
  (play (withGhost (Node.fire CeRs.plain neverRepair) EverBound.note)
    [.close (), .core ⟨Index.empty, 100, 8⟩ (.deleteObject "photos" "cat")
      (Env.calm CeRs.plain 2 "u"), opening] catBound).getD catBound

private theorem catPut_keeps : ∀ e ∈ catPut, ∀ x : Node Unit × EverBound,
    Node.KeepsCurrent CeRs.plain x e := by
  intro e he x
  simp only [catPut, List.mem_cons, List.not_mem_nil, or_false] at he
  rcases he with rfl | rfl | rfl | rfl | rfl
  · trivial
  · exact fun self _ => ⟨fun q h hq => absurd rfl hq, fun m hb => absurd rfl hb.2.2.2⟩
  · trivial
  · trivial
  · trivial

private theorem catBound_keeps : Along (withGhost (Node.fire CeRs.plain neverRepair) EverBound.note)
    (Node.KeepsCurrent CeRs.plain) (opening :: catPut) unopened := by
  refine ⟨fun b k r hr => ?_, fun x _ => along_of_forall _ _ catPut_keeps⟩
  exact nomatch ReplicaIndex.getRecord_empty.symm.trans hr

private theorem catBound_current : (catBound.1.world.cidOf "photos" "cat").isSome = true ∧
    (catBound.1.handles ()).any (fun h => (h.1.objectCid "photos" "cat").toOption
      == catBound.1.world.cidOf "photos" "cat") = true := by
  decide +kernel

theorem serves_current_cat : Node.Serves CeRs.plain (fun _ => [1]) catBound ∧
    (catBound.1.world.cidOf "photos" "cat").isSome = true ∧
    (catBound.1.handles ()).any (fun h => (h.1.objectCid "photos" "cat").toOption
      == catBound.1.world.cidOf "photos" "cat") = true := by
  have hplay : (play (withGhost (Node.fire CeRs.plain neverRepair) EverBound.note)
      (opening :: catPut) unopened).isSome = true := by decide +kernel
  obtain ⟨x, hx⟩ := Option.isSome_iff_exists.mp hplay
  have hreach := reach_of_play _ catBound_keeps hx
  have hbound : catBound = x := by
    unfold catBound
    rw [hx, Option.getD_some]
  refine ⟨?_, catBound_current⟩
  rw [hbound]
  exact serves_current CeRs.plain neverRepair _ World.blank _ x hreach

private theorem catDeleted_served : (catDeleted.1.handles ()).any (fun h => h.2.isIdle &&
      (h.1.getObject CeRs.plain (Env.calm CeRs.plain 3 "u") (fun _ => .ok [1]) "photos" "cat"
        catDeleted.1.world).isOk) = true ∧
    catDeleted.1.world.head "photos" "cat" = none := by
  decide +kernel

theorem deleted_object_served : ¬∀ x : Node Unit × EverBound,
    Reach (withGhost (Node.fire CeRs.plain neverRepair) EverBound.note) (fun _ _ => True)
      unopened x → Node.Serves CeRs.plain (fun _ => [1]) x := by
  intro h
  have hbound : Reach (withGhost (Node.fire CeRs.plain neverRepair) EverBound.note)
      (fun _ _ => True) unopened catBound :=
    reach_play_getD (fun _ _ => trivial) (by decide +kernel)
  have hdeleted : Reach (withGhost (Node.fire CeRs.plain neverRepair) EverBound.note)
      (fun _ _ => True) catBound catDeleted :=
    reach_play_getD (fun _ _ => trivial) (by decide +kernel)
  have hever : catDeleted.2.Now catDeleted.1.world "photos" "cat" :=
    now_of_reach hdeleted (.inr catBound_current.1)
  obtain ⟨hserved, hnone⟩ := catDeleted_served
  obtain ⟨⟨self, task⟩, hp, hget⟩ := (Option.any_eq_true _ _).mp hserved
  obtain ⟨hidle, hok⟩ := Bool.and_eq_true_iff.mp hget
  obtain rfl := Task.eq_idle hidle
  have hnames : (Env.calm CeRs.plain 3 "u").Names (fun _ => .ok [1]) fun _ => [1] := by
    refine ⟨fun _ _ h => (nomatch h), fun _ _ h => ?_⟩
    cases h
    rfl
  cases hr : self.getObject CeRs.plain (Env.calm CeRs.plain 3 "u") (fun _ => .ok [1]) "photos" "cat"
      catDeleted.1.world with
  | error e =>
    rw [hr] at hok
    exact nomatch hok
  | ok bytes =>
    obtain ⟨m, hm, -⟩ := (h catDeleted (hbound.trans hdeleted) () self hp "photos" "cat" hever).1
      _ _ bytes hnames hr
    exact nomatch hnone.symm.trans hm

end CeStorage
