import CeStorage.Shelved

/-!
# The store is its shelves

A call that succeeds does to the shelves what its client was told (`Does`), and
one that fails does nothing to them, but that a completion may have put its
object before it failed. So the shelves that an honest run leaves are known from
the calls and their results alone (`Shelved`), and they are what the index file
shows: the store refines its shelves (`refines_shelves`).
-/

namespace CeStorage

open Lib
open Std (ExtTreeMap)

variable {ce : CeRs} {env : Env} {s : Store} {w w' : World} {i j : Index} {b k : String}
  {S S' : Shelving}

/-! ## What a client is told -/

/-- The acts of a call on the shelves `S` that returned a value at `now`, with what
the value says of `S`; `log` is what went before. -/
inductive StoreCall.Does (ce : CeRs) (log : List (StoreCall × Except Failure Value)) (now : Nat)
    (S : Shelving) : StoreCall → Value → List ShelvingAct → Prop
  | makeBucket (b : String) : Does ce log now S (.makeBucket b) .unit [.openShelf b]
  | removeBucket (b : String) (force : Bool)
    (h : force = false → ∀ k, S.slotsOf b k = []) :
    Does ce log now S (.removeBucket b force) .unit [.closeShelf b]
  | setVersioning (b : String) (on : Bool) :
    Does ce log now S (.setVersioning b on) .unit [.setVersioned b on]
  | setLifecycle (b : String) (rules : List LifecycleRule) :
    Does ce log now S (.setLifecycle b rules) .unit []
  | sweepExpired (b : String) (keys : List String)
    (h : ∀ k ∈ keys, (Slot.current (S.slotsOf b k)).isSome = true) :
    Does ce log now S (.sweepExpired b) (.keys keys) (keys.map fun k => .delete b k now)
  | sweepAll (report : ExtTreeMap String (List String)) (order : List (String × String))
    (horder : ∀ b k : String, (b, k) ∈ order ↔ k ∈ (report[b]?).getD [])
    (h : ∀ p ∈ order, (Slot.current (S.slotsOf p.1 p.2)).isSome = true) :
    Does ce log now S .sweepAll (.report report) (order.map fun p => .delete p.1 p.2 now)
  | putObjectOpts (b k : String) (bytes : Bytes) (opts : PutOptions) (m : ObjectMeta)
    (hm : m.cid = ce.objectCid bytes)
    (h : opts.preconditions.any = true → opts.preconditions.checkWrite
      ((Slot.current (S.slotsOf b k)).map ce.objectCid) = .ok ()) :
    Does ce log now S (.putObjectOpts b k bytes opts) (.object m) [.put b k bytes]
  | deleteObject (b k : String) : Does ce log now S (.deleteObject b k) .unit [.delete b k now]
  | deleteObjectVersion (b k id : String) :
    Does ce log now S (.deleteObjectVersion b k id) .unit [.purge b k id]
  | deleteObjects (b : String) (keys : List String) (h : (S b).isSome = true) :
    Does ce log now S (.deleteObjects b keys) (.results (keys.map fun k => (k, .ok ())))
      (keys.map fun k => .delete b k now)
  /-- There is no such bucket. -/
  | deleteNone (b : String) (keys : List String) (e : String) (h : S b = none) :
    Does ce log now S (.deleteObjects b keys) (.results (keys.map fun k => (k, .error e))) []
  | copyObject (sb sk b k : String) :
    Does ce log now S (.copyObject sb sk b k) .unit [.copy sb sk b k]
  | createMultipartUpload (b k : String) (opts : PutOptions) (id : String) :
    Does ce log now S (.createMultipartUpload b k opts) (.text id) []
  | uploadPart (id : String) (n : Nat) (bytes : Bytes) :
    Does ce log now S (.uploadPart id n bytes) (.text (ce.objectCid bytes)) []
  /-- What was last sent for the listed parts, under the target of the upload. -/
  | completeMultipartUpload (id : String) (parts : List (Nat × String)) (b k : String)
    (bss : List Bytes) (m : ObjectMeta) (htarget : targetOf log id = some (b, k))
    (hsent : parts.map (fun p => lastSent log id p.1) = bss.map some)
    (hm : m.cid = ce.objectCid bss.flatten) :
    Does ce log now S (.completeMultipartUpload id parts) (.object m) [.put b k bss.flatten]
  | abortMultipartUpload (id : String) : Does ce log now S (.abortMultipartUpload id) .unit []

/-- The shelves that a run from `x₀` leaves, where they were `S₀`: what the calls
that succeeded did. -/
inductive Shelved (ce : CeRs) (x₀ : Ledger) (S₀ : Shelving) : Ledger → Shelving → Prop
  | start : Shelved ce x₀ S₀ x₀ S₀
  | done {x : Ledger} {S S' : Shelving} {e : Invocation} {v : Value} {as : List ShelvingAct}
    (h : Shelved ce x₀ S₀ x S) (hok : e.result ce x = .ok v)
    (hdoes : e.call.Does ce x.log e.env.now S v as)
    (hacts : S.acts (versionName ce) as = some S') : Shelved ce x₀ S₀ (x.after ce e) S'
  | failed {x : Ledger} {S : Shelving} {e : Invocation} {f : Failure}
    (h : Shelved ce x₀ S₀ x S) (herr : e.result ce x = .error f) :
    Shelved ce x₀ S₀ (x.after ce e) S
  /-- A completion that failed after its object was put. -/
  | half {x : Ledger} {S S' : Shelving} {e : Invocation} {f : Failure} {v : Value}
    {as : List ShelvingAct} {id : String} {parts : List (Nat × String)}
    (h : Shelved ce x₀ S₀ x S) (hcall : e.call = .completeMultipartUpload id parts)
    (herr : e.result ce x = .error f) (hdoes : e.call.Does ce x.log e.env.now S v as)
    (hacts : S.acts (versionName ce) as = some S') : Shelved ce x₀ S₀ (x.after ce e) S'

/-! ## One call -/

/-- A call on the index did `as`, and left the index `j`. -/
def Did (ce : CeRs) (log : List (StoreCall × Except Failure Value)) (now : Nat) (w : World)
    (S : Shelving) (c : StoreCall) (v : Value) (j : Index) : Prop :=
  ∃ as S', c.Does ce log now S v as ∧ S.acts (versionName ce) as = some S' ∧ Reflects ce w j S'

variable {log : List (StoreCall × Except Failure Value)} {now : Nat} {c : StoreCall} {v : Value}

/-- A call that is one act. -/
theorem did_one {a : ShelvingAct} (hdoes : c.Does ce log now S v [a])
    (h : ∃ S', S.act (versionName ce) a = some S' ∧ Reflects ce w j S') :
    Did ce log now w S c v j := by
  obtain ⟨S', hS', hR⟩ := h
  refine ⟨[a], S', hdoes, ?_, hR⟩
  show (S.act (versionName ce) a).bind _ = _
  rw [hS']
  rfl

/-- What a decision leaves behind when it does not refuse. -/
def Comes (i : Index) (d : Decision Failure Value) (v : Value) (j : Index) : Prop :=
  d = .save j v ∨ j = i ∧ d = .keep v

theorem comes_eq {ε α : Type} {f : ε → Failure} {g : α → Value} {d : Decision ε α} {a : α}
    {j' : Index} (hd : d = .save j' a ∨ j' = i ∧ d = .keep a) (h : Comes i (d.into f g) v j) :
    j' = j ∧ g a = v := by
  unfold Comes at h
  rcases hd with rfl | ⟨hi, rfl⟩
  · rcases h with h | ⟨-, h⟩
    · cases h
      exact ⟨rfl, rfl⟩
    · exact nomatch h
  · rcases h with h | ⟨hj, h⟩
    · exact nomatch h
    · cases h
      exact ⟨hi.trans hj.symm, rfl⟩

theorem comes_edit {r : Except String Unit × Index} (h : Comes i (StoreCall.plan.edit r) v j) :
    r = (.ok (), j) ∧ v = .unit := by
  unfold Comes StoreCall.plan.edit Decision.ofEdit at h
  rcases r with ⟨_ | _, j'⟩
  · exact h.elim nofun fun hkeep => nomatch hkeep.2
  · rcases h with h | ⟨-, h⟩
    · cases h
      exact ⟨rfl, rfl⟩
    · exact nomatch h

namespace Reflects

/-- A key that has expired has a current content. -/
theorem expired_current (h : Reflects ce w i S) {t : Nat} (hk : k ∈ i.expiredIn t b) :
    (Slot.current (S.slotsOf b k)).isSome = true := by
  obtain ⟨v, rule, hgov, -⟩ := Index.governs_of_expired hk
  obtain ⟨entry, hentry, hcur⟩ := hgov.current
  obtain ⟨bytes, -, hbytes⟩ := h.head_content
    (Index.head_eq_ok.mpr ⟨entry, v, hentry, hcur, hgov.live, rfl⟩)
  rw [hbytes]
  rfl

/-- The acts of a sweep of some buckets, one after the other. -/
theorem sweepEach {t : Nat} (h : Reflects ce w i S) {bs : List String} (hnodup : bs.Nodup)
    (hbs : ∀ c ∈ bs, c ∈ i.listBuckets) :
    ∃ S', S.acts (versionName ce)
        (bs.flatMap fun c => (i.expiredIn t c).map fun k => .delete c k t) = some S' ∧
      Reflects ce w (i.sweepEach t bs) S' := by
  induction bs generalizing i S with
  | nil => exact ⟨S, rfl, h⟩
  | cons c bs ih =>
    obtain ⟨hfresh, hnodup⟩ := List.nodup_cons.mp hnodup
    obtain ⟨bk, hb⟩ := Option.isSome_iff_exists.mp
      (Index.mem_listBuckets.mp (hbs c List.mem_cons_self))
    have hon : i.isVersioned c = .ok bk.versioning := Index.isVersioned_eq_ok.mpr ⟨bk, hb, rfl⟩
    obtain ⟨S₁, hS₁, hR₁⟩ := h.deleteAll (t := t) hon (i.expiredIn t c)
    have hother : ∀ d ∈ bs, c ≠ d := fun d hd => (ne_of_mem_of_not_mem hd hfresh).symm
    have hstill : ∀ d ∈ bs, d ∈ (i.sweep c t).listBuckets := by
      intro d hd
      rw [Index.mem_listBuckets, Index.buckets_sweep, if_neg (hother d hd)]
      exact Index.mem_listBuckets.mp (hbs d (List.mem_cons_of_mem c hd))
    obtain ⟨S₂, hS₂, hR₂⟩ := ih hR₁ hnodup hstill
    refine ⟨S₂, ?_, hR₂⟩
    -- the sweep of `c` expires nothing in the others
    have hrest : (bs.flatMap fun d => ((i.sweep c t).expiredIn t d).map fun k =>
          ShelfAct.delete (α := Bytes) (ι := String) d k t)
        = bs.flatMap fun d => (i.expiredIn t d).map fun k => .delete d k t := by
      refine List.flatMap_congr fun d hd => ?_
      rw [Index.expiredIn_sweep, if_neg (hother d hd)]
    rw [List.flatMap_cons, ← hrest]
    exact Shelves.acts_append hS₁ hS₂

theorem did_sweepExpired (h : Reflects ce w i S)
    (hout : Comes i ((sweepDecision b now i).into .message .keys) v j) :
    Did ce log now w S (.sweepExpired b) v j := by
  by_cases hb : b ∈ i.listBuckets
  · obtain ⟨rfl, rfl⟩ := comes_eq (sweepDecision_eq hb) hout
    obtain ⟨bk, hbk⟩ := Option.isSome_iff_exists.mp (Index.mem_listBuckets.mp hb)
    have hon : i.isVersioned b = .ok bk.versioning :=
      Index.isVersioned_eq_ok.mpr ⟨bk, hbk, rfl⟩
    obtain ⟨S', hS', hR⟩ := h.deleteAll (t := now) hon (i.expiredIn now b)
    exact ⟨_, S', .sweepExpired b _ fun k hk => h.expired_current hk, hS', hR⟩
  · -- there is no such bucket to sweep
    have hnone : i.bucket b = .error s!"no such bucket: {b}" := by
      rw [Index.mem_listBuckets] at hb
      unfold Index.bucket
      rw [Option.not_isSome_iff_eq_none.mp hb]
    unfold Comes sweepDecision Index.expiredKeys at hout
    rw [hnone] at hout
    exact hout.elim nofun fun hkeep => nomatch hkeep.2

theorem did_sweepAll (h : Reflects ce w i S)
    (hout : Comes i ((sweepAllDecision now i).into .message .report) v j) :
    Did ce log now w S .sweepAll v j := by
  obtain ⟨rfl, rfl⟩ := comes_eq sweepAllDecision_eq hout
  have hnodup : i.listBuckets.Nodup := ExtTreeMap.nodup_keys
  obtain ⟨S', hS', hR⟩ := h.sweepEach (t := now) hnodup fun _ hc => hc
  rw [Index.sweepEach_eq fun _ hc => hc] at hR
  have hmem : ∀ p : String × String,
      p ∈ (i.listBuckets.flatMap fun c => (i.expiredIn now c).map (Prod.mk c)) ↔
        p.2 ∈ i.expiredIn now p.1 := by
    rintro ⟨b, k⟩
    simp only [List.mem_flatMap, List.mem_map, Prod.mk.injEq]
    constructor
    · rintro ⟨c, -, k', hk', rfl, rfl⟩
      exact hk'
    · intro hk
      obtain ⟨bk, hb, -⟩ := Index.mem_expiredIn.mp hk
      refine ⟨b, Index.mem_listBuckets.mpr ?_, k, hk, rfl, rfl⟩
      rw [hb]
      rfl
  refine ⟨_, S', .sweepAll _ (i.listBuckets.flatMap fun c => (i.expiredIn now c).map (Prod.mk c))
    ?_ ?_, ?_, hR⟩
  · intro b k
    rw [hmem, Index.sweepReport_getD]
  · intro p hp
    exact h.expired_current ((hmem p).mp hp)
  · rw [List.map_flatMap]
    simpa only [List.map_map, Function.comp_def] using hS'

theorem did_deleteObjects (h : Reflects ce w i S) (keys : List String)
    (hout : Comes i (.save (i.deleteAll b now keys)
      (.results (keys.map fun k => (k, (i.bucket b).map fun _ => ())))) v j) :
    Did ce log now w S (.deleteObjects b keys) v j := by
  obtain ⟨rfl, rfl⟩ : i.deleteAll b now keys = j ∧
      Value.results (keys.map fun k => (k, (i.bucket b).map fun _ => ())) = v := by
    rcases hout with hout | ⟨-, hout⟩
    · cases hout
      exact ⟨rfl, rfl⟩
    · exact nomatch hout
  cases hb : i.bucket b with
  | ok bk =>
    have hon : i.isVersioned b = .ok bk.versioning :=
      Index.isVersioned_eq_ok.mpr ⟨bk, Index.bucket_eq_ok.mp hb, rfl⟩
    obtain ⟨shelf, hs, -⟩ := h.shelf_of (Index.bucket_eq_ok.mp hb)
    obtain ⟨S', hS', hR⟩ := h.deleteAll (t := now) hon keys
    exact ⟨_, S', .deleteObjects b keys (by rw [hs]; rfl), hS', hR⟩
  | error e =>
    have hsame : i.deleteAll b now keys = i := Index.deleteAll_missing (Index.bucket_eq_error hb)
    rw [hsame]
    exact ⟨[], S, .deleteNone b keys e (h.no_shelf (Index.bucket_eq_error hb)), rfl, h⟩

theorem did_removeBucket (h : Reflects ce w i S) {force : Bool}
    (hrm : i.removeBucket b force = (.ok (), j)) :
    Did ce log now w S (.removeBucket b force) .unit j := by
  refine did_one (.removeBucket b force ?_) (h.closeShelf hrm)
  intro hf k
  obtain ⟨bk, hb, hempty, -⟩ := Index.removeBucket_ok hrm
  have hnone : i.history b k = none := by
    rw [Index.history_of_bucket hb, ExtTreeMap.isEmpty_iff.mp (hempty hf)]
    rfl
  have hslots := h.slots b k
  rw [Index.versionsOf_none hnone] at hslots
  exact List.forall₂_nil_left_iff.mp hslots

theorem did_put (hce : ce.Lawful) (h : Reflects ce w i S) {bytes : Bytes} {opts : PutOptions}
    {cid : String} (hc : ContentOf ce w (putMeta cid bytes opts now) bytes)
    (hcond : putCondition i b k opts = .ok ())
    (hput : i.put b k (putMeta cid bytes opts now) = (.ok (), j)) :
    Did ce log now w S (.putObjectOpts b k bytes opts) (.object (putMeta cid bytes opts now))
      j := by
  refine did_one (.putObjectOpts b k bytes opts _ hc.cid ?_) (h.put hc hput)
  intro hany
  unfold putCondition at hcond
  rw [if_pos hany] at hcond
  rw [← h.etag_current hce]
  exact hcond

end Reflects

/-- A call on the index that comes to `v` did what its client is told. -/
theorem plan_did {d : Index → Decision Failure Value × List (String × Bytes)}
    (hd : c.plan ce env = some d) (hput : ∀ b k bytes opts, c ≠ .putObjectOpts b k bytes opts)
    (h : Reflects ce w i S) (hout : Comes i (d i).1 v j) : Did ce log env.now w S c v j := by
  cases c with
  | makeBucket b =>
    cases hd
    obtain ⟨hr, rfl⟩ := comes_edit hout
    exact did_one (.makeBucket b) (h.openShelf hr)
  | removeBucket b force =>
    cases hd
    obtain ⟨hr, rfl⟩ := comes_edit hout
    exact h.did_removeBucket hr
  | setVersioning b on =>
    cases hd
    obtain ⟨hr, rfl⟩ := comes_edit hout
    exact did_one (.setVersioning b on) (h.setVersioned hr)
  | setLifecycle b rules =>
    cases hd
    obtain ⟨hr, rfl⟩ := comes_edit hout
    exact ⟨[], S, .setLifecycle b rules, rfl, h.setLifecycle hr⟩
  | sweepExpired b =>
    cases hd
    exact h.did_sweepExpired hout
  | sweepAll =>
    cases hd
    exact h.did_sweepAll hout
  | putObjectOpts b k bytes opts => exact absurd rfl (hput b k bytes opts)
  | deleteObject b k =>
    cases hd
    obtain ⟨hr, rfl⟩ := comes_edit hout
    obtain ⟨bk, hb, hj⟩ := Index.delete_ok hr
    exact did_one (.deleteObject b k) (hj ▸ h.delete hb env.now)
  | deleteObjectVersion b k id =>
    cases hd
    obtain ⟨hr, rfl⟩ := comes_edit hout
    obtain ⟨bk, hb, hj⟩ := Index.deleteVersion_ok hr
    exact did_one (.deleteObjectVersion b k id) (hj ▸ h.purge hb)
  | deleteObjects b keys =>
    cases hd
    exact h.did_deleteObjects keys hout
  | copyObject sb sk b k =>
    cases hd
    obtain ⟨hr, rfl⟩ := comes_edit hout
    exact did_one (.copyObject sb sk b k) (h.copy hr)
  -- the upload calls have no plan
  | createMultipartUpload b k opts => exact nomatch hd
  | uploadPart id n bytes => exact nomatch hd
  | completeMultipartUpload id parts => exact nomatch hd
  | abortMultipartUpload id => exact nomatch hd

/-! ## Runs -/

/-- The index file shows the shelves, if it can be decoded. -/
def World.OnShelves (ce : CeRs) (w : World) (S : Shelving) : Prop :=
  ∀ i, Index.decode (w.files .index) = .ok i → Reflects ce w i S

theorem World.OnShelves.same (h : w.OnShelves ce S) (hg : Grows w w')
    (hf : w'.files .index = w.files .index) : w'.OnShelves ce S := by
  intro i hi
  rw [hf] at hi
  exact (h i hi).mono hg

/-- The shelves after a call that was told `v`, which the index file then shows. -/
def Told (ce : CeRs) (x : Ledger) (e : Invocation) (S : Shelving) (v : Value) : Prop :=
  ∃ as S', e.call.Does ce x.log e.env.now S v as ∧ S.acts (versionName ce) as = some S' ∧
    (x.after ce e).world.OnShelves ce S'

section
variable {x : Ledger} {e : Invocation}

theorem told_quiet (h : x.world.OnShelves ce S) (hg : Grows x.world (x.after ce e).world)
    (hf : (x.after ce e).world.files .index = x.world.files .index)
    (hdoes : e.call.Does ce x.log e.env.now S v []) : Told ce x e S v :=
  ⟨[], S, hdoes, rfl, h.same hg hf⟩

theorem told_did (hj : Index.decode ((x.after ce e).world.files .index) = .ok j)
    (h : Did ce x.log e.env.now (x.after ce e).world S e.call v j) : Told ce x e S v := by
  obtain ⟨as, S', hdoes, hacts, hR⟩ := h
  refine ⟨as, S', hdoes, hacts, ?_⟩
  intro j' hj'
  cases hj.symm.trans hj'
  exact hR

/-- A call on the index that is no put. -/
theorem told_plan {d : Index → Decision Failure Value × List (String × Bytes)}
    (hd : e.call.plan ce e.env = some d)
    (hput : ∀ b k bytes opts, e.call ≠ .putObjectOpts b k bytes opts)
    (hg : Grows x.world (x.after ce e).world) (hok : e.result ce x = .ok v)
    (h : x.world.OnShelves ce S) : Told ce x e S v := by
  have hr : (e.call.exec ce e.env e.handle x.world).1.1 = .ok v := hok
  rcases indexCall_cases hd e.handle x.world with
    ⟨hf, ⟨f, hfail⟩ | ⟨i, a, hi, hkeep, ha⟩⟩ | ⟨i, j, a, hi, hsave, ha, -, hf, -⟩
  · exact nomatch hr.symm.trans hfail
  · cases hr.symm.trans ha
    refine told_did (j := i) ?_ (plan_did hd hput ((h i hi).mono hg) (.inr ⟨rfl, hkeep⟩))
    rw [← hi]
    exact congrArg (fun files => Index.decode (files .index)) hf
  · cases hr.symm.trans ha
    have hed : Edited (e.call.MayEdit ce e.env x.world) i j := plan_edited hd hsave
    refine told_did (j := j) ?_ (plan_did hd hput ((h i hi).mono hg) (.inl hsave))
    show Index.decode ((e.call.exec ce e.env e.handle x.world).2.files .index) = .ok j
    rw [hf, Function.update_self]
    exact Index.decode_kept hi (Index.schema_edited hed)

/-- A put. -/
theorem told_put (hce : ce.Lawful) (hI : UploadInv ce x) (he : Honest ce x e) {bytes : Bytes}
    {opts : PutOptions} (hcall : e.call = .putObjectOpts b k bytes opts)
    (hg : Grows x.world (x.after ce e).world) (hok : e.result ce x = .ok v)
    (h : x.world.OnShelves ce S) : Told ce x e S v := by
  obtain ⟨handle, env, call⟩ := e
  cases hcall
  have hr : ((StoreCall.putObjectOpts b k bytes opts).exec ce env handle x.world).1.1 = .ok v :=
    hok
  rcases putObjectOpts_cases ce env b k bytes opts handle x.world with
    ⟨⟨f, hfail⟩, -⟩ | ⟨cid, i, j, hput, hi, hcond, hbind, ha, hf, hb⟩
  · exact nomatch hr.symm.trans hfail
  · cases hr.symm.trans ha
    have hc : ContentOf ce _ (putMeta cid bytes opts env.now) bytes :=
      putMeta_content hce he.truthful hI.addressed hput hb env.now
    refine told_did (j := j) ?_ (Reflects.did_put hce ((h i hi).mono hg) hc hcond hbind)
    show Index.decode
      (((StoreCall.putObjectOpts b k bytes opts).exec ce env handle x.world).2.files .index) = .ok j
    rw [hf, Function.update_self]
    exact Index.decode_put hi hbind

/-- What a completion does, whether it fails in the end or not, once the index is
saved. -/
theorem told_complete (hce : ce.Lawful) (hI : UploadInv ce x) (he : Honest ce x e) {id : String}
    {parts : List (Nat × String)} {st : MultipartState} {u : Upload} {manifest : Manifest}
    {cid : String} (hcall : e.call = .completeMultipartUpload id parts)
    (hass : Assembled ce e.env id parts x.world st u manifest cid i j)
    (hb : (x.after ce e).world.blobs = (x.world.setBlob cid (ce.manifestJson manifest)).blobs)
    (hf : (x.after ce e).world.files .index = some (.index j))
    (hg : Grows x.world (x.after ce e).world) (h : x.world.OnShelves ce S) :
    Told ce x e S (.object (completeMeta u manifest cid e.env.now)) := by
  have hrec : RecordOk ce x id u :=
    hI.record id u ((upload_of_decode hass.loaded id).trans hass.found)
  obtain ⟨bss, hbss, hc⟩ := completeMeta_content hce he.truthful hI.addressed hass hrec.parts hb
  refine told_did (j := j) ?_ (did_one ?_ (((h i hass.index).mono hg).put hc hass.bound))
  · rw [hf]
    exact Index.decode_put hass.index hass.bound
  · rw [hcall]
    exact .completeMultipartUpload id parts _ _ bss _ hrec.target hbss hc.cid

/-- A completion fails and leaves the index alone; or does what its client is told
when it succeeds, and fails or succeeds. -/
theorem complete_told (hce : ce.Lawful) (hI : UploadInv ce x) (he : Honest ce x e) {id : String}
    {parts : List (Nat × String)} (hcall : e.call = .completeMultipartUpload id parts)
    (hg : Grows x.world (x.after ce e).world) (h : x.world.OnShelves ce S) :
    (∃ f, e.result ce x = .error f) ∧
        (x.after ce e).world.files .index = x.world.files .index ∨
      ∃ v, Told ce x e S v ∧ ((∃ f, e.result ce x = .error f) ∨ e.result ce x = .ok v) := by
  have hcases := completeMultipartUpload_cases ce e.env id parts e.handle x.world
  rw [← hcall] at hcases
  rcases hcases with ⟨hfail, hf⟩ | ⟨st, u, manifest, cid, i, j, hass, hb, hend⟩
  · exact .inl ⟨hfail, congrFun hf .index⟩
  · have hf : (x.after ce e).world.files .index = some (.index j) := by
      show (e.call.exec ce e.env e.handle x.world).2.files .index = _
      rcases hend with ⟨-, hf⟩ | ⟨-, hf⟩
      · rw [hf, Function.update_self]
      · rw [hf, Function.update_of_ne (by decide), Function.update_self]
    exact .inr ⟨_, told_complete hce hI he hcall hass hb hf hg h, hend.imp And.left And.left⟩

/-- A call that succeeds did what its client is told. -/
theorem done_told (hce : ce.Lawful) (hI : UploadInv ce x) (he : Honest ce x e)
    (hok : e.result ce x = .ok v) (h : x.world.OnShelves ce S) : Told ce x e S v := by
  obtain ⟨-, hg⟩ := e.call.exec_blobs (s := e.handle) hce he.truthful hI.addressed
  have hr : (e.call.exec ce e.env e.handle x.world).1.1 = .ok v := hok
  by_cases hput : ∃ b k bytes opts, e.call = .putObjectOpts b k bytes opts
  · obtain ⟨b, k, bytes, opts, hcall⟩ := hput
    exact told_put hce hI he hcall hg hok h
  rcases e.call.plan_cases ce e.env with ⟨d, hd⟩ | ⟨b, k, opts, hcall⟩ | ⟨id, n, bytes, hcall⟩ |
    ⟨id, parts, hcall⟩ | ⟨id, hcall⟩
  · exact told_plan hd (fun b k bytes opts hc => hput ⟨b, k, bytes, opts, hc⟩) hg hok h
  · have hcases := createMultipartUpload_cases ce e.env b k opts e.handle x.world
    rw [← hcall] at hcases
    rcases hcases with ⟨⟨f, hfail⟩, -⟩ | ⟨st, st', -, -, ha, hf⟩
    · exact nomatch hr.symm.trans hfail
    · cases hr.symm.trans ha
      refine told_quiet h hg (congrFun hf .index) ?_
      rw [hcall]
      exact .createMultipartUpload b k opts _
  · have hcases := uploadPart_cases hce he.truthful hI.addressed id n bytes e.handle
    rw [← hcall] at hcases
    rcases hcases with ⟨⟨f, hfail⟩, -⟩ | ⟨st, st', -, -, ha, hf, -⟩
    · exact nomatch hr.symm.trans hfail
    · cases hr.symm.trans ha
      refine told_quiet h hg (congrFun hf .index) ?_
      rw [hcall]
      exact .uploadPart id n bytes
  · rcases complete_told hce hI he hcall hg h with
      ⟨⟨f, hfail⟩, -⟩ | ⟨v', htold, ⟨f, hfail⟩ | hok'⟩
    · exact nomatch hok.symm.trans hfail
    · exact nomatch hok.symm.trans hfail
    · cases hok.symm.trans hok'
      exact htold
  · have hcases := abortMultipartUpload_cases ce e.env id e.handle x.world
    rw [← hcall] at hcases
    rcases hcases with ⟨⟨f, hfail⟩, -⟩ | ⟨st, -, ha, hf⟩
    · exact nomatch hr.symm.trans hfail
    · cases hr.symm.trans ha
      refine told_quiet h hg (congrFun hf .index) ?_
      rw [hcall]
      exact .abortMultipartUpload id

/-- A call that fails leaves the index alone, unless it is a completion. -/
theorem failed_index {f : Failure} (herr : e.result ce x = .error f)
    (hcall : ∀ id parts, e.call ≠ .completeMultipartUpload id parts) :
    (x.after ce e).world.files .index = x.world.files .index := by
  have hr : (e.call.exec ce e.env e.handle x.world).1.1 = .error f := herr
  show (e.call.exec ce e.env e.handle x.world).2.files .index = _
  rcases e.call.plan_cases ce e.env with ⟨d, hd⟩ | ⟨b, k, opts, hc⟩ | ⟨id, n, bytes, hc⟩ |
    ⟨id, parts, hc⟩ | ⟨id, hc⟩
  · rcases indexCall_cases hd e.handle x.world with ⟨hf, -⟩ | ⟨i, j, a, -, -, ha, -⟩
    · exact congrFun hf .index
    · exact nomatch hr.symm.trans ha
  · have hcases := createMultipartUpload_cases ce e.env b k opts e.handle x.world
    rw [← hc] at hcases
    rcases hcases with ⟨-, hf⟩ | ⟨st, st', -, -, ha, -⟩
    · exact congrFun hf .index
    · exact nomatch hr.symm.trans ha
  · rw [hc]
    exact uploadPart_index id n bytes e.handle x.world
  · exact absurd hc (hcall id parts)
  · have hcases := abortMultipartUpload_cases ce e.env id e.handle x.world
    rw [← hc] at hcases
    rcases hcases with ⟨-, hf⟩ | ⟨st, -, ha, -⟩
    · exact congrFun hf .index
    · exact nomatch hr.symm.trans ha

/-- One call keeps the index on the shelves that its client is told of. -/
theorem shelved_step {x₀ : Ledger} {S₀ : Shelving} (hce : ce.Lawful) (hI : UploadInv ce x)
    (he : Honest ce x e) (hS : Shelved ce x₀ S₀ x S) (h : x.world.OnShelves ce S) :
    ∃ S', Shelved ce x₀ S₀ (x.after ce e) S' ∧ (x.after ce e).world.OnShelves ce S' := by
  obtain ⟨-, hg⟩ := e.call.exec_blobs (s := e.handle) hce he.truthful hI.addressed
  cases hres : e.result ce x with
  | ok v =>
    obtain ⟨as, S', hdoes, hacts, hon⟩ := done_told hce hI he hres h
    exact ⟨S', .done hS hres hdoes hacts, hon⟩
  | error f =>
    by_cases hcall : ∃ id parts, e.call = .completeMultipartUpload id parts
    · obtain ⟨id, parts, hcall⟩ := hcall
      rcases complete_told hce hI he hcall hg h with ⟨-, hf⟩ | ⟨v, ⟨as, S', hdoes, hacts, hon⟩, -⟩
      · exact ⟨S, .failed hS hres, h.same hg hf⟩
      · exact ⟨S', .half hS hcall hres hdoes hacts, hon⟩
    · have hf := failed_index hres fun id parts hc => hcall ⟨id, parts, hc⟩
      exact ⟨S, .failed hS hres, h.same hg hf⟩

end

/-- Every read of the index is a read of the shelves. -/
structure ReadsShelves (ce : CeRs) (w : World) (i : Index) (S : Shelving) : Prop where
  buckets : ∀ b, b ∈ i.listBuckets ↔ (S b).isSome = true
  isVersioned : ∀ b on,
    i.isVersioned b = .ok on ↔ ∃ shelf, S b = some shelf ∧ shelf.versioned = on
  head_ok : ∀ b k m, i.head b k = .ok m → ∃ bytes, Slot.current (S.slotsOf b k) = some bytes ∧
    ce.readObject w m.cid = some bytes ∧ m.etag = ce.objectCid bytes ∧ m.size = bytes.length
  head_error : ∀ b k e, i.head b k = .error e → Slot.current (S.slotsOf b k) = none
  version_ok : ∀ b k id m, i.headVersion b k id = .ok m → ∃ bytes,
    Slot.named (versionName ce) id (S.slotsOf b k) = some bytes ∧
      ce.readObject w m.cid = some bytes
  version_error : ∀ b k id e, i.headVersion b k id = .error e →
    Slot.named (versionName ce) id (S.slotsOf b k) = none
  versions : ∀ b k ms, i.listVersions b k = .ok ms →
    ms.map (fun m => ce.readObject w m.cid) = (Slot.contents (S.slotsOf b k)).map some

theorem Reflects.reads (hce : ce.Lawful) (h : Reflects ce w i S) : ReadsShelves ce w i S where
  buckets b := by
    have hshelf := congrArg Option.isSome (h.shelf b)
    rw [Option.isSome_map, Option.isSome_map] at hshelf
    rw [Index.mem_listBuckets, hshelf]
  isVersioned b on := h.isVersioned_iff
  head_ok b k m hm := by
    obtain ⟨bytes, hc, hcur⟩ := h.head_content hm
    exact ⟨bytes, hcur, hc.read hce, hc.etag.trans hc.cid, hc.size⟩
  head_error b k e he := by
    refine Option.eq_none_iff_forall_ne_some.mpr fun bytes hcur => ?_
    obtain ⟨m, hm, -⟩ := (h.current_iff hce).mp hcur
    exact nomatch he.symm.trans hm
  version_ok b k id m hm := by
    obtain ⟨bytes, hc, hnamed⟩ := h.headVersion_content hm
    exact ⟨bytes, hnamed, hc.read hce⟩
  version_error b k id e he := by
    refine Option.eq_none_iff_forall_ne_some.mpr fun bytes hnamed => ?_
    obtain ⟨m, hm, -⟩ := (h.named_iff hce).mp hnamed
    exact nomatch he.symm.trans hm
  versions b k ms hms := by
    have hcontents := h.listVersions_contents hms
    clear hms
    generalize Slot.contents (S.slotsOf b k) = contents at hcontents
    induction hcontents with
    | nil => rfl
    | cons hc _ ih => rw [List.map_cons, List.map_cons, hc.read hce, ih]

/-- **The store refines its shelves.** In every state of every honest run, from
any shelves that the index file showed, the calls and their results account for
shelves of which the index file shows exactly what it can be asked for. -/
theorem refines_shelves (ce : CeRs) (hce : ce.Lawful) (w₀ : World) (hw : Addressed ce w₀)
    (hu : w₀.NoUploads) (S₀ : Shelving) (hS₀ : w₀.OnShelves ce S₀) (x : Ledger)
    (hx : Reach (Ledger.fire ce) (Honest ce) (Ledger.start w₀) x) :
    ∃ S, Shelved ce (Ledger.start w₀) S₀ x S ∧
      ∀ i, Index.decode (x.world.files .index) = .ok i → ReadsShelves ce x.world i S := by
  have hinv : UploadInv ce x ∧
      ∃ S, Shelved ce (Ledger.start w₀) S₀ x S ∧ x.world.OnShelves ce S := by
    refine hx.inv (I := fun y => UploadInv ce y ∧
      ∃ S, Shelved ce (Ledger.start w₀) S₀ y S ∧ y.world.OnShelves ce S)
      ⟨start_uploadInv hw hu, S₀, .start, hS₀⟩ ?_
    rintro y e y' - ⟨hI, S, hS, hon⟩ hok hf
    cases hf
    exact ⟨after_uploadInv hce hI hok, shelved_step hce hI hok hS hon⟩
  obtain ⟨-, S, hS, hon⟩ := hinv
  exact ⟨S, hS, fun i hi => (hon i hi).reads hce⟩

/-! A run: two contents are put under one key of a versioned bucket, and it is
deleted. -/

private def marked : List Invocation :=
  [.calm 1 (.makeBucket "photos"), .calm 2 (.setVersioning "photos" true),
    .calm 3 (.putObjectOpts "photos" "a" [1] {}), .calm 4 (.putObjectOpts "photos" "a" [2] {}),
    .calm 5 (.deleteObject "photos" "a")]

private def markedEnd : Ledger :=
  marked.foldl (fun x e => x.after CeRs.plain e) (Ledger.start World.blank)

private theorem markedEnd_reach :
    Reach (Ledger.fire CeRs.plain) (Honest CeRs.plain) (Ledger.start World.blank) markedEnd := by
  refine .next (.next (.next (.next (.next .start ?_ rfl) ?_ rfl) ?_ rfl) ?_ rfl) ?_ rfl
  · exact calm_honest (.inl rfl)
  · exact calm_honest (.inl rfl)
  · exact calm_honest (.inl rfl)
  · exact calm_honest (.inl rfl)
  · exact calm_honest (.inl rfl)

private theorem blank_onShelves : World.blank.OnShelves CeRs.plain fun _ => none := by
  intro i hi
  cases hi
  exact ⟨fun b => rfl, fun b k => .nil⟩

private def markedIndex : Index :=
  (Index.decode (markedEnd.world.files .index)).toOption.getD Index.empty

set_option maxRecDepth 8000 in
private theorem markedIndex_decode :
    Index.decode (markedEnd.world.files .index) = .ok markedIndex := by
  rfl

set_option maxRecDepth 8000 in
private theorem markedIndex_versions :
    ((markedIndex.listVersions "photos" "a").toOption.map (·.length)) = some 2 := by
  decide

theorem refines_shelves_marked : ∃ S,
    Shelved CeRs.plain (Ledger.start World.blank) (fun _ => none) markedEnd S ∧
      (Slot.contents (S.slotsOf "photos" "a")).length = 2 := by
  obtain ⟨S, hS, hreads⟩ := refines_shelves CeRs.plain CeRs.plain_lawful World.blank
    blank_addressed blank_noUploads _ blank_onShelves markedEnd markedEnd_reach
  refine ⟨S, hS, ?_⟩
  have htwo := markedIndex_versions
  cases hms : markedIndex.listVersions "photos" "a" with
  | error e =>
    rw [hms] at htwo
    exact nomatch htwo
  | ok ms =>
    rw [hms] at htwo
    have hlen := congrArg List.length ((hreads _ markedIndex_decode).versions _ _ _ hms)
    rw [List.length_map, List.length_map] at hlen
    rw [← hlen]
    exact Option.some.inj htwo

end CeStorage
