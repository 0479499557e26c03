import CeStorage.Index.Edits
import CeStorage.Store.Crash
import CeStorage.Store.Outcomes

/-!
# What a call does to the index

`StoreCall.MayEdit` says which edits of the index each call can make, with their
arguments; `index_cases` says that a call leaves the index file alone or saves
what such edits make of the index it loaded.
-/

namespace CeStorage

open Lib
open Std (ExtTreeMap)

variable {ce : CeRs} {env : Env} {s : Store} {w : World}

/-- The edits a call can make. A completion puts what the record of its upload
names; the other calls on uploads make none. -/
def StoreCall.MayEdit (ce : CeRs) (env : Env) (w : World) : StoreCall → IndexEdit → Prop
  | .makeBucket b, e => e = .makeBucket b env.now
  | .removeBucket b force, e => e = .removeBucket b force
  | .setVersioning b enabled, e => e = .setVersioning b enabled
  | .setLifecycle b rules, e => e = .setLifecycle b rules
  | .sweepExpired b, e => ∃ k, e = .delete b k env.now
  | .sweepAll, e => ∃ b k, e = .delete b k env.now
  | .putObjectOpts b k bytes opts, e => ∃ cid, env.putObject bytes = .ok cid ∧
      e = .put b k (putMeta cid bytes opts env.now)
  | .deleteObject b k, e => e = .delete b k env.now
  | .deleteObjectVersion b k v, e => e = .deleteVersion b k v
  | .deleteObjects b keys, e => ∃ k ∈ keys, e = .delete b k env.now
  | .copyObject sb sk b k, e => e = .copy sb sk b k env.now
  | .completeMultipartUpload id parts, e => ∃ st u manifest cid i j,
      Assembled ce env id parts w st u manifest cid i j ∧
        e = .put u.bucket u.key (completeMeta u manifest cid env.now)
  | .createMultipartUpload .., _ | .uploadPart .., _ | .abortMultipartUpload .., _ => False

/-- A single edit that succeeds. -/
theorem save_edit {may : IndexEdit → Prop} {e : IndexEdit} {i j : Index} {a : Value}
    {r : Except String Unit × Index} (he : may e) (hr : e.apply i = r.2)
    (h : StoreCall.plan.edit r = .save j a) : Edited may i j := by
  have hj : r.2 = j := by
    unfold StoreCall.plan.edit Decision.ofEdit at h
    rcases r with ⟨_ | _, j'⟩
    · exact nomatch h
    · cases h
      rfl
  rw [← hj, ← hr]
  exact .one he

theorem deleteAll_edited {may : IndexEdit → Prop} (b : String) (t : Nat) (keys : List String)
    (i : Index) (h : ∀ k ∈ keys, may (.delete b k t)) : Edited may i (i.deleteAll b t keys) := by
  unfold Index.deleteAll
  induction keys generalizing i with
  | nil => exact .refl
  | cons k keys ih =>
    have hone : Edited may i (i.delete b k t).2 := .one (h k List.mem_cons_self)
    exact hone.trans (ih _ fun k' hk' => h k' (List.mem_cons_of_mem k hk'))

theorem sweepBuckets_edited {may : IndexEdit → Prop} (t : Nat) (bs : List String) (i : Index)
    (any : Bool) (report : ExtTreeMap String (List String)) (h : ∀ b k, may (.delete b k t)) :
    Edited may i (i.sweepBuckets t bs any report).1 := by
  induction bs generalizing i any report with
  | nil => exact .refl
  | cons b bs ih =>
    unfold Index.sweepBuckets
    dsimp only
    split
    · exact ih i any report
    · exact (deleteAll_edited b t _ i fun k _ => h b k).trans (ih _ _ _)

/-- What a plan saves comes from the loaded index by the edits of its call. -/
theorem plan_edited {c : StoreCall} {d : Index → Decision Failure Value × List (String × Bytes)}
    (hd : c.plan ce env = some d) {i j : Index} {a : Value} (h : (d i).1 = .save j a) :
    Edited (c.MayEdit ce env w) i j := by
  cases c with
  | makeBucket b =>
    cases hd
    exact save_edit rfl rfl h
  | removeBucket b force =>
    cases hd
    exact save_edit rfl rfl h
  | setVersioning b enabled =>
    cases hd
    exact save_edit rfl rfl h
  | setLifecycle b rules =>
    cases hd
    exact save_edit rfl rfl h
  | sweepExpired b =>
    cases hd
    dsimp only [sweepDecision] at h
    split at h
    · exact nomatch h
    · split at h
      · exact nomatch h
      · cases h
        exact deleteAll_edited b env.now _ i fun k _ => ⟨k, rfl⟩
  | sweepAll =>
    cases hd
    dsimp only [sweepAllDecision] at h
    split at h
    · cases h
      exact sweepBuckets_edited env.now _ i false ∅ fun b k => ⟨b, k, rfl⟩
    · exact nomatch h
  | putObjectOpts b k bytes opts =>
    cases hd
    dsimp only [putDecision] at h
    split at h
    · split at h
      · exact nomatch h
      · split at h
        · exact nomatch h
        next cid hput =>
          cases h
          exact .one (e := .put b k (putMeta cid bytes opts env.now)) ⟨cid, hput, rfl⟩
    · exact nomatch h
  | deleteObject b k =>
    cases hd
    exact save_edit rfl rfl h
  | deleteObjectVersion b k v =>
    cases hd
    exact save_edit rfl rfl h
  | deleteObjects b keys =>
    cases hd
    cases h
    exact deleteAll_edited b env.now keys i fun k hk => ⟨k, hk, rfl⟩
  | copyObject sb sk db dk =>
    cases hd
    exact save_edit rfl rfl h
  -- the upload calls have no plan
  | createMultipartUpload b k opts => exact nomatch hd
  | uploadPart id n bytes => exact nomatch hd
  | completeMultipartUpload id parts => exact nomatch hd
  | abortMultipartUpload id => exact nomatch hd

theorem uploadPart_index (id : String) (n : Nat) (bytes : Bytes) (s : Store) (w : World) :
    ((StoreCall.uploadPart id n bytes).exec ce env s w).2.files .index = w.files .index := by
  rcases StoreCall.exec_cases ce env (.uploadPart id n bytes) s w with ⟨-, hf⟩ | h
  · rw [hf]
  · rw [h]
    dsimp only [StoreCall.op, Op.storage]
    rw [exec_into]
    exact Prog.Quiet.run (quiet_uploadPart s id n bytes s) w

/-- A call leaves the index file alone, or saves what its edits make of the index
it loaded. -/
theorem index_cases (ce : CeRs) (env : Env) (c : StoreCall) (s : Store) (w : World) :
    let r := c.exec ce env s w
    r.2.files .index = w.files .index ∨
      ∃ i j, Index.decode (w.files .index) = .ok i ∧ r.2.files .index = some (.index j) ∧
        Index.decode (r.2.files .index) = .ok j ∧ Edited (c.MayEdit ce env w) i j := by
  dsimp only
  have hdecode : ∀ i j, Index.decode (w.files .index) = .ok i → Edited (c.MayEdit ce env w) i j →
      Index.decode (some (.index j)) = .ok j := by
    intro i j hi hj
    exact Index.decode_kept hi (Index.schema_edited hj)
  rcases c.plan_cases ce env with ⟨d, hd⟩ | ⟨b, k, opts, rfl⟩ | ⟨id, n, bytes, rfl⟩ |
    ⟨id, parts, rfl⟩ | ⟨id, rfl⟩
  · -- an index call, then the four upload calls
    rcases indexCall_cases hd s w with ⟨hf, -⟩ | ⟨i, j, a, hi, hj, -, -, hf, -⟩
    · exact .inl (by rw [hf])
    · have hfile : (c.exec ce env s w).2.files .index = some (.index j) := by
        rw [hf, Function.update_self]
      have hed : Edited (c.MayEdit ce env w) i j := plan_edited hd hj
      exact .inr ⟨i, j, hi, hfile, hfile ▸ hdecode i j hi hed, hed⟩
  · rcases createMultipartUpload_cases ce env b k opts s w with ⟨-, hf⟩ | ⟨st, st', -, -, -, hf⟩
    · exact .inl (by rw [hf])
    · exact .inl (by rw [hf]; rfl)
  · exact .inl (uploadPart_index id n bytes s w)
  · rcases completeMultipartUpload_cases ce env id parts s w with
      ⟨-, hf⟩ | ⟨st, u, manifest, cid, i, j, hass, -, hend⟩
    · exact .inl (by rw [hf])
    · have hed : Edited ((StoreCall.completeMultipartUpload id parts).MayEdit ce env w) i j := by
        have hput : (IndexEdit.put u.bucket u.key (completeMeta u manifest cid env.now)).apply i
            = j := congrArg Prod.snd hass.bound
        rw [← hput]
        exact .one ⟨st, u, manifest, cid, i, j, hass, rfl⟩
      have hfile : ((StoreCall.completeMultipartUpload id parts).exec ce env s w).2.files .index
          = some (.index j) := by
        rcases hend with ⟨-, hf⟩ | ⟨-, hf⟩
        · rw [hf, Function.update_self]
        · rw [hf, Function.update_of_ne (by decide), Function.update_self]
      exact .inr ⟨i, j, hass.index, hfile, hfile ▸ hdecode i j hass.index hed, hed⟩
  · rcases abortMultipartUpload_cases ce env id s w with ⟨-, hf⟩ | ⟨st, -, -, hf⟩
    · exact .inl (by rw [hf])
    · exact .inl (by rw [hf]; rfl)

end CeStorage
