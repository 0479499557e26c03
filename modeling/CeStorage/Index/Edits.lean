import CeStorage.Index.Lemmas
import CeStorage.Lib.Runs

/-!
# Edits of the index

Every change a store operation makes to the index is a sequence of the eight
mutating methods of `Index`. `IndexEdit` is one of them with its arguments, and
`Edited may i j` says that `j` comes from `i` by edits that each meet `may`.

What one edit preserves, any sequence does (`Edited.inv`): the history of a key
that no edit touches (`history_apply`), and that a key has a current object while
no edit drops it (`bound_apply`). `keyStep_apply` says what an edit can make of the
history of a key, and so where the versions in it come from (`version_apply`).
-/

namespace CeStorage

open Lib
open Std (ExtTreeMap)

/-- A call of a mutating method of `Index`. -/
inductive IndexEdit where
  | makeBucket (name : String) (now : Nat)
  | removeBucket (name : String) (force : Bool)
  | setVersioning (name : String) (enabled : Bool)
  | setLifecycle (name : String) (rules : List LifecycleRule)
  | put (name key : String) (m : ObjectMeta)
  | delete (name key : String) (now : Nat)
  | deleteVersion (name key versionId : String)
  | copy (srcBucket srcKey dstBucket dstKey : String) (now : Nat)

namespace IndexEdit

/-- The index an edit leaves behind, whether it fails or not. -/
def apply : IndexEdit → Index → Index
  | makeBucket b t, i => (i.makeBucket b t).2
  | removeBucket b force, i => (i.removeBucket b force).2
  | setVersioning b on, i => (i.setVersioning b on).2
  | setLifecycle b rules, i => (i.setLifecycle b rules).2
  | put b k m, i => (i.put b k m).2
  | delete b k t, i => (i.delete b k t).2
  | deleteVersion b k v, i => (i.deleteVersion b k v).2
  | copy sb sk b k t, i => (i.copy sb sk b k t).2

def fire (e : IndexEdit) (i : Index) : Option Index := some (e.apply i)

/-- The edit may change the history of a key. -/
def Touches (b k : String) : IndexEdit → Prop
  | makeBucket .. | setVersioning .. | setLifecycle .. => False
  | removeBucket b' _ => b' = b
  | put b' k' _ | delete b' k' _ | deleteVersion b' k' _ | copy _ _ b' k' _ => b' = b ∧ k' = k

/-- The edit may leave a key without a current object. -/
def Drops (b k : String) : IndexEdit → Prop
  | removeBucket b' _ => b' = b
  | delete b' k' _ | deleteVersion b' k' _ => b' = b ∧ k' = k
  | _ => False

end IndexEdit

/-- `j` comes from `i` by edits that each meet `may`. -/
def Edited (may : IndexEdit → Prop) (i j : Index) : Prop :=
  Reach IndexEdit.fire (fun _ e => may e) i j

section
variable {may may' : IndexEdit → Prop} {i j l : Index}

theorem Edited.refl : Edited may i i := .start

theorem Edited.trans (h : Edited may i j) (h' : Edited may j l) : Edited may i l :=
  Reach.trans h h'

theorem Edited.one {e : IndexEdit} (he : may e) : Edited may i (e.apply i) :=
  .next .start he rfl

theorem Edited.mono (hmay : ∀ e, may e → may' e) (h : Edited may i j) : Edited may' i j :=
  Reach.mono (fun _ e => hmay e) h

/-- What every edit preserves, a sequence of edits preserves. -/
theorem Edited.inv {I : Index → Prop} (h : Edited may i j) (h₀ : I i)
    (hstep : ∀ l e, I l → may e → I (e.apply l)) : I j := by
  refine Reach.inv h₀ ?_ h
  intro l e l' _ hI he hf
  cases hf
  exact hstep l e hI he

end

namespace Index

variable {i : Index} {b k b' k' : String} {bk : Bucket}

/-- No edit changes the schema version. -/
theorem schema_apply (e : IndexEdit) : (e.apply i).schema = i.schema := by
  cases e with
  | makeBucket b t => unfold IndexEdit.apply makeBucket; grind [schema_setBucket]
  | removeBucket b force => unfold IndexEdit.apply removeBucket; grind
  | setVersioning b on => unfold IndexEdit.apply setVersioning; grind [schema_setBucket]
  | setLifecycle b rules => unfold IndexEdit.apply setLifecycle; grind [schema_setBucket]
  | put b k m => exact put_schema
  | delete b k t => unfold IndexEdit.apply delete; grind [schema_setBucket]
  | deleteVersion b k v => unfold IndexEdit.apply deleteVersion; grind [schema_setBucket]
  | copy sb sk b k t => unfold IndexEdit.apply copy; grind [put_schema]

theorem schema_edited {may : IndexEdit → Prop} {j : Index} (h : Edited may i j) :
    j.schema = i.schema :=
  h.inv (I := fun l => l.schema = i.schema) rfl fun _ e hI _ => (schema_apply e).trans hI

/-! ## Histories -/

/-- Rewriting a bucket with the same objects changes no history. -/
theorem history_setBucket_same {bk' : Bucket} (hb : i.buckets[b]? = some bk)
    (ho : bk'.objects = bk.objects) : (i.setBucket b bk').history b' k' = i.history b' k' := by
  rw [history_setBucket]
  split
  next h =>
    subst h
    rw [ho, history_of_bucket hb]
  next => rfl

/-- Rewriting one key of a bucket changes no other history. -/
theorem history_setBucket_other {bk' : Bucket} (hb : i.buckets[b]? = some bk)
    (hne : ¬(b = b' ∧ k = k')) (ho : k ≠ k' → bk'.objects[k']? = bk.objects[k']?) :
    (i.setBucket b bk').history b' k' = i.history b' k' := by
  rw [history_setBucket]
  split
  next h =>
    subst h
    rw [ho fun hk => hne ⟨rfl, hk⟩, history_of_bucket hb]
  next => rfl

theorem history_makeBucket (t : Nat) : (i.makeBucket b t).2.history b' k' = i.history b' k' := by
  unfold makeBucket
  split
  · rfl
  · split
    · rfl
    next hb =>
      rw [history_setBucket]
      split
      next h =>
        -- a bucket that was not there has no histories
        subst h
        have hnone : i.buckets[b]? = none := by
          rw [ExtTreeMap.contains_eq_isSome_getElem?] at hb
          simpa using hb
        unfold history
        rw [hnone]
        rfl
      next => rfl

theorem history_removeBucket (force : Bool) (h : b ≠ b') :
    (i.removeBucket b force).2.history b' k' = i.history b' k' := by
  unfold removeBucket
  split
  · rfl
  · split
    · rfl
    · unfold history
      dsimp only
      rw [get_erase_ne h]

theorem history_setVersioning (on : Bool) :
    (i.setVersioning b on).2.history b' k' = i.history b' k' := by
  unfold setVersioning
  split
  · rfl
  next bk hb => exact history_setBucket_same (bucket_eq_ok.mp hb) rfl

theorem history_setLifecycle (rules : List LifecycleRule) :
    (i.setLifecycle b rules).2.history b' k' = i.history b' k' := by
  unfold setLifecycle
  split
  · rfl
  · split
    · rfl
    next bk hb => exact history_setBucket_same (bucket_eq_ok.mp hb) rfl

theorem history_put_other (m : ObjectMeta) (h : ¬(b = b' ∧ k = k')) :
    (i.put b k m).2.history b' k' = i.history b' k' := by
  cases hp : (i.put b k m).1 with
  | error e => rw [put_error hp]
  | ok u =>
    obtain ⟨bk, -, hh⟩ := history_put b' k' (show i.put b k m = (.ok (), _) from Prod.ext hp rfl)
    rw [hh, if_neg h]

theorem history_delete (t : Nat) (h : ¬(b = b' ∧ k = k')) :
    (i.delete b k t).2.history b' k' = i.history b' k' := by
  unfold delete
  split
  · rfl
  next bk hb =>
    refine history_setBucket_other (bucket_eq_ok.mp hb) h ?_
    intro hk
    unfold deleteKey
    split
    · split
      · exact get_insert_ne hk
      · rfl
    · exact get_erase_ne hk

theorem history_deleteVersion (v : String) (h : ¬(b = b' ∧ k = k')) :
    (i.deleteVersion b k v).2.history b' k' = i.history b' k' := by
  unfold deleteVersion
  split
  · rfl
  next bk hb =>
    refine history_setBucket_other (bucket_eq_ok.mp hb) h ?_
    intro hk
    unfold deleteKeyVersion
    split
    · rfl
    · dsimp only
      split
      · exact get_erase_ne hk
      · exact get_insert_ne hk

theorem history_copy {sb sk : String} (t : Nat) (h : ¬(b = b' ∧ k = k')) :
    (i.copy sb sk b k t).2.history b' k' = i.history b' k' := by
  unfold copy
  split
  · rfl
  · exact history_put_other _ h

/-- An edit leaves a key alone that it does not touch. -/
theorem history_apply {e : IndexEdit} (h : ¬e.Touches b k) :
    (e.apply i).history b k = i.history b k := by
  cases e with
  | makeBucket b' t => exact history_makeBucket t
  | removeBucket b' force => exact history_removeBucket force h
  | setVersioning b' on => exact history_setVersioning on
  | setLifecycle b' rules => exact history_setLifecycle rules
  | put b' k' m => exact history_put_other m h
  | delete b' k' t => exact history_delete t h
  | deleteVersion b' k' v => exact history_deleteVersion v h
  | copy sb sk b' k' t => exact history_copy t h

/-- Edits that do not touch a key leave its history alone. -/
theorem history_edited {may : IndexEdit → Prop} {j : Index} (h : Edited may i j)
    (hmay : ∀ e, may e → ¬e.Touches b k) : j.history b k = i.history b k := by
  refine h.inv (I := fun l => l.history b k = i.history b k) rfl ?_
  intro l e hI he
  rw [history_apply (hmay e he), hI]

/-! ## One key -/

theorem history_put_self (hk : validKey k = .ok ()) (hm : validateUserMetadata m.metadata = .ok ())
    (hb : i.buckets[b]? = some bk) : (i.put b k m).2.history b k
      = some (putVersion bk (i.history b k) ⟨m, false⟩) := by
  have hok := put_eq_ok.mpr ⟨hk, hm, bk, hb, rfl⟩
  obtain ⟨bk', hb', hh⟩ := history_put b k hok
  rw [hb] at hb'
  cases hb'
  rw [hok, hh, if_pos ⟨rfl, rfl⟩]

/-- The history a delete leaves. -/
def deleteHistory (on : Bool) (t : Nat) (old : Option ObjectEntry) : Option ObjectEntry :=
  if on then old.map (markDeleted t) else none

theorem history_delete_self {on : Bool} (t : Nat) (h : i.isVersioned b = .ok on) :
    (i.delete b k t).2.history b k = deleteHistory on t (i.history b k) := by
  obtain ⟨bk, hb, rfl⟩ := isVersioned_eq_ok.mp h
  unfold delete deleteKey deleteHistory
  rw [bucket_eq_ok.mpr hb, history_setBucket, if_pos rfl, history_of_bucket hb]
  split
  · cases hk : bk.objects[k]? with
    | none => exact hk
    | some entry => exact get_insert_self
  · exact get_erase_self

/-- The history that removing a version id leaves. -/
def deleteVersionHistory (id : String) (old : Option ObjectEntry) : Option ObjectEntry :=
  old.bind fun entry =>
    let versions := entry.versions.filter fun v => v.meta.versionId != id
    if versions.isEmpty then none else some ⟨versions⟩

theorem history_deleteVersion_self {id : String} (hb : i.buckets[b]? = some bk) :
    (i.deleteVersion b k id).2.history b k = deleteVersionHistory id (i.history b k) := by
  unfold deleteVersion deleteKeyVersion deleteVersionHistory
  rw [bucket_eq_ok.mpr hb, history_setBucket, if_pos rfl, history_of_bucket hb]
  cases hk : bk.objects[k]? with
  | none => exact hk
  | some entry =>
    dsimp only [Option.bind_some]
    split
    · exact get_erase_self
    · exact get_insert_self

/-- The metadata an edit makes a version of. -/
def Makes (i : Index) (m : ObjectMeta) : IndexEdit → Prop
  | .put _ _ m' => m' = m
  | .copy _ _ _ _ t => ∃ m', i.Live m' ∧ m = { m' with lastModified := t }
  | _ => False

/-! ## What an edit can do to one key -/

/-- What an edit can make of the history of a key. -/
inductive KeyStep (i : Index) (e : IndexEdit) (b k : String) : Option ObjectEntry → Prop where
  | same : KeyStep i e b k (i.history b k)
  | dropped : KeyStep i e b k none
  | put {bk : Bucket} {m : ObjectMeta} (hb : i.buckets[b]? = some bk) (hmakes : i.Makes m e)
      (hk : validKey k = .ok ()) (hm : validateUserMetadata m.metadata = .ok ()) :
      KeyStep i e b k (some (putVersion bk (i.history b k) ⟨m, false⟩))
  | marked {entry : ObjectEntry} {t : Nat} (hon : i.isVersioned b = .ok true)
      (hold : i.history b k = some entry) : KeyStep i e b k (some (markDeleted t entry))
  | filtered {entry : ObjectEntry} {id : String} (hold : i.history b k = some entry)
      (hne : (entry.versions.filter fun v => v.meta.versionId != id) ≠ []) :
      KeyStep i e b k (some ⟨entry.versions.filter fun v => v.meta.versionId != id⟩)

theorem keyStep_put {e : IndexEdit} (hmakes : i.Makes m e) :
    KeyStep i e b k ((i.put b k m).2.history b k) := by
  cases hput : (i.put b k m).1 with
  | error msg =>
    rw [put_error hput]
    exact .same
  | ok u =>
    have hok : i.put b k m = (.ok (), (i.put b k m).2) := Prod.ext hput rfl
    obtain ⟨hk, hm, bk, hb, -⟩ := put_eq_ok.mp hok
    rw [history_put_self hk hm hb]
    exact .put hb hmakes hk hm

theorem keyStep_copy {sb sk : String} {t : Nat} :
    KeyStep i (.copy sb sk b k t) b k ((i.copy sb sk b k t).2.history b k) := by
  unfold copy
  split
  · exact .same
  next m hm => exact keyStep_put ⟨m, live_head hm, rfl⟩

theorem keyStep_removeBucket {e : IndexEdit} {force : Bool} :
    KeyStep i e b k ((i.removeBucket b force).2.history b k) := by
  unfold removeBucket
  split
  · exact .same
  · split
    · exact .same
    · have hgone : Index.history { i with buckets := i.buckets.erase b } b k = none := by
        unfold history
        rw [get_erase_self]
        rfl
      rw [hgone]
      exact .dropped

theorem keyStep_delete {e : IndexEdit} {t : Nat} :
    KeyStep i e b k ((i.delete b k t).2.history b k) := by
  cases hon : i.isVersioned b with
  | error msg =>
    unfold isVersioned at hon
    unfold delete
    cases hb : i.bucket b with
    | error msg => exact .same
    | ok bk =>
      rw [hb] at hon
      cases hon
  | ok on =>
    rw [history_delete_self t hon]
    unfold deleteHistory
    cases on with
    | false => exact .dropped
    | true =>
      rw [if_pos rfl]
      cases hh : i.history b k with
      | none => exact .dropped
      | some entry => exact .marked hon hh

theorem keyStep_deleteVersion {e : IndexEdit} {id : String} :
    KeyStep i e b k ((i.deleteVersion b k id).2.history b k) := by
  cases hb : i.buckets[b]? with
  | none =>
    have herr : (i.deleteVersion b k id).2 = i := by
      unfold deleteVersion bucket
      rw [hb]
    rw [herr]
    exact .same
  | some bk =>
    rw [history_deleteVersion_self hb]
    unfold deleteVersionHistory
    cases hh : i.history b k with
    | none => exact .dropped
    | some entry =>
      rw [Option.bind_some]
      dsimp only
      split
      · exact .dropped
      next hne => exact .filtered hh fun hnil => hne (List.isEmpty_iff.mpr hnil)

theorem keyStep_apply (i : Index) (e : IndexEdit) (b k : String) :
    KeyStep i e b k ((e.apply i).history b k) := by
  by_cases ht : e.Touches b k
  · cases e with
    | makeBucket b' t => exact ht.elim
    | setVersioning b' on => exact ht.elim
    | setLifecycle b' rules => exact ht.elim
    | removeBucket b' force =>
      cases (show b' = b from ht)
      exact keyStep_removeBucket
    | put b' k' m =>
      obtain ⟨rfl, rfl⟩ := ht
      exact keyStep_put rfl
    | copy sb sk b' k' t =>
      obtain ⟨rfl, rfl⟩ := ht
      exact keyStep_copy
    | delete b' k' t =>
      obtain ⟨rfl, rfl⟩ := ht
      exact keyStep_delete
    | deleteVersion b' k' id =>
      obtain ⟨rfl, rfl⟩ := ht
      exact keyStep_deleteVersion
  · rw [history_apply ht]
    exact .same

/-- A version in a history after an edit was there before, or the edit made it. -/
theorem version_apply {e : IndexEdit} {entry : ObjectEntry} {v : ObjectVersion}
    (h : (e.apply i).history b k = some entry) (hv : v ∈ entry.versions) :
    (∃ old, i.history b k = some old ∧ v ∈ old.versions) ∨
    (∃ m, i.Makes m e ∧ validateUserMetadata m.metadata = .ok () ∧ v = ⟨m, false⟩) ∨
    ∃ t, v = deleteMarker t := by
  -- what became of the versions of the key, one case for each kind of step
  have hstep := keyStep_apply i e b k
  rw [h] at hstep
  generalize hnew : some entry = new at hstep
  cases hstep with
  | same => exact .inl ⟨entry, hnew.symm, hv⟩
  | dropped => exact nomatch hnew
  | put hb hmakes hk hm =>
    cases hnew
    unfold putVersion at hv
    split at hv
    · rcases List.mem_append.mp hv with hv | hv
      · -- the versions that were there, if there were any
        cases hold : i.history b k with
        | none =>
          rw [hold] at hv
          exact absurd hv List.not_mem_nil
        | some old =>
          rw [hold] at hv
          exact .inl ⟨old, rfl, hv⟩
      · exact .inr (.inl ⟨_, hmakes, hm, List.mem_singleton.mp hv⟩)
    · exact .inr (.inl ⟨_, hmakes, hm, List.mem_singleton.mp hv⟩)
  | marked hon hold =>
    cases hnew
    unfold markDeleted at hv
    split at hv
    · rcases List.mem_append.mp hv with hv | hv
      · exact .inl ⟨_, hold, hv⟩
      · exact .inr (.inr ⟨_, List.mem_singleton.mp hv⟩)
    · exact .inl ⟨_, hold, hv⟩
  | filtered hold hne =>
    cases hnew
    exact .inl ⟨_, hold, (List.mem_filter.mp hv).1⟩

/-! ## Current objects -/

theorem head_of_history {j : Index} (h : j.history b k = i.history b k) {m : ObjectMeta}
    (hm : i.head b k = .ok m) : j.head b k = .ok m := by
  rw [head_eq_ok] at hm ⊢
  rw [h]
  exact hm

/-- The key has a current object. -/
def Bound (i : Index) (b k : String) : Prop := ∃ m, i.head b k = .ok m

theorem bound_put {m : ObjectMeta} (h : i.Bound b k) : (i.put b' k' m).2.Bound b k := by
  obtain ⟨m₀, hm₀⟩ := h
  by_cases hbk : b' = b ∧ k' = k
  · obtain ⟨rfl, rfl⟩ := hbk
    cases hp : (i.put b' k' m).1 with
    | error e =>
      rw [put_error hp]
      exact ⟨m₀, hm₀⟩
    | ok u => exact ⟨m, head_put (Prod.ext hp rfl)⟩
  · exact ⟨m₀, head_of_history (history_put_other m hbk) hm₀⟩

/-- A key keeps a current object while no edit drops it. -/
theorem bound_apply {e : IndexEdit} (h : ¬e.Drops b k) (hb : i.Bound b k) :
    (e.apply i).Bound b k := by
  have untouched : ¬e.Touches b k → (e.apply i).Bound b k := by
    intro ht
    obtain ⟨m, hm⟩ := hb
    exact ⟨m, head_of_history (history_apply ht) hm⟩
  cases e with
  | put b' k' m => exact bound_put hb
  | copy sb sk b' k' t =>
    unfold IndexEdit.apply copy
    dsimp only
    split
    · exact hb
    · exact bound_put hb
  | makeBucket b' t => exact untouched id
  | setVersioning b' on => exact untouched id
  | setLifecycle b' rules => exact untouched id
  | removeBucket b' force => exact untouched h
  | delete b' k' t => exact untouched h
  | deleteVersion b' k' v => exact untouched h

theorem bound_edited {may : IndexEdit → Prop} {j : Index} (h : Edited may i j)
    (hmay : ∀ e, may e → ¬e.Drops b k) (hb : i.Bound b k) : j.Bound b k :=
  h.inv (I := fun l => l.Bound b k) hb fun _ e hI he => bound_apply (hmay e he) hI

/-! ## Live versions -/

theorem live_apply {e : IndexEdit} {m : ObjectMeta} (h : (e.apply i).Live m) :
    i.Live m ∨ i.Makes m e := by
  obtain ⟨b, k, entry, v, hentry, hv, hd, rfl⟩ := h
  rcases version_apply hentry hv with ⟨old, hold, hv⟩ | ⟨m, hmakes, -, rfl⟩ | ⟨t, rfl⟩
  · exact .inl ⟨b, k, old, v, hold, hv, hd, rfl⟩
  · exact .inr hmakes
  · exact nomatch hd

/-- A property of versions that does not depend on their time, and that every
put version has, is one of every live version after any edits. -/
theorem live_edited {may : IndexEdit → Prop} {j : Index} {Q : ObjectMeta → Prop}
    (h : Edited may i j) (hmay : ∀ b k m, may (.put b k m) → Q m)
    (htime : ∀ m t, Q m → Q { m with lastModified := t }) (hi : ∀ m, i.Live m → Q m) :
    ∀ m, j.Live m → Q m := by
  refine h.inv (I := fun l => ∀ m, l.Live m → Q m) hi ?_
  intro l e hI he m hm
  rcases live_apply hm with hm | hm
  · exact hI m hm
  · cases e with
    | put b k m' =>
      cases hm
      exact hmay b k m he
    | copy sb sk b k t =>
      obtain ⟨m', hm', rfl⟩ := hm
      exact htime m' t (hI m' hm')
    | _ => exact hm.elim

end Index

end CeStorage
