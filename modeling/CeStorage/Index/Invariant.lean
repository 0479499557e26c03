import CeStorage.Index.Versions

/-!
# The representation invariant of the index

Every index that edits make from the empty one is `WellFormed`: its names, keys,
metadata and lifecycle rules passed their checks, no history is empty, and on a
bucket whose versioning was never enabled a history is one live version
(`representation_invariant`). Whether versioning was ever enabled is not in the
index; a run carries it along (`IndexEdit.mark`). An edit that fails leaves the
index as it is (`apply_of_error`).
-/

namespace CeStorage

open Lib
open Std (ExtTreeMap)

namespace IndexEdit

/-- What an edit returns. -/
def result : IndexEdit → Index → Except String Unit
  | makeBucket b t, i => (i.makeBucket b t).1
  | removeBucket b force, i => (i.removeBucket b force).1
  | setVersioning b on, i => (i.setVersioning b on).1
  | setLifecycle b rules, i => (i.setLifecycle b rules).1
  | put b k m, i => (i.put b k m).1
  | delete b k t, i => (i.delete b k t).1
  | deleteVersion b k v, i => (i.deleteVersion b k v).1
  | copy sb sk b k t, i => (i.copy sb sk b k t).1

/-- The buckets that have had versioning enabled since they were made. -/
def mark : IndexEdit → Index → (String → Bool) → String → Bool
  | makeBucket b t, i, enabled =>
    if (i.makeBucket b t).1 = .ok () then Function.update enabled b false else enabled
  | setVersioning b on, i, enabled =>
    if on ∧ (i.setVersioning b on).1 = .ok () then Function.update enabled b true else enabled
  | _, _, enabled => enabled

end IndexEdit

/-- An edit of the index, with the record of where versioning was enabled. -/
def IndexEdit.marking (e : IndexEdit) (s : Index × (String → Bool)) :
    Option (Index × (String → Bool)) :=
  some (e.apply s.1, e.mark s.1 s.2)

namespace Index

/-- What holds of every index the edits can make. -/
structure WellFormed (i : Index) (enabled : String → Bool) : Prop where
  name : ∀ (b : String) (bk : Bucket), i.buckets[b]? = some bk → validBucketName b = .ok ()
  lifecycle : ∀ (b : String) (bk : Bucket), i.buckets[b]? = some bk → validateLifecycle bk.lifecycle = .ok ()
  key : ∀ b k entry, i.history b k = some entry → validKey k = .ok ()
  metadata : EachVersion (fun v => validateUserMetadata v.meta.metadata = .ok ()) i
  nonempty : ∀ b k entry, i.history b k = some entry → entry.versions ≠ []
  unversioned : ∀ (b : String) (bk : Bucket), i.buckets[b]? = some bk → enabled b = false →
    bk.versioning = false
  single : ∀ b k entry, i.history b k = some entry → enabled b = false →
    ∃ v, entry.versions = [v] ∧ v.isDeleteMarker = false

variable {i : Index} {b k : String} {bk bk' : Bucket} {e : IndexEdit} {enabled : String → Bool}

/-! ## Failing edits -/

/-- An edit that fails leaves the index as it is. -/
theorem apply_of_error {msg : String} (h : e.result i = .error msg) : e.apply i = i := by
  cases e with
  | makeBucket b t => exact makeBucket_error h
  | removeBucket b force => exact removeBucket_error h
  | setVersioning b on => exact setVersioning_error h
  | setLifecycle b rules => exact setLifecycle_error h
  | put b k m => exact put_error h
  | delete b k t => exact delete_error h
  | deleteVersion b k v => exact deleteVersion_error h
  | copy sb sk b k t => exact copy_error h

/-! ## What an edit can do to a bucket -/

/-- A bucket after an edit: the one before, but for the flag and the rules that the
edit may have set, or a new one. -/
inductive BucketStep (i : Index) (e : IndexEdit) (b : String) (bk' : Bucket) : Prop where
  | kept {bk : Bucket} (hold : i.buckets[b]? = some bk)
      (hflag : bk'.versioning = bk.versioning ∨ e = .setVersioning b bk'.versioning)
      (hrules : bk'.lifecycle = bk.lifecycle ∨ validateLifecycle bk'.lifecycle = .ok ())
  | made (hnone : i.buckets[b]? = none) (hname : validBucketName b = .ok ())
      (hflag : bk'.versioning = false) (hrules : bk'.lifecycle = [])

theorem bucketStep_same (h : i.buckets[b]? = some bk') : BucketStep i e b bk' :=
  .kept h (.inl rfl) (.inl rfl)

/-- Writing a bucket back. -/
theorem bucketStep_setBucket {b₀ : String} {old new : Bucket} (hold : i.bucket b₀ = .ok old)
    (hflag : new.versioning = old.versioning ∨ e = .setVersioning b₀ new.versioning)
    (hrules : new.lifecycle = old.lifecycle ∨ validateLifecycle new.lifecycle = .ok ())
    (h : (i.setBucket b₀ new).buckets[b]? = some bk') : BucketStep i e b bk' := by
  rw [buckets_setBucket] at h
  split at h
  next hb =>
    subst hb
    cases h
    exact .kept (bucket_eq_ok.mp hold) hflag hrules
  next => exact bucketStep_same h

theorem bucketStep_put {m : ObjectMeta} {b₀ : String}
    (h : (i.put b₀ k m).2.buckets[b]? = some bk') : BucketStep i e b bk' := by
  cases hput : (i.put b₀ k m).1 with
  | error msg =>
    rw [put_error hput] at h
    exact bucketStep_same h
  | ok u =>
    have hok : i.put b₀ k m = (.ok (), (i.put b₀ k m).2) := Prod.ext hput rfl
    obtain ⟨-, -, old, hold, hj⟩ := put_eq_ok.mp hok
    rw [hj] at h
    refine bucketStep_setBucket (bucket_eq_ok.mpr hold) (.inl ?_) (.inl ?_) h <;> rfl

/-- A bucket is made only where there is none. -/
theorem makeBucket_new {t : Nat} (h : (i.makeBucket b t).1 = .ok ()) :
    validBucketName b = .ok () ∧ i.buckets[b]? = none := by
  unfold makeBucket at h
  split at h
  · cases h
  next hname =>
    split at h
    · cases h
    next hnew =>
      rw [ExtTreeMap.contains_eq_isSome_getElem?] at hnew
      exact ⟨hname, by simpa using hnew⟩

theorem bucketStep_makeBucket {t : Nat} {b₀ : String}
    (h : (i.makeBucket b₀ t).2.buckets[b]? = some bk') : BucketStep i e b bk' := by
  cases hmade : (i.makeBucket b₀ t).1 with
  | error msg =>
    rw [makeBucket_error hmade] at h
    exact bucketStep_same h
  | ok u =>
    obtain ⟨hname, hnone⟩ := makeBucket_new hmade
    have hj : (i.makeBucket b₀ t).2 = i.setBucket b₀
        { created := t, versioning := false, lifecycle := [], objects := ∅ } := by
      unfold makeBucket
      rw [hname, ExtTreeMap.contains_eq_isSome_getElem?, hnone]
      rfl
    rw [hj, buckets_setBucket] at h
    split at h
    next hb =>
      subst hb
      cases h
      exact .made hnone hname rfl rfl
    next => exact bucketStep_same h

theorem bucketStep_removeBucket {b₀ : String} {force : Bool}
    (h : (i.removeBucket b₀ force).2.buckets[b]? = some bk') : BucketStep i e b bk' := by
  unfold removeBucket at h
  split at h
  · exact bucketStep_same h
  · split at h
    · exact bucketStep_same h
    · dsimp only at h
      rw [get_erase] at h
      split at h
      · cases h
      · exact bucketStep_same h

theorem bucketStep_setVersioning {b₀ : String} {on : Bool}
    (h : (i.setVersioning b₀ on).2.buckets[b]? = some bk') :
    BucketStep i (.setVersioning b₀ on) b bk' := by
  unfold setVersioning at h
  split at h
  · exact bucketStep_same h
  next old hold => refine bucketStep_setBucket hold (.inr ?_) (.inl ?_) h <;> rfl

theorem bucketStep_setLifecycle {b₀ : String} {rules : List LifecycleRule}
    (h : (i.setLifecycle b₀ rules).2.buckets[b]? = some bk') : BucketStep i e b bk' := by
  unfold setLifecycle at h
  split at h
  · exact bucketStep_same h
  next hvalid =>
    split at h
    · exact bucketStep_same h
    next old hold =>
      refine bucketStep_setBucket hold (.inl ?_) (.inr ?_) h
      · rfl
      · exact hvalid

theorem bucketStep_delete {b₀ : String} {t : Nat}
    (h : (i.delete b₀ k t).2.buckets[b]? = some bk') : BucketStep i e b bk' := by
  unfold delete at h
  split at h
  · exact bucketStep_same h
  next old hold =>
    refine bucketStep_setBucket hold (.inl ?_) (.inl ?_) h <;> unfold deleteKey <;> grind

theorem bucketStep_deleteVersion {b₀ v : String}
    (h : (i.deleteVersion b₀ k v).2.buckets[b]? = some bk') : BucketStep i e b bk' := by
  unfold deleteVersion at h
  split at h
  · exact bucketStep_same h
  next old hold =>
    refine bucketStep_setBucket hold (.inl ?_) (.inl ?_) h <;> unfold deleteKeyVersion <;> grind

theorem bucketStep_copy {sb sk b₀ : String} {t : Nat}
    (h : (i.copy sb sk b₀ k t).2.buckets[b]? = some bk') : BucketStep i e b bk' := by
  unfold copy at h
  split at h
  · exact bucketStep_same h
  · exact bucketStep_put h

theorem bucketStep_apply (h : (e.apply i).buckets[b]? = some bk') : BucketStep i e b bk' := by
  cases e with
  | makeBucket b₀ t => exact bucketStep_makeBucket h
  | removeBucket b₀ force => exact bucketStep_removeBucket h
  | setVersioning b₀ on => exact bucketStep_setVersioning h
  | setLifecycle b₀ rules => exact bucketStep_setLifecycle h
  | put b₀ k m => exact bucketStep_put h
  | delete b₀ k t => exact bucketStep_delete h
  | deleteVersion b₀ k v => exact bucketStep_deleteVersion h
  | copy sb sk b₀ k t => exact bucketStep_copy h

/-! ## The record of enabled versioning -/

/-- A bucket that is not marked was not marked before, or is new. -/
theorem enabled_of_mark (h : e.mark i enabled b = false) :
    enabled b = false ∨ i.buckets[b]? = none := by
  cases e with
  | makeBucket b₀ t =>
    dsimp only [IndexEdit.mark] at h
    by_cases hmade : (i.makeBucket b₀ t).1 = .ok ()
    · rw [if_pos hmade] at h
      by_cases hb : b = b₀
      · subst hb
        exact .inr (makeBucket_new hmade).2
      · left
        rwa [Function.update_of_ne hb] at h
    · rw [if_neg hmade] at h
      exact .inl h
  | setVersioning b₀ on =>
    left
    dsimp only [IndexEdit.mark] at h
    split at h
    · by_cases hb : b = b₀
      · subst hb
        rw [Function.update_self] at h
        exact nomatch h
      · rwa [Function.update_of_ne hb] at h
    · exact h
  | _ => exact .inl h

/-- A bucket whose versioning an edit enables is marked. -/
theorem mark_of_enable (hb : i.buckets[b]? = some bk) :
    (IndexEdit.setVersioning b true).mark i enabled b = true := by
  have hok : (i.setVersioning b true).1 = .ok () := by
    unfold setVersioning
    rw [bucket_eq_ok.mpr hb]
  dsimp only [IndexEdit.mark]
  rw [if_pos ⟨rfl, hok⟩]
  exact Function.update_self _ _ _

/-! ## One step -/

theorem wellFormed_empty : WellFormed empty fun _ => false where
  name _ _ h := nomatch h
  lifecycle _ _ h := nomatch h
  key _ _ _ h := nomatch h
  metadata _ _ _ h := nomatch h
  nonempty _ _ _ h := nomatch h
  unversioned _ _ h := nomatch h
  single _ _ _ h := nomatch h

/-- What holds of each history whichever edit made it. -/
theorem wellFormed_key (h : WellFormed i enabled) {entry : ObjectEntry}
    (hentry : (e.apply i).history b k = some entry) :
    validKey k = .ok () ∧ entry.versions ≠ [] ∧ (e.mark i enabled b = false →
      ∃ v, entry.versions = [v] ∧ v.isDeleteMarker = false) := by
  have hstep := keyStep_apply i e b k
  rw [hentry] at hstep
  generalize hnew : some entry = new at hstep
  have hunmarked : ∀ bk, i.buckets[b]? = some bk → e.mark i enabled b = false →
      enabled b = false := fun bk hb hmark => by
    refine (enabled_of_mark hmark).resolve_right ?_
    intro hnone
    rw [hb] at hnone
    exact nomatch hnone
  -- one case for each thing an edit can make of the history
  cases hstep with
  | same =>
    have hold := hnew.symm
    obtain ⟨bk, hb⟩ := bucket_of_history hold
    exact ⟨h.key b k entry hold, h.nonempty b k entry hold,
      fun hmark => h.single b k entry hold (hunmarked bk hb hmark)⟩
  | dropped => exact nomatch hnew
  | put hb hmakes hk hm =>
    cases hnew
    refine ⟨hk, ?_, ?_⟩
    · unfold putVersion
      split <;> simp
    · intro hmark
      have hflag := h.unversioned b _ hb (hunmarked _ hb hmark)
      unfold putVersion
      rw [if_neg (by rw [hflag]; exact Bool.false_ne_true)]
      exact ⟨_, rfl, rfl⟩
  | marked hon hold =>
    cases hnew
    obtain ⟨bk, hb, hflag⟩ := isVersioned_eq_ok.mp hon
    refine ⟨h.key b k _ hold, ?_, ?_⟩
    · unfold markDeleted
      split
      · simp
      · exact h.nonempty b k _ hold
    · -- only a bucket with versioning enabled gets delete markers
      intro hmark
      rw [h.unversioned b bk hb (hunmarked bk hb hmark)] at hflag
      exact nomatch hflag
  | filtered hold hne =>
    cases hnew
    obtain ⟨bk, hb⟩ := bucket_of_history hold
    refine ⟨h.key b k _ hold, hne, ?_⟩
    intro hmark
    obtain ⟨v, hv, hlive⟩ := h.single b k _ hold (hunmarked bk hb hmark)
    dsimp only at hne ⊢
    rw [hv] at hne ⊢
    -- the one version stays, or the key would be gone
    refine ⟨v, ?_, hlive⟩
    rw [List.filter_cons] at hne ⊢
    split
    · rfl
    next hdrop =>
      rw [if_neg hdrop] at hne
      exact absurd rfl hne

theorem wellFormed_apply (h : WellFormed i enabled) :
    WellFormed (e.apply i) (e.mark i enabled) where
  name b bk' hb := by
    cases bucketStep_apply hb with
    | kept hold hflag hrules => exact h.name b _ hold
    | made hnone hname hflag hrules => exact hname
  lifecycle b bk' hb := by
    cases bucketStep_apply hb with
    | kept hold hflag hrules =>
      rcases hrules with hrules | hvalid
      · rw [hrules]
        exact h.lifecycle b _ hold
      · exact hvalid
    | made hnone hname hflag hrules =>
      rw [hrules]
      rfl
  key b k entry hentry := (wellFormed_key h hentry).1
  metadata := eachVersion_apply h.metadata (fun _ _ hm => hm) fun _ => rfl
  nonempty b k entry hentry := (wellFormed_key h hentry).2.1
  unversioned b bk' hb hmark := by
    cases bucketStep_apply hb with
    | kept hold hflag hrules =>
      have henabled : enabled b = false := by
        refine (enabled_of_mark hmark).resolve_right ?_
        intro hnone
        rw [hold] at hnone
        exact nomatch hnone
      rcases hflag with hflag | rfl
      · rw [hflag]
        exact h.unversioned b _ hold henabled
      · cases hon : bk'.versioning with
        | false => rfl
        | true =>
          rw [hon, mark_of_enable hold] at hmark
          exact nomatch hmark
    | made hnone hname hflag hrules => exact hflag
  single b k entry hentry hmark := (wellFormed_key h hentry).2.2 hmark

/-- An edit that fails changes nothing, and every index that edits make of the empty
one is well formed. -/
theorem representation_invariant :
    (∀ (e : IndexEdit) (i : Index) (msg : String), e.result i = .error msg → e.apply i = i) ∧
    ∀ i enabled, Reach IndexEdit.marking (fun _ _ => True) (empty, fun _ => false) (i, enabled) →
      WellFormed i enabled := by
  refine ⟨fun e i msg h => apply_of_error h, ?_⟩
  intro i enabled h
  refine Reach.inv (I := fun s => WellFormed s.1 s.2) wellFormed_empty
    (fun s e s' _ hI _ hf => ?_) h
  cases hf
  exact wellFormed_apply hI

theorem representation_invariant_photos :
    (IndexEdit.makeBucket "no" 0).apply empty = empty ∧
      WellFormed ((IndexEdit.put "photos" "cat" (ObjectMeta.new "one" 1 "" 5)).apply
        ((IndexEdit.makeBucket "photos" 0).apply empty))
        ((IndexEdit.makeBucket "photos" 0).mark empty fun _ => false) := by
  have hshort : (IndexEdit.makeBucket "no" 0).result empty
      = .error "bucket name must be 3-63 characters: no" := rfl
  have hmade : Reach IndexEdit.marking (fun _ _ => True) (empty, fun _ => false)
      ((IndexEdit.makeBucket "photos" 0).apply empty,
        (IndexEdit.makeBucket "photos" 0).mark empty fun _ => false) := by
    refine Reach.next .start (e := .makeBucket "photos" 0) trivial ?_
    rfl
  have hrun := hmade.next (e := .put "photos" "cat" (ObjectMeta.new "one" 1 "" 5)) trivial rfl
  exact ⟨representation_invariant.1 _ _ _ hshort, representation_invariant.2 _ _ hrun⟩

end Index

end CeStorage
