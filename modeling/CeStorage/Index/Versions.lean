import CeStorage.Index.Edits

/-!
# Version ids

`head_version` finds the newest version with an id in the history of a key: an id
names it (`Names`). A version that is appended answers for its own id and hides an
older one's (`names_append`); dropping another id changes nothing (`names_filter`).
-/

namespace CeStorage

open Lib
open Std (ExtTreeMap)

namespace ObjectEntry

/-- The newest version answers for its id; the others as before. -/
theorem byVersion_append (vs : List ObjectVersion) (v : ObjectVersion) (id : String) :
    byVersion ⟨vs ++ [v]⟩ id = if v.meta.versionId = id then some v else byVersion ⟨vs⟩ id := by
  unfold byVersion
  dsimp only
  rw [List.reverse_append, List.reverse_singleton, List.singleton_append, List.find?_cons]
  by_cases h : v.meta.versionId = id
  · rw [if_pos h, beq_iff_eq.mpr h]
  · rw [if_neg h, beq_eq_false_iff_ne.mpr h]

/-- Dropping other ids changes nothing for an id. -/
theorem byVersion_filter {entry : ObjectEntry} {id dropped : String} (h : dropped ≠ id) :
    byVersion ⟨entry.versions.filter fun v => v.meta.versionId != dropped⟩ id
      = entry.byVersion id := by
  unfold byVersion
  dsimp only
  rw [← List.filter_reverse, List.find?_filter]
  congr 1
  funext v
  by_cases hv : v.meta.versionId = id
  · simp [hv, Ne.symm h]
  · simp [hv]

/-- The history answers for the id of `m` with `m`. -/
def Names (self : ObjectEntry) (m : ObjectMeta) : Prop :=
  ∃ v, self.byVersion m.versionId = some v ∧ v.isDeleteMarker = false ∧ v.meta = m

variable {m : ObjectMeta}

theorem names_append {vs : List ObjectVersion} {v : ObjectVersion} :
    Names ⟨vs ++ [v]⟩ m ↔ if v.meta.versionId = m.versionId then
      v.isDeleteMarker = false ∧ v.meta = m else Names ⟨vs⟩ m := by
  unfold Names
  rw [byVersion_append]
  split
  · simp only [Option.some.injEq, exists_eq_left']
  · rfl

theorem not_names_nil : ¬Names ⟨[]⟩ m := fun ⟨_, h, _⟩ => nomatch h

theorem names_filter {entry : ObjectEntry} {dropped : String} (h : dropped ≠ m.versionId) :
    Names ⟨entry.versions.filter fun v => v.meta.versionId != dropped⟩ m ↔ entry.Names m := by
  unfold Names
  rw [byVersion_filter h]

end ObjectEntry

namespace Index

variable {i : Index} {b k id : String} {m : ObjectMeta} {bk : Bucket}

/-- What an id names is read off the history. -/
theorem headVersion_eq_ok : i.headVersion b k id = .ok m ↔
    ∃ entry v, i.history b k = some entry ∧ entry.byVersion id = some v ∧
      v.isDeleteMarker = false ∧ v.meta = m := by
  unfold headVersion entry history bucket
  grind

theorem headVersion_iff_names : i.headVersion b k m.versionId = .ok m ↔
    ∃ entry, i.history b k = some entry ∧ entry.Names m := by
  rw [headVersion_eq_ok]
  constructor
  · rintro ⟨entry, v, hh, hv⟩
    exact ⟨entry, hh, v, hv⟩
  · rintro ⟨entry, hh, v, hv⟩
    exact ⟨entry, v, hh, hv⟩

/-- The bucket of a key with a history is there. -/
theorem bucket_of_history {entry : ObjectEntry} (h : i.history b k = some entry) :
    ∃ bk, i.buckets[b]? = some bk := by
  obtain ⟨bk, hbk, -⟩ := Option.bind_eq_some_iff.mp h
  exact ⟨bk, hbk⟩

/-! ## Deletes -/

theorem isVersioned_delete {b' : String} (t : Nat) :
    (i.delete b k t).2.isVersioned b' = i.isVersioned b' := by
  unfold delete
  split
  · rfl
  next bk hb =>
    have hflag : (deleteKey bk k t).versioning = bk.versioning := by
      unfold deleteKey
      split
      · split <;> rfl
      · rfl
    unfold isVersioned bucket
    rw [buckets_setBucket]
    by_cases h : b = b'
    · subst h
      rw [if_pos rfl, bucket_eq_ok.mp hb]
      exact congrArg Except.ok hflag
    · rw [if_neg h]

/-- A marker is put on a live history only. -/
theorem markDeleted_markDeleted (t t' : Nat) (entry : ObjectEntry) :
    markDeleted t (markDeleted t' entry) = markDeleted t' entry := by
  unfold markDeleted
  by_cases hlive : (entry.current.any fun v => !v.isDeleteMarker) = true
  · rw [if_pos hlive]
    refine if_neg ?_
    unfold ObjectEntry.current
    rw [List.getLast?_concat]
    exact Bool.false_ne_true
  · rw [if_neg hlive, if_neg hlive]

theorem deleteHistory_deleteHistory (on : Bool) (t t' : Nat) (old : Option ObjectEntry) :
    deleteHistory on t (deleteHistory on t' old) = deleteHistory on t' old := by
  unfold deleteHistory
  cases on with
  | false => rfl
  | true =>
    cases old with
    | none => rfl
    | some entry => exact congrArg some (markDeleted_markDeleted t t' entry)

/-! ## Properties of single versions -/

/-- Every version in every history has the property, delete markers included. -/
def EachVersion (P : ObjectVersion → Prop) (i : Index) : Prop :=
  ∀ b k entry, i.history b k = some entry → ∀ v ∈ entry.versions, P v

theorem eachVersion_apply {P : ObjectVersion → Prop} {e : IndexEdit} (h : EachVersion P i)
    (hput : ∀ m, i.Makes m e → validateUserMetadata m.metadata = .ok () → P ⟨m, false⟩)
    (hmark : ∀ t, P (deleteMarker t)) : EachVersion P (e.apply i) := by
  intro b k entry hentry v hv
  rcases version_apply hentry hv with ⟨old, hold, hv⟩ | ⟨m, hmakes, hm, rfl⟩ | ⟨t, rfl⟩
  · exact h b k old hold v hv
  · exact hput m hmakes hm
  · exact hmark t

end Index

end CeStorage
