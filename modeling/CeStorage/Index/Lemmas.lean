import CeStorage.Index.Basic
import CeStorage.Lib.Maps

/-!
# What the index operations do to one key

`Index.history i b k` is the history of a key, if it has one. Each operation is
described by the histories it leaves: which key it changes, and that all others
stay as they are.
-/

namespace CeStorage

open Lib
open Std (ExtTreeMap)

namespace Index

variable {i j : Index} {b k b' k' : String} {bk : Bucket} {m : ObjectMeta} {t : Nat}

/-- The history of a key. -/
def history (i : Index) (b k : String) : Option ObjectEntry :=
  i.buckets[b]?.bind fun bk => bk.objects[k]?

theorem history_of_bucket (h : i.buckets[b]? = some bk) : i.history b k = bk.objects[k]? := by
  unfold history
  rw [h]
  rfl

theorem bucket_eq_ok : i.bucket b = .ok bk ↔ i.buckets[b]? = some bk := by
  unfold bucket
  cases i.buckets[b]? with
  | none => simp
  | some bk' => simp

theorem bucket_eq_error {e : String} (h : i.bucket b = .error e) : i.buckets[b]? = none := by
  unfold bucket at h
  grind

theorem isVersioned_eq_ok {on : Bool} :
    i.isVersioned b = .ok on ↔ ∃ bk, i.buckets[b]? = some bk ∧ bk.versioning = on := by
  unfold isVersioned
  cases hb : i.bucket b with
  | error e => simp [Except.map, bucket_eq_error hb]
  | ok bk => simp [Except.map, bucket_eq_ok.mp hb]

/-- The metadata of the current object is read off the history. -/
theorem head_eq_ok : i.head b k = .ok m ↔
    ∃ entry v, i.history b k = some entry ∧ entry.current = some v ∧ v.isDeleteMarker = false ∧
      v.meta = m := by
  unfold head entry history bucket
  grind

/-! ## Writing a bucket back -/

theorem history_setBucket : (i.setBucket b bk).history b' k'
    = if b = b' then bk.objects[k']? else i.history b' k' := by
  unfold history setBucket
  dsimp only
  rw [get_insert]
  split <;> rfl

@[simp] theorem buckets_setBucket : (i.setBucket b bk).buckets[b']?
    = if b = b' then some bk else i.buckets[b']? := get_insert

@[simp] theorem schema_setBucket : (i.setBucket b bk).schema = i.schema := rfl

theorem setBucket_setBucket {bk' : Bucket} :
    (i.setBucket b bk).setBucket b bk' = i.setBucket b bk' := by
  unfold setBucket
  rw [insert_insert]

/-! ## Operations that fail

They leave the index as it is. -/

theorem makeBucket_error {e : String} (h : (i.makeBucket b t).1 = .error e) :
    (i.makeBucket b t).2 = i := by
  unfold makeBucket at h ⊢
  grind

theorem removeBucket_error {force : Bool} {e : String}
    (h : (i.removeBucket b force).1 = .error e) : (i.removeBucket b force).2 = i := by
  unfold removeBucket at h ⊢
  grind

theorem setVersioning_error {on : Bool} {e : String} (h : (i.setVersioning b on).1 = .error e) :
    (i.setVersioning b on).2 = i := by
  unfold setVersioning at h ⊢
  grind

theorem setLifecycle_error {rules : List LifecycleRule} {e : String}
    (h : (i.setLifecycle b rules).1 = .error e) : (i.setLifecycle b rules).2 = i := by
  unfold setLifecycle at h ⊢
  grind

theorem delete_error {e : String} (h : (i.delete b k t).1 = .error e) : (i.delete b k t).2 = i := by
  unfold delete at h ⊢
  grind

theorem deleteVersion_error {v e : String} (h : (i.deleteVersion b k v).1 = .error e) :
    (i.deleteVersion b k v).2 = i := by
  unfold deleteVersion at h ⊢
  grind

theorem put_error {e : String} (h : (i.put b k m).1 = .error e) : (i.put b k m).2 = i := by
  unfold put at h ⊢
  grind

theorem copy_error {sb sk e : String} (h : (i.copy sb sk b k t).1 = .error e) :
    (i.copy sb sk b k t).2 = i := by
  unfold copy at h ⊢
  split at h
  · rfl
  · exact put_error h

/-! ## Put -/

/-- A put that succeeds: the bucket was there, and the key has one more version
or, on an unversioned bucket, this version alone. -/
theorem put_eq_ok : i.put b k m = (.ok (), j) ↔
    validKey k = .ok () ∧ validateUserMetadata m.metadata = .ok () ∧
      ∃ bk, i.buckets[b]? = some bk ∧ j = i.setBucket b
        { bk with objects := bk.objects.insert k (putVersion bk bk.objects[k]? ⟨m, false⟩) } := by
  unfold put
  cases validKey k with
  | error e => simp
  | ok u =>
    cases validateUserMetadata m.metadata with
    | error e => simp
    | ok u =>
      dsimp only
      cases hb : i.bucket b with
      | error e => simp [bucket_eq_error hb]
      | ok bk => simp [bucket_eq_ok.mp hb, eq_comm]

theorem put_schema : (i.put b k m).2.schema = i.schema := by
  unfold put
  grind [schema_setBucket]

/-- After a put, the key's history ends in the new version. -/
theorem history_put (b' k' : String) (h : i.put b k m = (.ok (), j)) :
    ∃ bk, i.buckets[b]? = some bk ∧
      j.history b' k' = if b = b' ∧ k = k' then
        some (putVersion bk (i.history b k) ⟨m, false⟩) else i.history b' k' := by
  obtain ⟨-, -, bk, hbk, rfl⟩ := put_eq_ok.mp h
  refine ⟨bk, hbk, ?_⟩
  rw [history_setBucket, history_of_bucket hbk]
  by_cases hb : b = b'
  · subst hb
    rw [if_pos rfl, get_insert, history_of_bucket hbk]
    by_cases hk : k = k'
    · rw [if_pos hk, if_pos ⟨rfl, hk⟩]
    · rw [if_neg hk, if_neg fun h => hk h.2]
  · rw [if_neg hb, if_neg fun h => hb h.1]

theorem current_putVersion {old : Option ObjectEntry} {v : ObjectVersion} :
    (putVersion bk old v).current = some v := by
  unfold putVersion ObjectEntry.current
  split <;> simp

/-- A key that was just put is live. -/
theorem head_put (h : i.put b k m = (.ok (), j)) : j.head b k = .ok m := by
  obtain ⟨bk, -, hh⟩ := history_put b k h
  rw [if_pos ⟨rfl, rfl⟩] at hh
  exact head_eq_ok.mpr ⟨_, _, hh, current_putVersion, rfl, rfl⟩

/-- On an unversioned bucket, putting a key twice is putting it once. -/
theorem put_put {j' : Index} {m' : ObjectMeta}
    (hv : ∀ bk, i.buckets[b]? = some bk → bk.versioning = false)
    (h : i.put b k m = (.ok (), j)) (h' : j.put b k m' = (.ok (), j')) :
    i.put b k m' = (.ok (), j') := by
  obtain ⟨hk, -, bk, hbk, rfl⟩ := put_eq_ok.mp h
  obtain ⟨-, hm', bk', hbk', rfl⟩ := put_eq_ok.mp h'
  rw [buckets_setBucket, if_pos rfl] at hbk'
  cases hbk'
  refine put_eq_ok.mpr ⟨hk, hm', bk, hbk, ?_⟩
  have hver := hv bk hbk
  rw [setBucket_setBucket]
  unfold putVersion
  simp only [hver, Bool.false_eq_true, if_false, insert_insert]

/-! ## Which versions are live -/

/-- `m` is the metadata of a version, not a delete marker, of some key. -/
def Live (i : Index) (m : ObjectMeta) : Prop :=
  ∃ (b k : String) (entry : ObjectEntry) (v : ObjectVersion), i.history b k = some entry ∧
    v ∈ entry.versions ∧ v.isDeleteMarker = false ∧ v.meta = m

theorem live_head (h : i.head b k = .ok m) : i.Live m := by
  obtain ⟨entry, v, hh, hc, hd, hm⟩ := head_eq_ok.mp h
  exact ⟨b, k, entry, v, hh, List.mem_of_getLast? hc, hd, hm⟩

end Index

end CeStorage
