import CeStorage.Index.List
import CeStorage.Index.Lemmas

/-!
# Indexes that differ in one object

`SameBut b k` relates two indexes that may differ in the history of one key and
in nothing else. Whatever asks for another key, or only whether a bucket is
there, is answered alike on both; that is what it means not to depend on the
object.
-/

namespace CeStorage

open Lib
open Std (ExtTreeMap)

/-- What a bucket is without its objects. -/
def Bucket.frame (self : Bucket) : Bucket := { self with objects := ∅ }

namespace Index

/-- The same buckets with the same settings, and the same objects but for `k` in
`b`. -/
structure SameBut (b k : String) (i j : Index) : Prop where
  schema : i.schema = j.schema
  frame : ∀ b' : String, (i.buckets[b']?).map Bucket.frame = (j.buckets[b']?).map Bucket.frame
  history : ∀ b' k' : String, ¬(b' = b ∧ k' = k) → i.history b' k' = j.history b' k'

variable {i j : Index} {b k b' k' : String}

theorem SameBut.refl (b k : String) (i : Index) : SameBut b k i i :=
  ⟨rfl, fun _ => rfl, fun _ _ _ => rfl⟩

theorem SameBut.isSome (h : SameBut b k i j) (b' : String) :
    (i.buckets[b']?).isSome = (j.buckets[b']?).isSome := by
  have hb := congrArg Option.isSome (h.frame b')
  rw [Option.isSome_map, Option.isSome_map] at hb
  exact hb

theorem SameBut.contains (h : SameBut b k i j) (b' : String) :
    i.buckets.contains b' = j.buckets.contains b' := by
  rw [ExtTreeMap.contains_eq_isSome_getElem?, ExtTreeMap.contains_eq_isSome_getElem?]
  exact h.isSome b'

/-- A bucket is there in both, or in neither. -/
theorem SameBut.bucket_cases (h : SameBut b k i j) (b' : String) :
    (∃ e, i.bucket b' = .error e ∧ j.bucket b' = .error e) ∨
      ∃ bk bk', i.bucket b' = .ok bk ∧ j.bucket b' = .ok bk' := by
  have hb := h.isSome b'
  unfold bucket
  cases hi : i.buckets[b']? with
  | none =>
    cases hj : j.buckets[b']? with
    | none => exact .inl ⟨_, rfl, rfl⟩
    | some bk => rw [hi, hj] at hb; exact nomatch hb
  | some bk =>
    cases hj : j.buckets[b']? with
    | none => rw [hi, hj] at hb; exact nomatch hb
    | some bk' => exact .inr ⟨bk, bk', rfl, rfl⟩

/-- Whether a bucket is there. -/
theorem SameBut.bucket_unit (h : SameBut b k i j) (b' : String) :
    (i.bucket b').map (fun _ => ()) = (j.bucket b').map fun _ => () := by
  rcases h.bucket_cases b' with ⟨e, hi, hj⟩ | ⟨bk, bk', hi, hj⟩
  · rw [hi, hj]
  · rw [hi, hj]; rfl

/-- The names of the buckets. -/
theorem SameBut.listBuckets (h : SameBut b k i j) : i.listBuckets = j.listBuckets := by
  have hmap : i.buckets.map (fun _ => Bucket.frame) = j.buckets.map fun _ => Bucket.frame := by
    refine ExtTreeMap.ext_getElem? ?_
    intro c
    rw [ExtTreeMap.getElem?_map, ExtTreeMap.getElem?_map]
    exact h.frame c
  have hkeys := congrArg ExtTreeMap.keys hmap
  rw [ExtTreeMap.keys_map, ExtTreeMap.keys_map] at hkeys
  exact hkeys

/-- Another bucket is the same as a whole. -/
theorem SameBut.bucket (h : SameBut b k i j) (hb : b' ≠ b) : i.bucket b' = j.bucket b' := by
  have hframe := h.frame b'
  have hobjects : ∀ c, i.history b' c = j.history b' c := fun c => h.history b' c fun e => hb e.1
  unfold Index.bucket
  cases hi : i.buckets[b']? with
  | none =>
    cases hj : j.buckets[b']? with
    | none => rfl
    | some bk => rw [hi, hj] at hframe; exact nomatch hframe
  | some bk =>
    cases hj : j.buckets[b']? with
    | none => rw [hi, hj] at hframe; exact nomatch hframe
    | some bk' =>
      rw [hi, hj] at hframe
      have hmap : bk.objects = bk'.objects := by
        refine ExtTreeMap.ext_getElem? ?_
        intro c
        rw [← history_of_bucket hi, ← history_of_bucket hj]
        exact hobjects c
      have hrest : bk.frame = bk'.frame := Option.some.inj hframe
      have hbk : bk = bk' := by
        cases bk
        cases bk'
        unfold Bucket.frame at hrest
        grind
      rw [hbk]

/-- A bucket that differs in one key. -/
theorem sameBut_setBucket {bk bk' : Bucket} (hb : i.buckets[b]? = some bk)
    (hframe : bk'.frame = bk.frame)
    (hobjects : ∀ k', k' ≠ k → bk'.objects[k']? = bk.objects[k']?) :
    SameBut b k i (i.setBucket b bk') := by
  refine ⟨rfl, ?_, ?_⟩
  · intro b'
    rw [buckets_setBucket]
    by_cases h : b = b'
    · rw [if_pos h, ← h, hb, Option.map_some, Option.map_some, hframe]
    · rw [if_neg h]
  · intro b' k' hne
    rw [history_setBucket]
    by_cases h : b = b'
    · rw [if_pos h, ← h, history_of_bucket hb, hobjects k' fun hk => hne ⟨h.symm, hk⟩]
    · rw [if_neg h]

/-! ## What does not depend on the object -/

theorem SameBut.entry (h : SameBut b k i j) (hne : ¬(b' = b ∧ k' = k)) :
    i.entry b' k' = j.entry b' k' := by
  have hk := h.history b' k' hne
  unfold Index.entry
  rcases h.bucket_cases b' with ⟨e, hi, hj⟩ | ⟨bk, bk', hi, hj⟩
  · rw [hi, hj]
  · rw [history_of_bucket (bucket_eq_ok.mp hi), history_of_bucket (bucket_eq_ok.mp hj)] at hk
    rw [hi, hj]
    dsimp only
    rw [hk]

theorem SameBut.head (h : SameBut b k i j) (hne : ¬(b' = b ∧ k' = k)) :
    i.head b' k' = j.head b' k' := by
  unfold Index.head
  rw [h.entry hne]

theorem SameBut.headVersion (h : SameBut b k i j) (hne : ¬(b' = b ∧ k' = k)) (v : String) :
    i.headVersion b' k' v = j.headVersion b' k' v := by
  unfold Index.headVersion
  rw [h.entry hne]

theorem SameBut.list (h : SameBut b k i j) (hb : b' ≠ b) (keyPrefix : String)
    (delimiter startAfter : Option String) (maxKeys : Nat) :
    i.list b' keyPrefix delimiter startAfter maxKeys
      = j.list b' keyPrefix delimiter startAfter maxKeys := by
  unfold Index.list
  rw [h.bucket hb]

/-! ## Whether an edit succeeds -/

theorem SameBut.makeBucket (h : SameBut b k i j) (b' : String) (t : Nat) :
    (i.makeBucket b' t).1 = (j.makeBucket b' t).1 := by
  unfold Index.makeBucket
  rw [h.contains b']
  cases validBucketName b' with
  | error e => rfl
  | ok u => dsimp only; split <;> rfl

/-- A removal counts the objects of the bucket. -/
theorem SameBut.removeBucket (h : SameBut b k i j) (hb : b' ≠ b) (force : Bool) :
    (i.removeBucket b' force).1 = (j.removeBucket b' force).1 := by
  unfold Index.removeBucket
  rw [h.bucket hb]
  cases j.bucket b' with
  | error e => rfl
  | ok bk => dsimp only; split <;> rfl

theorem SameBut.setVersioning (h : SameBut b k i j) (b' : String) (on : Bool) :
    (i.setVersioning b' on).1 = (j.setVersioning b' on).1 := by
  unfold Index.setVersioning
  rcases h.bucket_cases b' with ⟨e, hi, hj⟩ | ⟨bk, bk', hi, hj⟩
  · rw [hi, hj]
  · rw [hi, hj]

theorem SameBut.setLifecycle (h : SameBut b k i j) (b' : String) (rules : List LifecycleRule) :
    (i.setLifecycle b' rules).1 = (j.setLifecycle b' rules).1 := by
  unfold Index.setLifecycle
  cases validateLifecycle rules with
  | error e => rfl
  | ok u =>
    rcases h.bucket_cases b' with ⟨e, hi, hj⟩ | ⟨bk, bk', hi, hj⟩
    · rw [hi, hj]
    · rw [hi, hj]

theorem SameBut.delete (h : SameBut b k i j) (b' k' : String) (t : Nat) :
    (i.delete b' k' t).1 = (j.delete b' k' t).1 := by
  unfold Index.delete
  rcases h.bucket_cases b' with ⟨e, hi, hj⟩ | ⟨bk, bk', hi, hj⟩
  · rw [hi, hj]
  · rw [hi, hj]

theorem SameBut.deleteVersion (h : SameBut b k i j) (b' k' v : String) :
    (i.deleteVersion b' k' v).1 = (j.deleteVersion b' k' v).1 := by
  unfold Index.deleteVersion
  rcases h.bucket_cases b' with ⟨e, hi, hj⟩ | ⟨bk, bk', hi, hj⟩
  · rw [hi, hj]
  · rw [hi, hj]

theorem SameBut.put (h : SameBut b k i j) (b' k' : String) (m : ObjectMeta) :
    (i.put b' k' m).1 = (j.put b' k' m).1 := by
  unfold Index.put
  cases validKey k' with
  | error e => rfl
  | ok u =>
    cases validateUserMetadata m.metadata with
    | error e => rfl
    | ok u =>
      rcases h.bucket_cases b' with ⟨e, hi, hj⟩ | ⟨bk, bk', hi, hj⟩
      · rw [hi, hj]
      · rw [hi, hj]

/-- A copy depends on its source. -/
theorem SameBut.copy (h : SameBut b k i j) {sb sk : String} (hne : ¬(sb = b ∧ sk = k))
    (b' k' : String) (t : Nat) : (i.copy sb sk b' k' t).1 = (j.copy sb sk b' k' t).1 := by
  unfold Index.copy
  rw [h.head hne]
  cases j.head sb sk with
  | error e => rfl
  | ok m => exact h.put b' k' _

end Index

end CeStorage
