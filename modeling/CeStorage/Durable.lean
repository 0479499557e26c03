import CeStorage.Index.Versions
import CeStorage.Store.Spec

/-!
# How long a version lasts

`IndexOp` is an operation of the index: one edit, or one sweep of a bucket. A
version that was put stays retrievable through a run of them exactly as long as
each step `Keeps` it: no put, copy, delete or sweep reaches its key while the
bucket's versioning is off, and no step gives its id to something else
(`version_durable_iff`). `set_versioning` promises to keep history intact; that a
suspended bucket does not is `suspended_delete_loses_version`.
-/

namespace CeStorage

open Lib
open Std (ExtTreeMap)

namespace Index

variable {i : Index} {b k : String} {m m' : ObjectMeta} {t : Nat}

/-! ## Sweeps -/

/-- What `sweep_expired` makes of the index. -/
def sweep (self : Index) (name : String) (now : Nat) : Index :=
  self.deleteAll name now ((self.expiredKeys name now).toOption.getD [])

/-- The key is one that a sweep deletes. -/
def Expired (i : Index) (b k : String) (t : Nat) : Prop :=
  ∃ keys, i.expiredKeys b t = .ok keys ∧ k ∈ keys

theorem expired_iff : i.Expired b k t ↔ k ∈ (i.expiredKeys b t).toOption.getD [] := by
  unfold Expired
  cases i.expiredKeys b t with
  | error e => exact iff_of_false (fun ⟨_, h, _⟩ => nomatch h) List.not_mem_nil
  | ok keys => exact ⟨fun ⟨_, h, hk⟩ => by cases h; exact hk, fun hk => ⟨keys, rfl, hk⟩⟩

theorem history_deleteAll {on : Bool} (keys : List String) (h : i.isVersioned b = .ok on) :
    (i.deleteAll b t keys).history b k
      = if k ∈ keys then deleteHistory on t (i.history b k) else i.history b k := by
  induction keys generalizing i with
  | nil => exact (if_neg List.not_mem_nil).symm
  | cons k' ks ih =>
    have hflag : (i.delete b k' t).2.isVersioned b = .ok on := by
      rw [isVersioned_delete]
      exact h
    show ((i.delete b k' t).2.deleteAll b t ks).history b k = _
    rw [ih hflag]
    by_cases hk : k' = k
    · subst hk
      rw [history_delete_self t h, if_pos List.mem_cons_self]
      -- a second delete of the key changes nothing
      split
      · exact deleteHistory_deleteHistory _ _ _ _
      · rfl
    · have hmem : k ∈ k' :: ks ↔ k ∈ ks := by
        rw [List.mem_cons]
        exact ⟨fun h => h.resolve_left (Ne.symm hk), .inr⟩
      rw [history_delete t fun h => hk h.2]
      simp only [hmem]

theorem history_deleteAll_other {b' : String} (keys : List String) (h : b' ≠ b) :
    (i.deleteAll b' t keys).history b k = i.history b k := by
  induction keys generalizing i with
  | nil => rfl
  | cons k' ks ih =>
    show ((i.delete b' k' t).2.deleteAll b' t ks).history b k = _
    rw [ih]
    exact history_delete t fun h' => h h'.1

end Index

/-! ## Runs -/

/-- An operation of the index. -/
inductive IndexOp where
  | edit (e : IndexEdit)
  | sweep (name : String) (now : Nat)

namespace IndexOp

def apply : IndexOp → Index → Index
  | edit e, i => e.apply i
  | sweep b t, i => i.sweep b t

def fire (op : IndexOp) (i : Index) : Option Index := some (op.apply i)

/-- The operation deletes the version by its id, or removes the bucket. -/
def Ends (i : Index) (b k id : String) : IndexOp → Prop
  | edit (.deleteVersion b' k' id') => b' = b ∧ k' = k ∧ id' = id
  | edit (.removeBucket b' force) => b' = b ∧ (i.removeBucket b' force).1 = .ok ()
  | _ => False

end IndexOp

namespace Index

/-- A put of `m'` on the key of `m` leaves `m` retrievable: it is `m` again, or the
bucket is versioned and `m'` has an id of its own. -/
def PutKeeps (i : Index) (b k : String) (m m' : ObjectMeta) : Prop :=
  validKey k = .ok () → validateUserMetadata m'.metadata = .ok () →
    m' = m ∨ i.isVersioned b = .ok true ∧ m'.versionId ≠ m.versionId

/-- A delete of the key of `m` leaves `m` retrievable: the bucket is versioned, and
the marker, if there is one, has an id of its own. -/
def DeleteKeeps (i : Index) (b k : String) (m : ObjectMeta) (t : Nat) : Prop :=
  i.isVersioned b = .ok true ∧ (i.Bound b k → (deleteMarker t).meta.versionId ≠ m.versionId)

end Index

/-- The operation leaves the version `m` of a key retrievable. -/
def IndexOp.Keeps (i : Index) (b k : String) (m : ObjectMeta) : IndexOp → Prop
  | .edit (.put b' k' m') => b' = b → k' = k → i.PutKeeps b k m m'
  | .edit (.copy sb sk b' k' t) => b' = b → k' = k →
      ∀ m', i.head sb sk = .ok m' → i.PutKeeps b k m { m' with lastModified := t }
  | .edit (.delete b' k' t) => b' = b → k' = k → i.DeleteKeeps b k m t
  | .sweep b' t => b' = b → i.Expired b k t → i.DeleteKeeps b k m t
  | .edit _ => True

namespace Index

variable {i : Index} {b k : String} {m m' : ObjectMeta} {t : Nat}

/-! ## One step -/

theorem headVersion_of_history {j : Index} (h : j.history b k = i.history b k) :
    j.headVersion b k m.versionId = .ok m ↔ i.headVersion b k m.versionId = .ok m := by
  rw [headVersion_iff_names, headVersion_iff_names, h]

theorem names_putVersion {bk : Bucket} {entry : ObjectEntry} (h : entry.Names m) :
    (putVersion bk (some entry) ⟨m', false⟩).Names m ↔
      m' = m ∨ bk.versioning = true ∧ m'.versionId ≠ m.versionId := by
  unfold putVersion
  cases bk.versioning with
  | true =>
    rw [if_pos rfl, Option.getD_some, ObjectEntry.names_append]
    by_cases hid : m'.versionId = m.versionId
    · rw [if_pos hid]
      exact ⟨fun hm => .inl hm.2, fun hm => ⟨rfl, hm.resolve_right fun hne => hne.2 hid⟩⟩
    · rw [if_neg hid]
      exact iff_of_true h (.inr ⟨rfl, hid⟩)
  | false =>
    rw [if_neg Bool.false_ne_true, ← List.nil_append [(⟨m', false⟩ : ObjectVersion)],
      ObjectEntry.names_append]
    constructor
    · intro hm
      split at hm
      · exact .inl hm.2
      · exact absurd hm ObjectEntry.not_names_nil
    · rintro (rfl | hne)
      · rw [if_pos rfl]
        exact ⟨rfl, rfl⟩
      · exact nomatch hne.1

theorem headVersion_put (h : i.headVersion b k m.versionId = .ok m) :
    (i.put b k m').2.headVersion b k m.versionId = .ok m ↔ i.PutKeeps b k m m' := by
  obtain ⟨entry, hh, hnames⟩ := headVersion_iff_names.mp h
  obtain ⟨bk, hb⟩ := bucket_of_history hh
  by_cases hvalid : validKey k = .ok () ∧ validateUserMetadata m'.metadata = .ok ()
  · obtain ⟨hk, hm'⟩ := hvalid
    have hon : i.isVersioned b = .ok bk.versioning := isVersioned_eq_ok.mpr ⟨bk, hb, rfl⟩
    rw [headVersion_iff_names, history_put_self hk hm' hb, hh]
    simp only [Option.some.injEq, exists_eq_left', names_putVersion hnames]
    unfold PutKeeps
    rw [hon, Except.ok.injEq]
    exact ⟨fun hm _ _ => hm, fun hm => hm hk hm'⟩
  · -- a put that is refused
    have hsame : (i.put b k m').2 = i := by
      unfold put
      grind
    rw [hsame]
    exact iff_of_true h fun hk hm' => absurd ⟨hk, hm'⟩ hvalid

theorem names_markDeleted {entry : ObjectEntry} (h : entry.Names m) :
    (markDeleted t entry).Names m ↔ ((entry.current.any fun v => !v.isDeleteMarker) = true →
      (deleteMarker t).meta.versionId ≠ m.versionId) := by
  unfold markDeleted
  by_cases hlive : (entry.current.any fun v => !v.isDeleteMarker) = true
  · rw [if_pos hlive, ObjectEntry.names_append]
    by_cases hid : (deleteMarker t).meta.versionId = m.versionId
    · rw [if_pos hid]
      exact iff_of_false (fun hm => nomatch hm.1) fun hne => hne hlive hid
    · rw [if_neg hid]
      exact iff_of_true h fun _ => hid
  · rw [if_neg hlive]
    exact iff_of_true h fun hl => absurd hl hlive

theorem bound_iff_live {entry : ObjectEntry} (h : i.history b k = some entry) :
    i.Bound b k ↔ (entry.current.any fun v => !v.isDeleteMarker) = true := by
  rw [Option.any_eq_true]
  constructor
  · rintro ⟨m, hm⟩
    obtain ⟨entry', v, hh, hcur, hv, -⟩ := head_eq_ok.mp hm
    rw [h] at hh
    cases hh
    exact ⟨v, hcur, by rw [hv]; rfl⟩
  · rintro ⟨v, hcur, hv⟩
    exact ⟨v.meta, head_eq_ok.mpr ⟨entry, v, h, hcur, by simpa using hv, rfl⟩⟩

theorem headVersion_deleted {j : Index} {on : Bool} (hon : i.isVersioned b = .ok on)
    (hj : j.history b k = deleteHistory on t (i.history b k))
    (h : i.headVersion b k m.versionId = .ok m) :
    j.headVersion b k m.versionId = .ok m ↔ i.DeleteKeeps b k m t := by
  obtain ⟨entry, hh, hnames⟩ := headVersion_iff_names.mp h
  unfold DeleteKeeps
  rw [headVersion_iff_names, hj, hh, hon, Except.ok.injEq, bound_iff_live hh]
  unfold deleteHistory
  cases on with
  | false => exact iff_of_false (fun ⟨_, hnone, _⟩ => nomatch hnone) fun hon => nomatch hon.1
  | true =>
    rw [if_pos rfl, Option.map_some]
    simp only [Option.some.injEq, exists_eq_left', names_markDeleted hnames, true_and]

theorem headVersion_deleteVersion {id : String} (hid : id ≠ m.versionId)
    (h : i.headVersion b k m.versionId = .ok m) :
    (i.deleteVersion b k id).2.headVersion b k m.versionId = .ok m := by
  obtain ⟨entry, hh, hnames⟩ := headVersion_iff_names.mp h
  obtain ⟨bk, hb⟩ := bucket_of_history hh
  have hkept := (ObjectEntry.names_filter hid).mpr hnames
  rw [headVersion_iff_names, history_deleteVersion_self hb, hh]
  unfold deleteVersionHistory
  rw [Option.bind_some]
  dsimp only
  split
  next hempty =>
    rw [List.isEmpty_iff.mp hempty] at hkept
    exact absurd hkept ObjectEntry.not_names_nil
  next => exact ⟨_, rfl, hkept⟩

/-- A step that does not end a version keeps it exactly if it `Keeps` it. -/
theorem headVersion_apply {op : IndexOp} (hends : ¬op.Ends i b k m.versionId)
    (h : i.headVersion b k m.versionId = .ok m) :
    (op.apply i).headVersion b k m.versionId = .ok m ↔ op.Keeps i b k m := by
  obtain ⟨entry, hh, -⟩ := headVersion_iff_names.mp h
  obtain ⟨bk, hb⟩ := bucket_of_history hh
  have hon : i.isVersioned b = .ok bk.versioning := isVersioned_eq_ok.mpr ⟨bk, hb, rfl⟩
  have same : ∀ {j : Index}, j.history b k = i.history b k →
      j.headVersion b k m.versionId = .ok m := fun hj => (headVersion_of_history hj).mpr h
  cases op with
  | edit e =>
    have untouched : ¬e.Touches b k → (e.apply i).headVersion b k m.versionId = .ok m :=
      fun ht => same (history_apply ht)
    cases e with
    | makeBucket b' t => exact iff_of_true (untouched id) trivial
    | setVersioning b' on => exact iff_of_true (untouched id) trivial
    | setLifecycle b' rules => exact iff_of_true (untouched id) trivial
    | removeBucket b' force =>
      refine iff_of_true ?_ trivial
      by_cases hbb : b' = b
      · -- a removal that fails
        have hsame : (i.removeBucket b' force).2 = i := by
          have hfail : (i.removeBucket b' force).1 ≠ .ok () := fun hok => hends ⟨hbb, hok⟩
          unfold removeBucket at hfail ⊢
          grind
        exact same (congrArg (fun j => j.history b k) hsame)
      · exact untouched hbb
    | put b' k' m' =>
      by_cases hbk : b' = b ∧ k' = k
      · obtain ⟨rfl, rfl⟩ := hbk
        rw [show IndexOp.Keeps i b' k' m (.edit (.put b' k' m')) ↔ i.PutKeeps b' k' m m' from
          ⟨fun hkeep => hkeep rfl rfl, fun hkeep _ _ => hkeep⟩]
        exact headVersion_put h
      · exact iff_of_true (untouched hbk) fun hb' hk' => absurd ⟨hb', hk'⟩ hbk
    | copy sb sk b' k' t =>
      by_cases hbk : b' = b ∧ k' = k
      · obtain ⟨rfl, rfl⟩ := hbk
        show (i.copy sb sk b' k' t).2.headVersion b' k' m.versionId = .ok m ↔ (_ → _ → _)
        unfold copy
        cases hs : i.head sb sk with
        | error e => exact iff_of_true h fun _ _ m' hm' => by cases hm'
        | ok src =>
          rw [headVersion_put h]
          exact ⟨fun hkeep _ _ m' hm' => by cases hm'; exact hkeep,
            fun hkeep => hkeep rfl rfl src rfl⟩
      · exact iff_of_true (untouched hbk) fun hb' hk' => absurd ⟨hb', hk'⟩ hbk
    | delete b' k' t =>
      by_cases hbk : b' = b ∧ k' = k
      · obtain ⟨rfl, rfl⟩ := hbk
        have hone := headVersion_deleted hon (history_delete_self (k := k') t hon) h
        exact hone.trans ⟨fun hkeep _ _ => hkeep, fun hkeep => hkeep rfl rfl⟩
      · exact iff_of_true (untouched hbk) fun hb' hk' => absurd ⟨hb', hk'⟩ hbk
    | deleteVersion b' k' id' =>
      refine iff_of_true ?_ trivial
      by_cases hbk : b' = b ∧ k' = k
      · obtain ⟨rfl, rfl⟩ := hbk
        exact headVersion_deleteVersion (fun hid => hends ⟨rfl, rfl, hid⟩) h
      · exact untouched hbk
  | sweep b' t =>
    by_cases hbb : b' = b
    · subst hbb
      show (i.sweep b' t).headVersion b' k m.versionId = .ok m ↔ (_ → _ → _)
      have hsweep : (i.sweep b' t).history b' k = _ := history_deleteAll _ hon
      by_cases hmem : k ∈ (i.expiredKeys b' t).toOption.getD []
      · rw [if_pos hmem] at hsweep
        have hexp : i.Expired b' k t := expired_iff.mpr hmem
        exact (headVersion_deleted hon hsweep h).trans
          ⟨fun hkeep _ _ => hkeep, fun hkeep => hkeep rfl hexp⟩
      · rw [if_neg hmem] at hsweep
        exact iff_of_true (same hsweep) fun _ hexp => absurd (expired_iff.mp hexp) hmem
    · exact iff_of_true (same (history_deleteAll_other _ hbb)) fun hb' => absurd hb' hbb

/-! ## Whole runs -/

/-- A version that was put stays retrievable by its id throughout a run that does not
end it, if and only if every step of the run `Keeps` it. -/
theorem version_durable_iff (i : Index) (b k : String) (m : ObjectMeta)
    (hput : (i.put b k m).1 = .ok ()) (ops : List IndexOp)
    (hends : Along IndexOp.fire (fun j op => ¬op.Ends j b k m.versionId) ops (i.put b k m).2) :
    Throughout IndexOp.fire (fun j => j.headVersion b k m.versionId = .ok m) ops
        (i.put b k m).2 ↔
      Along IndexOp.fire (fun j op => op.Keeps j b k m) ops (i.put b k m).2 := by
  have hstart : (i.put b k m).2.headVersion b k m.versionId = .ok m := by
    obtain ⟨hk, hm, bk, hb, -⟩ := put_eq_ok.mp (Prod.ext hput rfl : i.put b k m = (.ok (), _))
    refine headVersion_iff_names.mpr ⟨_, history_put_self hk hm hb, ?_⟩
    unfold putVersion
    split
    · exact ObjectEntry.names_append.mpr (by rw [if_pos rfl]; exact ⟨rfl, rfl⟩)
    · rw [← List.nil_append [(⟨m, false⟩ : ObjectVersion)]]
      exact ObjectEntry.names_append.mpr (by rw [if_pos rfl]; exact ⟨rfl, rfl⟩)
  refine throughout_iff_along (fun j op => ⟨_, rfl⟩) ?_ hstart hends
  intro j op j' hok hf hq
  cases hf
  exact headVersion_apply hok hq

private def draft : ObjectMeta := ObjectMeta.new "draft" 5 "" 0

private def album : Index :=
  ((Index.empty.makeBucket "photos" 0).2.setVersioning "photos" true).2

/-- Suspending versioning and deleting the key loses the version. -/
theorem suspended_delete_loses_version : ¬∀ (i : Index) (b k : String) (m : ObjectMeta),
    i.isVersioned b = .ok true → (i.put b k m).1 = .ok () → ∀ ops : List IndexOp,
      Along IndexOp.fire (fun j op => ¬op.Ends j b k m.versionId) ops (i.put b k m).2 →
      Throughout IndexOp.fire (fun j => j.headVersion b k m.versionId = .ok m) ops
        (i.put b k m).2 := by
  intro h
  have hrun := h album "photos" "cat" draft rfl rfl
    [.edit (.setVersioning "photos" false), .edit (.delete "photos" "cat" 9)]
    ⟨id, fun _ _ => ⟨id, fun _ _ => trivial⟩⟩
  have hlost : (((album.put "photos" "cat" draft).2.setVersioning "photos" false).2.delete
      "photos" "cat" 9).2.headVersion "photos" "cat" "draft" = .ok draft :=
    (hrun.2 _ rfl).2 _ rfl
  exact absurd hlost (by decide)

theorem version_durable_iff_album : (album.put "photos" "cat" draft).1 = .ok () ∧
    Throughout IndexOp.fire (fun j => j.headVersion "photos" "cat" draft.versionId = .ok draft)
      [.edit (.put "photos" "cat" (ObjectMeta.new "final" 5 "" 1)),
        .edit (.delete "photos" "cat" 2), .edit (.setVersioning "photos" false)]
      (album.put "photos" "cat" draft).2 := by
  have hput : (album.put "photos" "cat" draft).1 = .ok () := rfl
  refine ⟨hput, (version_durable_iff album "photos" "cat" draft hput _ ?_).mpr ?_⟩
  · exact ⟨id, fun _ _ => ⟨id, fun _ _ => ⟨id, fun _ _ => trivial⟩⟩⟩
  · refine ⟨fun _ _ _ _ => .inr ⟨rfl, by decide⟩, ?_⟩
    intro j hj
    cases hj
    refine ⟨fun _ _ => ⟨rfl, fun _ => by decide⟩, ?_⟩
    intro j hj
    cases hj
    exact ⟨trivial, fun _ _ => trivial⟩

end Index

end CeStorage
