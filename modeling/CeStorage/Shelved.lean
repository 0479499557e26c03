import CeStorage.Contents
import CeStorage.Lib.Shelves
import CeStorage.Sweep

/-!
# The index and the shelves

What the index file says is the state of versioned shelves (`Reflects`): the
buckets are the shelves, and the versions of a key, one for one, are contents
whose bytes are stored or marks of a deletion. A read of the index is a read of
the shelves, and an edit of the index that succeeds is the act of its kind on
them.
-/

namespace CeStorage

open Lib
open Std (ExtTreeMap)

variable {ce : CeRs} {w w' : World} {i j : Index} {b k b' k' : String}

/-- The shelves of a store: by bucket name and key, with contents. -/
abbrev Shelving := Shelves String String Bytes

abbrev ShelvingAct := ShelfAct String String Bytes String

/-- The id of a version. -/
def versionName (ce : CeRs) : Slot Bytes → String
  | .content bytes => ce.objectCid bytes
  | .mark t => s!"delete-marker-{t}"

/-! ## Versions and slots -/

/-- What a version of the index shows of the shelves. -/
inductive Shows (ce : CeRs) (w : World) : ObjectVersion → Slot Bytes → Prop
  | content {m : ObjectMeta} {bytes : Bytes} (h : ContentOf ce w m bytes) :
    Shows ce w ⟨m, false⟩ (.content bytes)
  | mark (t : Nat) : Shows ce w (Index.deleteMarker t) (.mark t)

section
variable {v : ObjectVersion} {slot : Slot Bytes} {vs : List ObjectVersion}
  {slots : List (Slot Bytes)}

theorem Shows.mono (h : Shows ce w v slot) (hg : Grows w w') : Shows ce w' v slot := by
  cases h with
  | content h => exact .content (h.mono hg)
  | mark t => exact .mark t

theorem Shows.name (h : Shows ce w v slot) : v.meta.versionId = versionName ce slot := by
  cases h with
  | content h => exact h.versionId.trans h.cid
  | mark t => rfl

theorem Shows.content_iff (h : Shows ce w v slot) {bytes : Bytes} (hce : ce.Lawful) :
    slot.content? = some bytes ↔
      v.isDeleteMarker = false ∧ ContentOf ce w v.meta bytes := by
  cases h with
  | @content m bytes' h =>
    constructor
    · intro heq
      cases heq
      exact ⟨rfl, h⟩
    · rintro ⟨-, h'⟩
      -- one CID is that of one content
      rw [objectCid_injective hce (h.cid.symm.trans h'.cid)]
      rfl
  | mark t =>
    constructor
    · exact nofun
    · intro h
      cases h.1

theorem Shows.live (h : Shows ce w v slot) : (!v.isDeleteMarker) = slot.content?.isSome := by
  cases h with
  | content h => rfl
  | mark t => rfl

/-- Related lists have related first elements. -/
theorem rel_head? {α β : Type} {R : α → β → Prop} {as : List α} {bs : List β}
    (h : List.Forall₂ R as bs) : Option.Rel R as.head? bs.head? := by
  cases h with
  | nil => exact .none
  | cons h _ => exact .some h

/-- The versions of a key show its slots, one for one. -/
abbrev AllShow (ce : CeRs) (w : World) : List ObjectVersion → List (Slot Bytes) → Prop :=
  List.Forall₂ (Shows ce w)

theorem AllShow.mono (h : AllShow ce w vs slots) (hg : Grows w w') : AllShow ce w' vs slots :=
  h.imp fun _ _ hs => hs.mono hg

theorem AllShow.snoc (h : AllShow ce w vs slots) (hs : Shows ce w v slot) :
    AllShow ce w (vs ++ [v]) (slots ++ [slot]) :=
  List.rel_append h (.cons hs .nil)

theorem AllShow.purge (h : AllShow ce w vs slots) (id : String) :
    AllShow ce w (vs.filter fun v => v.meta.versionId != id)
      (slots.filter fun slot => versionName ce slot != id) := by
  refine List.rel_filter ?_ h
  intro v slot hs
  dsimp only
  rw [hs.name]

theorem AllShow.last (h : AllShow ce w vs slots) :
    Option.Rel (Shows ce w) vs.getLast? slots.getLast? := by
  rw [List.getLast?_eq_head?_reverse, List.getLast?_eq_head?_reverse]
  exact rel_head? (List.forall₂_reverse_iff.mpr h)

theorem AllShow.find (h : AllShow ce w vs slots) (id : String) :
    Option.Rel (Shows ce w) (vs.reverse.find? fun v => v.meta.versionId == id)
      (slots.reverse.find? fun slot => versionName ce slot == id) := by
  rw [← List.head?_filter, ← List.head?_filter]
  refine rel_head? (List.rel_filter ?_ (List.forall₂_reverse_iff.mpr h))
  intro v slot hs
  dsimp only
  rw [hs.name]

/-- The live one of two related versions has the content of the slot. -/
theorem content_of_rel {v? : Option ObjectVersion} {slot? : Option (Slot Bytes)}
    (h : Option.Rel (Shows ce w) v? slot?) (hce : ce.Lawful) {bytes : Bytes} :
    slot?.bind Slot.content? = some bytes ↔
      ∃ v, v? = some v ∧ v.isDeleteMarker = false ∧ ContentOf ce w v.meta bytes := by
  cases h with
  | none =>
    constructor
    · exact nofun
    · rintro ⟨v, hv, -⟩
      cases hv
  | some hs =>
    rw [Option.bind_some, hs.content_iff hce]
    constructor
    · intro hc
      exact ⟨_, rfl, hc⟩
    · rintro ⟨v, hv, hc⟩
      cases hv
      exact hc

/-- A live version has a content, and the slot has it too. -/
theorem content_of_live {slot? : Option (Slot Bytes)}
    (h : Option.Rel (Shows ce w) (some v) slot?) (hlive : v.isDeleteMarker = false) :
    ∃ bytes, ContentOf ce w v.meta bytes ∧ slot?.bind Slot.content? = some bytes := by
  cases h with
  | some hs =>
    cases hs with
    | content hc => exact ⟨_, hc, rfl⟩
    | mark t => exact nomatch hlive

theorem AllShow.live (h : AllShow ce w vs slots) :
    (vs.getLast?.any fun v => !v.isDeleteMarker) = (Slot.current slots).isSome := by
  have hlast := h.last
  unfold Slot.current
  generalize vs.getLast? = v? at hlast ⊢
  generalize slots.getLast? = slot? at hlast ⊢
  cases hlast with
  | none => rfl
  | some hs => exact hs.live

/-- The live versions have the contents, newest first. -/
theorem AllShow.contents (h : AllShow ce w vs slots) :
    List.Forall₂ (ContentOf ce w) ((vs.reverse.filter fun v => !v.isDeleteMarker).map (·.meta))
      (Slot.contents slots) := by
  unfold Slot.contents
  have hrev := List.forall₂_reverse_iff.mpr h
  generalize vs.reverse = vs' at hrev
  generalize slots.reverse = slots' at hrev
  induction hrev with
  | nil => exact .nil
  | cons hs _ ih =>
    cases hs with
    | content hc => exact .cons hc ih
    | mark t => exact ih

end

/-! ## The index and the shelves -/

namespace Index

/-- The versions of a key, oldest first. -/
def versionsOf (i : Index) (b k : String) : List ObjectVersion :=
  ((i.history b k).getD ⟨[]⟩).versions

variable {m : ObjectMeta} {id : String}

theorem versionsOf_eq {entry : ObjectEntry} (h : i.history b k = some entry) :
    i.versionsOf b k = entry.versions := by
  unfold versionsOf
  rw [h]
  rfl

theorem head_iff_last : i.head b k = .ok m ↔
    ∃ v, (i.versionsOf b k).getLast? = some v ∧ v.isDeleteMarker = false ∧ v.meta = m := by
  rw [head_eq_ok]
  constructor
  · rintro ⟨entry, v, hentry, hv⟩
    rw [versionsOf_eq hentry]
    exact ⟨v, hv⟩
  · rintro ⟨v, hlast, hv⟩
    cases hentry : i.history b k with
    | none =>
      unfold versionsOf at hlast
      rw [hentry] at hlast
      exact nomatch hlast
    | some entry =>
      rw [versionsOf_eq hentry] at hlast
      exact ⟨entry, v, rfl, hlast, hv⟩

theorem headVersion_iff_find : i.headVersion b k id = .ok m ↔
    ∃ v, (i.versionsOf b k).reverse.find? (fun v => v.meta.versionId == id) = some v ∧
      v.isDeleteMarker = false ∧ v.meta = m := by
  rw [headVersion_eq_ok]
  constructor
  · rintro ⟨entry, v, hentry, hv⟩
    rw [versionsOf_eq hentry]
    exact ⟨v, hv⟩
  · rintro ⟨v, hfind, hv⟩
    cases hentry : i.history b k with
    | none =>
      unfold versionsOf at hfind
      rw [hentry] at hfind
      exact nomatch hfind
    | some entry =>
      rw [versionsOf_eq hentry] at hfind
      exact ⟨entry, v, rfl, hfind, hv⟩

theorem listVersions_ok {ms : List ObjectMeta} (h : i.listVersions b k = .ok ms) :
    ms = ((i.versionsOf b k).reverse.filter fun v => !v.isDeleteMarker).map (·.meta) := by
  unfold listVersions entry bucket at h
  unfold versionsOf history
  cases hb : i.buckets[b]? with
  | none =>
    rw [hb] at h
    exact nomatch h
  | some bk =>
    rw [hb] at h
    dsimp only at h
    rw [Option.bind_some]
    cases hk : bk.objects[k]? with
    | none =>
      rw [hk] at h
      exact nomatch h
    | some entry =>
      rw [hk] at h
      exact (Except.ok.inj h).symm

end Index

/-- The index shows what is on the shelves. -/
structure Reflects (ce : CeRs) (w : World) (i : Index) (S : Shelving) : Prop where
  shelf : ∀ b : String, (i.buckets[b]?).map (·.versioning) = (S b).map (·.versioned)
  slots : ∀ b k : String, AllShow ce w (i.versionsOf b k) (S.slotsOf b k)

variable {S S' : Shelving} {m : ObjectMeta} {bytes : Bytes} {id : String}

namespace Reflects

theorem mono (h : Reflects ce w i S) (hg : Grows w w') : Reflects ce w' i S :=
  ⟨h.shelf, fun b k => (h.slots b k).mono hg⟩

/-- The shelf of a bucket. -/
theorem shelf_of {bk : Bucket} (h : Reflects ce w i S) (hb : i.buckets[b]? = some bk) :
    ∃ shelf, S b = some shelf ∧ shelf.versioned = bk.versioning := by
  have hshelf := h.shelf b
  rw [hb] at hshelf
  obtain ⟨shelf, hs, hv⟩ := Option.map_eq_some_iff.mp hshelf.symm
  exact ⟨shelf, hs, hv⟩

theorem no_shelf (h : Reflects ce w i S) (hb : i.buckets[b]? = none) : S b = none := by
  have hshelf := h.shelf b
  rw [hb] at hshelf
  exact Option.map_eq_none_iff.mp hshelf.symm

/-! ### Reads -/

theorem isVersioned_iff (h : Reflects ce w i S) {on : Bool} :
    i.isVersioned b = .ok on ↔ ∃ shelf, S b = some shelf ∧ shelf.versioned = on := by
  rw [Index.isVersioned_eq_ok]
  constructor
  · rintro ⟨bk, hb, rfl⟩
    exact h.shelf_of hb
  · rintro ⟨shelf, hs, rfl⟩
    have hshelf := h.shelf b
    rw [hs] at hshelf
    exact Option.map_eq_some_iff.mp hshelf

/-- The current object of the index is the content of the newest slot. -/
theorem current_iff (h : Reflects ce w i S) (hce : ce.Lawful) :
    Slot.current (S.slotsOf b k) = some bytes ↔
      ∃ m, i.head b k = .ok m ∧ ContentOf ce w m bytes := by
  refine (content_of_rel (h.slots b k).last hce).trans ?_
  constructor
  · rintro ⟨v, hlast, hlive, hc⟩
    exact ⟨v.meta, Index.head_iff_last.mpr ⟨v, hlast, hlive, rfl⟩, hc⟩
  · rintro ⟨m, hm, hc⟩
    obtain ⟨v, hlast, hlive, rfl⟩ := Index.head_iff_last.mp hm
    exact ⟨v, hlast, hlive, hc⟩

theorem head_content (h : Reflects ce w i S) (hm : i.head b k = .ok m) :
    ∃ bytes, ContentOf ce w m bytes ∧ Slot.current (S.slotsOf b k) = some bytes := by
  obtain ⟨v, hlast, hlive, rfl⟩ := Index.head_iff_last.mp hm
  exact content_of_live (hlast ▸ (h.slots b k).last) hlive

/-- What a write precondition looks at. -/
theorem etag_current (h : Reflects ce w i S) (hce : ce.Lawful) :
    (i.head b k).toOption.map (·.etag) = (Slot.current (S.slotsOf b k)).map ce.objectCid := by
  cases hm : i.head b k with
  | ok m =>
    obtain ⟨bytes, hc, hcur⟩ := h.head_content hm
    rw [hcur]
    exact congrArg some (hc.etag.trans hc.cid)
  | error e =>
    cases hcur : Slot.current (S.slotsOf b k) with
    | none => rfl
    | some bytes =>
      obtain ⟨m, hok, -⟩ := (h.current_iff hce).mp hcur
      exact nomatch hm.symm.trans hok

/-- A version of the index is the content of the newest slot of its name. -/
theorem named_iff (h : Reflects ce w i S) (hce : ce.Lawful) :
    Slot.named (versionName ce) id (S.slotsOf b k) = some bytes ↔
      ∃ m, i.headVersion b k id = .ok m ∧ ContentOf ce w m bytes := by
  refine (content_of_rel ((h.slots b k).find id) hce).trans ?_
  constructor
  · rintro ⟨v, hfind, hlive, hc⟩
    exact ⟨v.meta, Index.headVersion_iff_find.mpr ⟨v, hfind, hlive, rfl⟩, hc⟩
  · rintro ⟨m, hm, hc⟩
    obtain ⟨v, hfind, hlive, rfl⟩ := Index.headVersion_iff_find.mp hm
    exact ⟨v, hfind, hlive, hc⟩

theorem headVersion_content (h : Reflects ce w i S) (hm : i.headVersion b k id = .ok m) :
    ∃ bytes, ContentOf ce w m bytes ∧
      Slot.named (versionName ce) id (S.slotsOf b k) = some bytes := by
  obtain ⟨v, hfind, hlive, rfl⟩ := Index.headVersion_iff_find.mp hm
  exact content_of_live (hfind ▸ (h.slots b k).find id) hlive

theorem listVersions_contents (h : Reflects ce w i S) {ms : List ObjectMeta}
    (hms : i.listVersions b k = .ok ms) :
    List.Forall₂ (ContentOf ce w) ms (Slot.contents (S.slotsOf b k)) := by
  rw [Index.listVersions_ok hms]
  exact (h.slots b k).contents

end Reflects

/-! ## Edits are acts -/

namespace Index

theorem versionsOf_congr (h : j.history b k = i.history b k) :
    j.versionsOf b k = i.versionsOf b k := by
  unfold versionsOf
  rw [h]

theorem versionsOf_none (h : i.history b k = none) : i.versionsOf b k = [] := by
  unfold versionsOf
  rw [h]
  rfl

theorem makeBucket_ok {t : Nat} (h : i.makeBucket b t = (.ok (), j)) :
    i.buckets[b]? = none ∧ j = i.setBucket b ⟨t, false, [], ∅⟩ := by
  unfold makeBucket at h
  cases hv : validBucketName b with
  | error e =>
    rw [hv] at h
    exact nomatch h
  | ok u =>
    rw [hv] at h
    dsimp only at h
    split at h
    · exact nomatch h
    next hb =>
      cases h
      rw [ExtTreeMap.contains_eq_isSome_getElem?] at hb
      exact ⟨by simpa using hb, rfl⟩

theorem removeBucket_ok {force : Bool} (h : i.removeBucket b force = (.ok (), j)) :
    ∃ bk, i.buckets[b]? = some bk ∧ (force = false → bk.objects.isEmpty = true) ∧
      j = { i with buckets := i.buckets.erase b } := by
  unfold removeBucket at h
  cases hb : i.bucket b with
  | error e =>
    rw [hb] at h
    exact nomatch h
  | ok bk =>
    rw [hb] at h
    dsimp only at h
    split at h
    · exact nomatch h
    next hempty =>
      cases h
      refine ⟨bk, bucket_eq_ok.mp hb, ?_, rfl⟩
      intro hf
      simpa [hf] using hempty

theorem delete_ok {t : Nat} (h : i.delete b k t = (.ok (), j)) :
    ∃ bk, i.buckets[b]? = some bk ∧ (i.delete b k t).2 = j := by
  refine (Option.isSome_iff_exists.mp ?_).imp fun bk hb => ⟨hb, congrArg Prod.snd h⟩
  cases hb : i.buckets[b]? with
  | none =>
    unfold delete bucket at h
    rw [hb] at h
    exact nomatch h
  | some bk => rfl

theorem deleteVersion_ok {id : String} (h : i.deleteVersion b k id = (.ok (), j)) :
    ∃ bk, i.buckets[b]? = some bk ∧ (i.deleteVersion b k id).2 = j := by
  refine (Option.isSome_iff_exists.mp ?_).imp fun bk hb => ⟨hb, congrArg Prod.snd h⟩
  cases hb : i.buckets[b]? with
  | none =>
    unfold deleteVersion bucket at h
    rw [hb] at h
    exact nomatch h
  | some bk => rfl

/-- Deletes in a bucket that is not there change nothing. -/
theorem deleteAll_missing {t : Nat} {keys : List String} (h : i.buckets[b]? = none) :
    i.deleteAll b t keys = i := by
  unfold deleteAll
  induction keys with
  | nil => rfl
  | cons k keys ih =>
    have hsame : (i.delete b k t).2 = i := by
      unfold delete bucket
      rw [h]
    rw [List.foldl_cons, hsame]
    exact ih

theorem setVersioning_ok {on : Bool} (h : i.setVersioning b on = (.ok (), j)) :
    ∃ bk, i.buckets[b]? = some bk ∧ j = i.setBucket b { bk with versioning := on } := by
  unfold setVersioning at h
  cases hb : i.bucket b with
  | error e =>
    rw [hb] at h
    exact nomatch h
  | ok bk =>
    rw [hb] at h
    cases h
    exact ⟨bk, bucket_eq_ok.mp hb, rfl⟩

theorem setLifecycle_ok {rules : List LifecycleRule} (h : i.setLifecycle b rules = (.ok (), j)) :
    ∃ bk, i.buckets[b]? = some bk ∧ j = i.setBucket b { bk with lifecycle := rules } := by
  unfold setLifecycle at h
  cases hv : validateLifecycle rules with
  | error e =>
    rw [hv] at h
    exact nomatch h
  | ok u =>
    rw [hv] at h
    dsimp only at h
    cases hb : i.bucket b with
    | error e =>
      rw [hb] at h
      exact nomatch h
    | ok bk =>
      rw [hb] at h
      cases h
      exact ⟨bk, bucket_eq_ok.mp hb, rfl⟩

/-- Writing a bucket back with its versioning changes that of no bucket. -/
theorem versioning_setBucket {bk bk' : Bucket} (hb : i.buckets[b]? = some bk)
    (hv : bk'.versioning = bk.versioning) (c : String) :
    ((i.setBucket b bk').buckets[c]?).map (·.versioning)
      = (i.buckets[c]?).map (·.versioning) := by
  rw [buckets_setBucket]
  by_cases h : b = c
  · subst h
    rw [if_pos rfl, hb]
    exact congrArg some hv
  · rw [if_neg h]

theorem versioning_deleteKeyVersion (bk : Bucket) (k id : String) :
    (deleteKeyVersion bk k id).versioning = bk.versioning := by
  unfold deleteKeyVersion
  split
  · rfl
  · dsimp only
    split <;> rfl

end Index

namespace Reflects

/-- The index shows what the shelves become when the versions of one key are
rewritten in both. -/
theorem rewrite {f : (versioned : Bool) → List (Slot Bytes) → List (Slot Bytes)} {bk : Bucket}
    (h : Reflects ce w i S) (hb : i.buckets[b]? = some bk)
    (hframe : ∀ c : String,
      (j.buckets[c]?).map (·.versioning) = (i.buckets[c]?).map (·.versioning))
    (hother : ∀ b' k', ¬(b = b' ∧ k = k') → j.history b' k' = i.history b' k')
    (hself : AllShow ce w (j.versionsOf b k) (f bk.versioning (S.slotsOf b k))) :
    ∃ S', S.rewrite b k f = some S' ∧ Reflects ce w j S' := by
  obtain ⟨shelf, hs, hv⟩ := h.shelf_of hb
  have hsome : (S.rewrite b k f).isSome = true := by
    unfold Shelves.rewrite
    rw [hs]
    rfl
  obtain ⟨S', hS'⟩ := Option.isSome_iff_exists.mp hsome
  refine ⟨S', hS', ⟨?_, ?_⟩⟩
  · intro c
    rw [hframe c, h.shelf c, Shelves.versioned_rewrite hS']
  · intro b' k'
    rw [Shelves.slotsOf_rewrite hs hS']
    by_cases hbk : b = b' ∧ k = k'
    · obtain ⟨rfl, rfl⟩ := hbk
      rw [if_pos ⟨rfl, rfl⟩, hv]
      exact hself
    · rw [if_neg hbk, Index.versionsOf_congr (hother b' k' hbk)]
      exact h.slots b' k'

theorem put (h : Reflects ce w i S) (hc : ContentOf ce w m bytes)
    (hput : i.put b k m = (.ok (), j)) :
    ∃ S', S.act (versionName ce) (.put b k bytes) = some S' ∧ Reflects ce w j S' := by
  obtain ⟨-, -, bk, hb, hj⟩ := Index.put_eq_ok.mp hput
  obtain ⟨bk', hb', hself⟩ := Index.history_put b k hput
  cases hb.symm.trans hb'
  show ∃ S', S.rewrite b k (fun on => Slot.put on bytes) = some S' ∧ _
  refine h.rewrite hb ?_ ?_ ?_
  · intro c
    rw [hj]
    refine Index.versioning_setBucket hb ?_ c
    rfl
  · intro b' k' hne
    obtain ⟨_, -, hother⟩ := Index.history_put b' k' hput
    rw [hother, if_neg hne]
  · rw [if_pos ⟨rfl, rfl⟩] at hself
    rw [Index.versionsOf_eq hself]
    unfold Index.putVersion Slot.put
    cases bk.versioning with
    | false => exact .cons (.content hc) .nil
    | true => exact (h.slots b k).snoc (.content hc)

theorem delete (h : Reflects ce w i S) {bk : Bucket} (hb : i.buckets[b]? = some bk) (t : Nat) :
    ∃ S', S.act (versionName ce) (.delete b k t) = some S' ∧
      Reflects ce w (i.delete b k t).2 S' := by
  have hon : i.isVersioned b = .ok bk.versioning := Index.isVersioned_eq_ok.mpr ⟨bk, hb, rfl⟩
  show ∃ S', S.rewrite b k (fun on => Slot.delete on t) = some S' ∧ _
  refine h.rewrite hb ?_ ?_ ?_
  · intro c
    unfold Index.delete
    rw [Index.bucket_eq_ok.mpr hb]
    exact Index.versioning_setBucket hb (Bucket.versioning_of_frame Index.frame_deleteKey) c
  · intro b' k' hne
    exact Index.history_delete t hne
  · have hself := Index.history_delete_self (k := k) t hon
    unfold Index.deleteHistory at hself
    unfold Slot.delete
    cases hv : bk.versioning with
    | false =>
      rw [hv] at hself
      rw [Index.versionsOf_none hself]
      exact .nil
    | true =>
      rw [hv, if_pos rfl] at hself
      rw [if_pos rfl]
      have hslots := h.slots b k
      cases hold : i.history b k with
      | none =>
        -- nothing to mark: neither has versions of the key
        rw [Index.versionsOf_none hold] at hslots
        rw [hold] at hself
        rw [Index.versionsOf_none hself, List.forall₂_nil_left_iff.mp hslots]
        exact .nil
      | some entry =>
        rw [Index.versionsOf_eq hold] at hslots
        rw [hold] at hself
        rw [Index.versionsOf_eq hself, ← hslots.live]
        unfold Index.markDeleted ObjectEntry.current
        split
        · exact hslots.snoc (.mark t)
        · exact hslots

theorem purge (h : Reflects ce w i S) {bk : Bucket} (hb : i.buckets[b]? = some bk) :
    ∃ S', S.act (versionName ce) (.purge b k id) = some S' ∧
      Reflects ce w (i.deleteVersion b k id).2 S' := by
  show ∃ S', S.rewrite b k (fun _ slots => slots.filter fun v => versionName ce v != id) = some S'
    ∧ _
  refine h.rewrite hb ?_ ?_ ?_
  · intro c
    unfold Index.deleteVersion
    rw [Index.bucket_eq_ok.mpr hb]
    exact Index.versioning_setBucket hb (Index.versioning_deleteKeyVersion bk k id) c
  · intro b' k' hne
    exact Index.history_deleteVersion id hne
  · have hself : (i.deleteVersion b k id).2.history b k = _ := Index.history_deleteVersion_self hb
    have hpurged := (h.slots b k).purge id
    unfold Index.versionsOf at hpurged ⊢
    rw [hself]
    unfold Index.deleteVersionHistory
    cases hold : i.history b k with
    | none =>
      rw [hold] at hpurged
      exact hpurged
    | some entry =>
      rw [hold] at hpurged
      rw [Option.bind_some]
      dsimp only
      split
      next hnil =>
        rw [Option.getD_some, List.isEmpty_iff.mp hnil] at hpurged
        exact hpurged
      next => exact hpurged

theorem copy (h : Reflects ce w i S) {sb sk : String} {t : Nat}
    (hcopy : i.copy sb sk b k t = (.ok (), j)) :
    ∃ S', S.act (versionName ce) (.copy sb sk b k) = some S' ∧ Reflects ce w j S' := by
  unfold Index.copy at hcopy
  cases hm : i.head sb sk with
  | error e =>
    rw [hm] at hcopy
    exact nomatch hcopy
  | ok m =>
    rw [hm] at hcopy
    obtain ⟨bytes, hc, hcur⟩ := h.head_content hm
    obtain ⟨S', hS', hR⟩ := h.put (hc.at_time t) hcopy
    refine ⟨S', ?_, hR⟩
    show (Slot.current _).bind _ = _
    rw [hcur]
    exact hS'

/-! ### Buckets -/

theorem openShelf (h : Reflects ce w i S) {t : Nat} (hmake : i.makeBucket b t = (.ok (), j)) :
    ∃ S', S.act (versionName ce) (.openShelf b) = some S' ∧ Reflects ce w j S' := by
  obtain ⟨hb, rfl⟩ := Index.makeBucket_ok hmake
  have hnone : S b = none := h.no_shelf hb
  refine ⟨Function.update S b (some .bare), ?_, ?_, ?_⟩
  · show (if (S b).isSome then none else _) = _
    rw [hnone]
    rfl
  · intro c
    rw [Index.buckets_setBucket]
    by_cases hbc : b = c
    · subst hbc
      rw [if_pos rfl, Function.update_self]
      rfl
    · rw [if_neg hbc, Function.update_of_ne (Ne.symm hbc)]
      exact h.shelf c
  · intro b' k'
    by_cases hbb : b = b'
    · subst hbb
      have hempty : (i.setBucket b ⟨t, false, [], ∅⟩).history b k' = none := by
        rw [Index.history_setBucket, if_pos rfl]
        rfl
      rw [Index.versionsOf_none hempty, Shelves.slotsOf_some (Function.update_self _ _ _)]
      exact .nil
    · have hkept : (i.setBucket b ⟨t, false, [], ∅⟩).history b' k' = i.history b' k' := by
        rw [Index.history_setBucket, if_neg hbb]
      rw [Shelves.slotsOf_congr (Function.update_of_ne (Ne.symm hbb) _ _),
        Index.versionsOf_congr hkept]
      exact h.slots b' k'

theorem closeShelf (h : Reflects ce w i S) {force : Bool}
    (hrm : i.removeBucket b force = (.ok (), j)) :
    ∃ S', S.act (versionName ce) (.closeShelf b) = some S' ∧ Reflects ce w j S' := by
  obtain ⟨bk, hb, -, rfl⟩ := Index.removeBucket_ok hrm
  obtain ⟨shelf, hs, -⟩ := h.shelf_of hb
  refine ⟨Function.update S b none, ?_, ?_, ?_⟩
  · show (S b).map _ = _
    rw [hs]
    rfl
  · intro c
    dsimp only
    rw [get_erase]
    by_cases hbc : b = c
    · subst hbc
      rw [if_pos rfl, Function.update_self]
      rfl
    · rw [if_neg hbc, Function.update_of_ne (Ne.symm hbc)]
      exact h.shelf c
  · intro b' k'
    by_cases hbb : b = b'
    · subst hbb
      have hgone : Index.history { i with buckets := i.buckets.erase b } b k' = none := by
        unfold Index.history
        dsimp only
        rw [get_erase_self]
        rfl
      rw [Index.versionsOf_none hgone]
      unfold Shelves.slotsOf
      rw [Function.update_self]
      exact .nil
    · rw [Shelves.slotsOf_congr (Function.update_of_ne (Ne.symm hbb) _ _),
        Index.versionsOf_congr (by unfold Index.history; dsimp only; rw [get_erase_ne hbb])]
      exact h.slots b' k'

theorem setVersioned (h : Reflects ce w i S) {on : Bool}
    (hset : i.setVersioning b on = (.ok (), j)) :
    ∃ S', S.act (versionName ce) (.setVersioned b on) = some S' ∧ Reflects ce w j S' := by
  have hj : j = (i.setVersioning b on).2 := by rw [hset]
  obtain ⟨bk, hb, hbk⟩ := Index.setVersioning_ok hset
  obtain ⟨shelf, hs, -⟩ := h.shelf_of hb
  refine ⟨Function.update S b (some { shelf with versioned := on }), ?_, ?_, ?_⟩
  · show (S b).map _ = _
    rw [hs]
    rfl
  · intro c
    rw [hbk, Index.buckets_setBucket]
    by_cases hbc : b = c
    · subst hbc
      rw [if_pos rfl, Function.update_self]
      rfl
    · rw [if_neg hbc, Function.update_of_ne (Ne.symm hbc)]
      exact h.shelf c
  · intro b' k'
    have hslots : Shelves.slotsOf (Function.update S b (some { shelf with versioned := on })) b' k'
        = S.slotsOf b' k' := by
      by_cases hbb : b = b'
      · subst hbb
        rw [Shelves.slotsOf_some (Function.update_self _ _ _), Shelves.slotsOf_some hs]
      · exact Shelves.slotsOf_congr (Function.update_of_ne (Ne.symm hbb) _ _)
    rw [hslots, Index.versionsOf_congr (hj ▸ Index.history_setVersioning on)]
    exact h.slots b' k'

/-- New rules change nothing that the shelves show. -/
theorem setLifecycle (h : Reflects ce w i S) {rules : List LifecycleRule}
    (hset : i.setLifecycle b rules = (.ok (), j)) : Reflects ce w j S := by
  have hj : j = (i.setLifecycle b rules).2 := by rw [hset]
  obtain ⟨bk, hb, hbk⟩ := Index.setLifecycle_ok hset
  constructor
  · intro c
    rw [hbk, ← h.shelf c]
    refine Index.versioning_setBucket hb ?_ c
    rfl
  · intro b' k'
    rw [Index.versionsOf_congr (hj ▸ Index.history_setLifecycle rules)]
    exact h.slots b' k'

/-! ### Several deletes -/

/-- The deletes of some keys at one time. -/
theorem deleteAll {t : Nat} {on : Bool} (h : Reflects ce w i S) (hon : i.isVersioned b = .ok on)
    (keys : List String) :
    ∃ S', S.acts (versionName ce) (keys.map fun k => .delete b k t) = some S' ∧
      Reflects ce w (i.deleteAll b t keys) S' := by
  unfold Index.deleteAll
  induction keys generalizing i S with
  | nil => exact ⟨S, rfl, h⟩
  | cons k keys ih =>
    obtain ⟨bk, hb, -⟩ := Index.isVersioned_eq_ok.mp hon
    obtain ⟨S₁, hS₁, hR₁⟩ := h.delete (k := k) hb t
    obtain ⟨S₂, hS₂, hR₂⟩ := ih hR₁ ((Index.isVersioned_delete t).trans hon)
    refine ⟨S₂, ?_, hR₂⟩
    show (S.act (versionName ce) (.delete b k t)).bind _ = _
    rw [hS₁]
    exact hS₂

end Reflects

end CeStorage
