import CeStorage.Index.Versions

/-!
# What a version id identifies

A version id is the CID of the bytes, so it names content and not one put: two
versions of a key have one id exactly if they are the same bytes. A delete marker
takes its id from the clock. Over any run of edits whose puts build their metadata
with `ObjectMeta::new`, `head_version` of a listed id answers with the newest
version of those bytes, and `delete_version` removes every version of them
(`version_ids_by_cid`).
-/

namespace CeStorage

open Lib

/-- Metadata built by `ObjectMeta::new`, with whatever headers. -/
def ObjectMeta.Built (m : ObjectMeta) : Prop :=
  ∃ cid size contentType now metadata cacheControl contentDisposition contentEncoding,
    m = { ObjectMeta.new cid size contentType now with
      metadata, cacheControl, contentDisposition, contentEncoding }

/-- The edit builds what it puts. -/
def IndexEdit.Builds : IndexEdit → Prop
  | put _ _ m => m.Built
  | _ => True

/-- The id of a delete marker. -/
def markerId (t : Nat) : String := (Index.deleteMarker t).meta.versionId

theorem markerId_injective {t t' : Nat} (h : markerId t = markerId t') : t = t' := by
  have hlist := congrArg String.toList h
  unfold markerId Index.deleteMarker at hlist
  have hrepr : (Nat.repr t).toList = (Nat.repr t').toList := by
    simpa using hlist
  exact Nat.repr_injective (String.toList_inj.mp hrepr)

namespace ObjectVersion

/-- Where the id of a version comes from: the CID of its bytes, or the second it was
deleted in. -/
def Sourced (v : ObjectVersion) : Prop :=
  v.isDeleteMarker = false ∧ v.meta.versionId = v.meta.cid ∨
    v.isDeleteMarker = true ∧ v.meta.versionId = markerId v.meta.lastModified

/-- Two versions that may have one id: the same bytes, or delete markers of the same
second, or bytes whose CID is spelled like the marker's id. -/
def SameSource (v w : ObjectVersion) : Prop :=
  match v.isDeleteMarker, w.isDeleteMarker with
  | false, false => v.meta.cid = w.meta.cid
  | true, true => v.meta.lastModified = w.meta.lastModified
  | false, true => v.meta.cid = markerId w.meta.lastModified
  | true, false => w.meta.cid = markerId v.meta.lastModified

theorem sameSource_iff {v w : ObjectVersion} (hv : v.Sourced) (hw : w.Sourced) :
    v.SameSource w ↔ v.meta.versionId = w.meta.versionId := by
  unfold SameSource
  rcases hv with ⟨hv, hvid⟩ | ⟨hv, hvid⟩ <;> rcases hw with ⟨hw, hwid⟩ | ⟨hw, hwid⟩ <;>
    rw [hv, hw, hvid, hwid]
  · exact eq_comm
  · exact ⟨congrArg markerId, markerId_injective⟩

end ObjectVersion

namespace Index

variable {i : Index} {b k : String} {entry : ObjectEntry} {m : ObjectMeta}

theorem sourced_edited (h : Edited IndexEdit.Builds Index.empty i) :
    EachVersion ObjectVersion.Sourced i := by
  refine h.inv (I := EachVersion ObjectVersion.Sourced) ?_ ?_
  · intro b k entry hh
    exact nomatch hh
  · intro j e hI he
    refine eachVersion_apply hI (fun m hmakes _ => .inl ⟨rfl, ?_⟩) fun t => .inr ⟨rfl, rfl⟩
    cases e with
    | put b k m' =>
      cases (show m' = m from hmakes)
      obtain ⟨_, _, _, _, _, _, _, _, rfl⟩ := (show m.Built from he)
      rfl
    | copy sb sk b k t =>
      obtain ⟨m', ⟨b', k', entry, v, hh, hv, hd, rfl⟩, rfl⟩ := hmakes
      rcases hI b' k' entry hh v hv with ⟨-, hid⟩ | ⟨hd', -⟩
      · exact hid
      · rw [hd] at hd'
        exact nomatch hd'
    | _ => exact hmakes.elim

/-- The versions of a key, oldest first. -/
def versions (i : Index) (b k : String) : List ObjectVersion :=
  (i.history b k).elim [] (·.versions)

theorem listVersions_eq_ok {l : List ObjectMeta} : i.listVersions b k = .ok l ↔
    ∃ entry, i.history b k = some entry ∧
      l = (entry.versions.reverse.filter fun v => !v.isDeleteMarker).map (·.meta) := by
  unfold listVersions Index.entry history bucket
  cases i.buckets[b]? with
  | none => simp [Except.map]
  | some bk => cases hk : bk.objects[k]? <;> simp [Except.map, hk, eq_comm]

/-- Among sourced versions an id that is no marker's selects the bytes. -/
theorem versionId_eq_iff {v : ObjectVersion} {cid : String} (hv : v.Sourced)
    (hcid : ∀ t, cid ≠ markerId t) :
    v.meta.versionId = cid ↔ v.isDeleteMarker = false ∧ v.meta.cid = cid := by
  rcases hv with ⟨hd, hid⟩ | ⟨hd, hid⟩
  · rw [hid, hd]
    exact ⟨fun h => ⟨rfl, h⟩, fun h => h.2⟩
  · rw [hid, hd]
    exact iff_of_false (fun h => hcid _ h.symm) fun h => nomatch h.1

/-- The newest version with an id is the newest listed one with that CID. -/
theorem headVersion_listed {l : List ObjectMeta} {cid : String}
    (hsourced : EachVersion ObjectVersion.Sourced i) (hl : i.listVersions b k = .ok l)
    (hcid : ∀ t, cid ≠ markerId t) (hfind : l.find? (fun x => x.cid == cid) = some m) :
    i.headVersion b k cid = .ok m := by
  obtain ⟨entry, hh, rfl⟩ := listVersions_eq_ok.mp hl
  rw [List.find?_map, List.find?_filter] at hfind
  obtain ⟨v, hv, rfl⟩ := Option.map_eq_some_iff.mp hfind
  have hlive : v.isDeleteMarker = false := by
    have hp := List.find?_some hv
    simp only [decide_eq_true_iff] at hp
    simpa using hp.1
  refine headVersion_eq_ok.mpr ⟨entry, v, hh, ?_, hlive, rfl⟩
  rw [← hv]
  refine List.find?_congr fun w hw => ?_
  have hiff := versionId_eq_iff (hsourced b k entry hh w (List.mem_reverse.mp hw)) hcid
  rw [Bool.eq_iff_iff, beq_iff_eq, hiff, decide_eq_true_iff]
  simp

/-- Deleting an id removes the versions with that CID. -/
theorem versions_deleteVersion {cid : String} (hsourced : EachVersion ObjectVersion.Sourced i)
    (hcid : ∀ t, cid ≠ markerId t) : (i.deleteVersion b k cid).2.versions b k
      = (i.versions b k).filter fun v => v.isDeleteMarker || v.meta.cid != cid := by
  unfold versions
  cases hh : i.history b k with
  | none =>
    have hgone : (i.deleteVersion b k cid).2.history b k = none := by
      cases hb : i.buckets[b]? with
      | none =>
        have herr : (i.deleteVersion b k cid).2 = i := by
          unfold deleteVersion bucket
          rw [hb]
        rw [herr, hh]
      | some bk => rw [history_deleteVersion_self hb, hh]; rfl
    rw [hgone]
    rfl
  | some entry =>
    obtain ⟨bk, hb⟩ := bucket_of_history hh
    have hsame : (entry.versions.filter fun v => v.meta.versionId != cid)
        = entry.versions.filter fun v => v.isDeleteMarker || v.meta.cid != cid := by
      refine List.filter_congr ?_
      intro v hv
      have hiff := versionId_eq_iff (hsourced b k entry hh v hv) hcid
      rw [Bool.eq_iff_iff, bne_iff_ne, ne_eq, hiff]
      cases v.isDeleteMarker <;> simp
    rw [history_deleteVersion_self hb, hh]
    unfold deleteVersionHistory
    rw [Option.bind_some]
    dsimp only [Option.elim_some]
    rw [← hsame]
    split
    next hempty => exact (List.isEmpty_iff.mp hempty).symm
    next => rfl

/-- How many versions the deletion of an id removes. -/
theorem length_versions_deleteVersion {l : List ObjectMeta} {cid : String}
    (hsourced : EachVersion ObjectVersion.Sourced i) (hl : i.listVersions b k = .ok l)
    (hcid : ∀ t, cid ≠ markerId t) :
    ((i.deleteVersion b k cid).2.versions b k).length + (l.filter fun x => x.cid == cid).length
      = (i.versions b k).length := by
  obtain ⟨entry, hh, rfl⟩ := listVersions_eq_ok.mp hl
  rw [versions_deleteVersion hsourced hcid]
  unfold versions
  rw [hh, Option.elim_some, List.filter_map, List.length_map, List.filter_filter,
    List.filter_reverse, List.length_reverse]
  -- what is not kept is what was listed
  have hlisted : entry.versions.filter (fun v => !(v.isDeleteMarker || v.meta.cid != cid))
      = entry.versions.filter fun v =>
          ((fun x : ObjectMeta => x.cid == cid) ∘ (·.meta)) v && !v.isDeleteMarker := by
    refine List.filter_congr ?_
    intro v _
    cases v.isDeleteMarker <;> simp [bne]
  rw [← hlisted]
  exact (List.length_eq_length_filter_add _).symm

/-- The version ids of a bucket that only built metadata was put in. -/
theorem version_ids_by_cid (i : Index) (h : Edited IndexEdit.Builds Index.empty i)
    (b k : String) :
    (i.versions b k).Pairwise (fun v w =>
      v.meta.versionId = w.meta.versionId → v.SameSource w) ∧
    ∀ l, i.listVersions b k = .ok l → ∀ m ∈ l, (∀ t, m.cid ≠ markerId t) →
      (∃ m', l.find? (fun x => x.cid == m.cid) = some m' ∧
        i.headVersion b k m.versionId = .ok m') ∧
      (i.deleteVersion b k m.versionId).2.versions b k
        = (i.versions b k).filter (fun v => v.isDeleteMarker || v.meta.cid != m.cid) ∧
      (l.filter (fun x => x.cid == m.cid) = [m] → i.headVersion b k m.versionId = .ok m ∧
        ((i.deleteVersion b k m.versionId).2.versions b k).length + 1
          = (i.versions b k).length) := by
  have hsourced := sourced_edited h
  refine ⟨?_, ?_⟩
  · have hall : ∀ v ∈ i.versions b k, v.Sourced := by
      intro v hv
      unfold versions at hv
      cases hh : i.history b k with
      | none =>
        rw [hh] at hv
        exact absurd hv List.not_mem_nil
      | some entry =>
        rw [hh] at hv
        exact hsourced b k entry hh v hv
    exact List.Pairwise.imp_of_mem (fun hv hw _ hid =>
      (ObjectVersion.sameSource_iff (hall _ hv) (hall _ hw)).mpr hid)
      (List.pairwise_of_forall fun _ _ => trivial)
  · -- a listed version is live, so its id is its CID
    intro l hl m hm hcid
    have hid : m.versionId = m.cid := by
      obtain ⟨entry, hh, rfl⟩ := listVersions_eq_ok.mp hl
      obtain ⟨v, hv, rfl⟩ := List.mem_map.mp hm
      obtain ⟨hv, hlive⟩ := List.mem_filter.mp hv
      rcases hsourced b k entry hh v (List.mem_reverse.mp hv) with ⟨-, hid⟩ | ⟨hd, -⟩
      · exact hid
      · rw [hd] at hlive
        exact nomatch hlive
    rw [hid]
    obtain ⟨m', hfind⟩ : ∃ m', l.find? (fun x => x.cid == m.cid) = some m' :=
      Option.isSome_iff_exists.mp (List.find?_isSome.mpr ⟨m, hm, beq_self_eq_true _⟩)
    have hhead := headVersion_listed hsourced hl hcid hfind
    refine ⟨⟨m', hfind, hhead⟩, versions_deleteVersion hsourced hcid, fun hone => ⟨?_, ?_⟩⟩
    · have hmem : m' ∈ l.filter (fun x => x.cid == m.cid) :=
        List.mem_filter.mpr ⟨List.mem_of_find?_eq_some hfind, by simpa using List.find?_some hfind⟩
      rw [hone] at hmem
      cases List.mem_singleton.mp hmem
      exact hhead
    · have hlen := length_versions_deleteVersion hsourced hl hcid
      rwa [hone] at hlen

private def firstCat : ObjectMeta := ObjectMeta.new "one" 1 "" 0

private def secondCat : ObjectMeta := ObjectMeta.new "two" 2 "" 0

private def twoPuts (m m' : ObjectMeta) : Index :=
  ((((Index.empty.makeBucket "photos" 0).2.setVersioning "photos" true).2.put
    "photos" "cat" m).2.put "photos" "cat" m').2

private theorem twoPuts_edited {m m' : ObjectMeta} (hm : m.Built) (hm' : m'.Built) :
    Edited IndexEdit.Builds Index.empty (twoPuts m m') :=
  (Edited.one (e := .makeBucket "photos" 0) trivial).trans <|
    (Edited.one (e := .setVersioning "photos" true) trivial).trans <|
      (Edited.one (e := .put "photos" "cat" m) hm).trans <|
        Edited.one (e := .put "photos" "cat" m') hm'

/-- The same bytes put twice are two versions with one id. -/
theorem version_ids_repeat : ¬∀ i : Index, Edited IndexEdit.Builds Index.empty i →
    ∀ b k, i.isVersioned b = .ok true →
      ((i.versions b k).map (·.meta.versionId)).Nodup := by
  intro h
  have hbuilt : firstCat.Built := ⟨_, _, _, _, _, _, _, _, rfl⟩
  have hnodup := h (twoPuts firstCat firstCat) (twoPuts_edited hbuilt hbuilt) "photos" "cat" rfl
  exact absurd hnodup (by decide)

theorem version_ids_by_cid_two :
    (twoPuts firstCat secondCat).listVersions "photos" "cat" = .ok [secondCat, firstCat] ∧
      (twoPuts firstCat secondCat).headVersion "photos" "cat" firstCat.versionId = .ok firstCat ∧
      ((twoPuts firstCat secondCat).deleteVersion "photos" "cat"
        firstCat.versionId).2.versions "photos" "cat" = [⟨secondCat, false⟩] := by
  have hlist : (twoPuts firstCat secondCat).listVersions "photos" "cat"
      = .ok [secondCat, firstCat] := rfl
  have hcid : ∀ t, firstCat.cid ≠ markerId t := fun t h => by
    have hfirst := congrArg (fun s => s.toList.head?) h
    simp [firstCat, ObjectMeta.new, markerId, deleteMarker, toString] at hfirst
  have h := (version_ids_by_cid (twoPuts firstCat secondCat)
    (twoPuts_edited ⟨_, _, _, _, _, _, _, _, rfl⟩ ⟨_, _, _, _, _, _, _, _, rfl⟩)
    "photos" "cat").2 _ hlist firstCat (by simp) hcid
  exact ⟨hlist, (h.2.2 rfl).1, h.2.1⟩

end Index

end CeStorage
