import CeStorage.Index.Lemmas
import CeStorage.Index.List
import CeStorage.Lib.Order

/-!
# Listing page by page

`visible` are the entries a listing is about: the live keys with the prefix, in
order. The loop of `list` only ever looks at these (`listLoop_eq`), and the state
it is in depends on those it has consumed: `pageOf done`. A page ends because the
entries do, or with a full page before an entry that would go on it
(`scan_pageOf`).

The keys that roll up into one folder are those that begin with its name, so they
are an interval and no page ends inside it with the folder still to come: the
folders of the entries before a cut and of those after it are different
(`folders_apart`). Hence the pages that a client gets by following the
continuation tokens concatenate to the page of all entries (`pages_spec`).
-/

namespace CeStorage

open Lib
open Std (ExtTreeMap)

/-- The page that the loop ends with. -/
def ListState.page (st : ListState) (maxKeys : Nat) : ListPage :=
  { keys := st.keys, commonPrefixes := st.commonPrefixes
    nextContinuation := if st.truncated then st.lastSeen else none
    isTruncated := st.truncated, keyCount := st.emitted, maxKeys }

/-! ## Lists -/

/-- A condition that holds of an element whenever it holds of a later one cuts a
list in two. -/
theorem takeWhile_eq_filter {α : Type} {p : α → Bool} {l : List α}
    (h : l.Pairwise fun a b => p b = true → p a = true) : l.takeWhile p = l.filter p := by
  induction l with
  | nil => rfl
  | cons a l ih =>
    rw [List.pairwise_cons] at h
    by_cases ha : p a = true
    · rw [List.takeWhile_cons_of_pos ha, List.filter_cons_of_pos ha, ih h.2]
    · rw [List.takeWhile_cons_of_neg ha, List.filter_cons_of_neg ha]
      exact (List.filter_eq_nil_iff.mpr fun b hb hpb => ha (h.1 b hb hpb)).symm

theorem eraseDups_append_mem {α : Type} [DecidableEq α] {a : α} {l : List α} (h : a ∈ l) :
    (l ++ [a]).eraseDups = l.eraseDups := by
  rw [List.eraseDups_append]
  have hrem : [a].removeAll l = [] := List.filter_eq_nil_iff.mpr fun b hb => by
    cases List.mem_singleton.mp hb
    simpa using h
  rw [hrem, List.eraseDups_nil, List.append_nil]

theorem eraseDups_append_apart {α : Type} [DecidableEq α] {l l' : List α}
    (h : ∀ a ∈ l', a ∉ l) : (l ++ l').eraseDups = l.eraseDups ++ l'.eraseDups := by
  rw [List.eraseDups_append]
  have hrem : l'.removeAll l = l' := List.filter_eq_self.mpr fun a ha => by
    simpa using h a ha
  rw [hrem]

theorem eraseDups_sorted {l : List String} (h : l.Pairwise (· ≤ ·)) :
    l.eraseDups.Pairwise (· < ·) := by
  induction l using List.reverseRecOn with
  | nil => exact .nil
  | append_singleton l a ih =>
    obtain ⟨hl, -, hle⟩ := List.pairwise_append.mp h
    by_cases ha : a ∈ l
    · rw [eraseDups_append_mem ha]
      exact ih hl
    · have hnew : ∀ b ∈ [a], b ∉ l := fun b hb => by
        cases List.mem_singleton.mp hb
        exact ha
      rw [eraseDups_append_apart hnew]
      refine List.pairwise_append.mpr ⟨ih hl, List.pairwise_singleton _ _, ?_⟩
      intro b hb c hc
      cases List.mem_singleton.mp hc
      have hb := List.mem_eraseDups.mp hb
      refine String.not_le.mp fun hab => ha ?_
      rwa [String.le_antisymm (hle b hb a (List.mem_singleton.mpr rfl)) hab] at hb

/-! ## Folders -/

namespace Index

variable {keyPrefix : String} {delimiter : Option String} {maxKeys : Nat} {k k' cp : String}

/-- A folder is named by the keys in it. -/
theorem rollup_eq_some (hk : Str.startsWith k keyPrefix = true) :
    rollup keyPrefix delimiter k = some cp ↔ ∃ d a b, delimiter = some d ∧
      k.toList = keyPrefix.toList ++ (a ++ d.toList ++ b) ∧
      Str.findSub d.toList (a ++ d.toList ++ b) = some (a, b) ∧
      cp = keyPrefix ++ String.ofList a ++ d := by
  obtain ⟨rest, hrest⟩ := Str.startsWith_iff.mp hk
  have hdrop : k.toList.drop keyPrefix.toList.length = rest := by
    rw [← hrest, List.drop_left]
  cases delimiter with
  | none => exact iff_of_false (fun h => nomatch h) fun ⟨d, a, b, h, _⟩ => nomatch h
  | some d =>
    unfold rollup
    dsimp only
    rw [hdrop]
    constructor
    · intro h
      obtain ⟨⟨a, b⟩, hfind, hcp⟩ := Option.map_eq_some_iff.mp h
      obtain ⟨rfl, -⟩ := Str.findSub_eq_some.mp hfind
      exact ⟨d, a, b, rfl, hrest.symm, hfind, hcp.symm⟩
    · rintro ⟨d', a, b, hd, hlist, hfind, rfl⟩
      cases hd
      rw [hlist] at hrest
      rw [List.append_cancel_left hrest, hfind]
      rfl

theorem rollup_eq_none {rest : String} : rollup keyPrefix delimiter (keyPrefix ++ rest) = none ↔
    ∀ d, delimiter = some d → ¬ d.toList <:+: rest.toList := by
  have hdrop : (keyPrefix ++ rest).toList.drop keyPrefix.toList.length = rest.toList := by
    rw [String.toList_append, List.drop_left]
  cases delimiter with
  | none => exact iff_of_true rfl fun d hd => nomatch hd
  | some d =>
    unfold rollup
    dsimp only
    rw [hdrop, Option.map_eq_none_iff, Str.findSub_eq_none]
    exact ⟨fun h d' hd => by cases hd; exact h, fun h => h d rfl⟩

/-- A key begins with the name of its folder. -/
theorem startsWith_rollup (hk : Str.startsWith k keyPrefix = true)
    (h : rollup keyPrefix delimiter k = some cp) : Str.startsWith k cp = true := by
  obtain ⟨d, a, b, -, hlist, -, rfl⟩ := (rollup_eq_some hk).mp h
  refine Str.startsWith_iff.mpr ⟨b, ?_⟩
  rw [hlist]
  simp

/-- A key that begins with the name of a folder is in it. -/
theorem rollup_of_startsWith (hk : Str.startsWith k keyPrefix = true)
    (h : rollup keyPrefix delimiter k = some cp) (hk' : Str.startsWith k' cp = true) :
    rollup keyPrefix delimiter k' = some cp := by
  obtain ⟨d, a, b, rfl, hlist, hfind, rfl⟩ := (rollup_eq_some hk).mp h
  obtain ⟨t, ht⟩ := Str.startsWith_iff.mp hk'
  have hlist' : k'.toList = keyPrefix.toList ++ (a ++ d.toList ++ t) := by
    rw [← ht]
    simp
  refine (rollup_eq_some ?_).mpr ⟨d, a, t, rfl, hlist', Str.findSub_append hfind t, rfl⟩
  exact Str.startsWith_iff.mpr ⟨_, hlist'.symm⟩

/-! ## The entries of a listing -/

/-- A live binding: a key and the metadata of its current object. -/
def live (p : String × ObjectEntry) : Option (String × ObjectMeta) :=
  match p.2.current with
  | some v => if v.isDeleteMarker then none else some (p.1, v.meta)
  | none => none

/-- The live keys of a bucket that have a prefix, in order. -/
def visible (bk : Bucket) (keyPrefix : String) : List (String × ObjectMeta) :=
  (bk.objects.toList.filter fun p => Str.startsWith p.1 keyPrefix).filterMap live

/-- The loop of `list` over live keys that have the prefix. -/
def scan (keyPrefix : String) (delimiter : Option String) (maxKeys : Nat) :
    List (String × ObjectMeta) → ListState → ListState
  | [], st => st
  | (k, m) :: rest, st =>
    match rollup keyPrefix delimiter k with
    | some cp =>
      if st.commonPrefixes.contains cp then
        scan keyPrefix delimiter maxKeys rest { st with lastSeen := some k }
      else if maxKeys ≤ st.emitted then { st with truncated := true }
      else scan keyPrefix delimiter maxKeys rest
        { st with commonPrefixes := st.commonPrefixes ++ [cp], lastSeen := some k }
    | none =>
      if maxKeys ≤ st.emitted then { st with truncated := true }
      else scan keyPrefix delimiter maxKeys rest
        { st with keys := st.keys ++ [(k, m)], lastSeen := some k }

theorem listLoop_eq (l : List (String × ObjectEntry)) (st : ListState) :
    listLoop keyPrefix delimiter maxKeys l st
      = scan keyPrefix delimiter maxKeys
          ((l.takeWhile fun p => Str.startsWith p.1 keyPrefix).filterMap live) st := by
  induction l generalizing st with
  | nil => rfl
  | cons p l ih =>
    obtain ⟨k, entry⟩ := p
    by_cases hk : Str.startsWith k keyPrefix = true
    · rw [List.takeWhile_cons_of_pos (by exact hk), List.filterMap_cons]
      unfold listLoop
      rw [if_neg (by rw [hk]; decide)]
      -- a key without a live version is passed over by both
      cases hcur : entry.current with
      | none =>
        have hlive : live (k, entry) = none := by unfold live; rw [hcur]
        rw [hlive]
        exact ih st
      | some v =>
        cases hv : v.isDeleteMarker with
        | true =>
          have hlive : live (k, entry) = none := by unfold live; rw [hcur]; exact if_pos hv
          rw [hlive]
          simpa only [hv, if_true] using ih st
        | false =>
          have hlive : live (k, entry) = some (k, v.meta) := by
            unfold live
            rw [hcur]
            exact if_neg (by rw [hv]; decide)
          rw [hlive]
          simp only [hv, Bool.false_eq_true, if_false]
          unfold scan
          cases rollup keyPrefix delimiter k with
          | none =>
            dsimp only
            split
            · rfl
            · exact ih _
          | some cp =>
            dsimp only
            split
            · exact ih _
            · split
              · rfl
              · exact ih _
    · rw [List.takeWhile_cons_of_neg (by exact hk)]
      -- the loop breaks at the first key without the prefix, where `takeWhile` ends
      unfold listLoop
      rw [if_pos (by simpa using hk)]
      rfl

/-! ## One page -/

/-- The folders of some entries, one for each entry that rolls up. -/
def folders (keyPrefix : String) (delimiter : Option String) (l : List (String × ObjectMeta)) :
    List String :=
  l.filterMap fun p => rollup keyPrefix delimiter p.1

/-- The entries that do not roll up. -/
def plainKeys (keyPrefix : String) (delimiter : Option String) (l : List (String × ObjectMeta)) :
    List (String × ObjectMeta) :=
  l.filter fun p => (rollup keyPrefix delimiter p.1).isNone

/-- The state of the loop after the entries `done`. -/
def pageOf (keyPrefix : String) (delimiter : Option String) (done : List (String × ObjectMeta)) :
    ListState :=
  { keys := plainKeys keyPrefix delimiter done
    commonPrefixes := (folders keyPrefix delimiter done).eraseDups
    lastSeen := done.getLast?.map (·.1), truncated := false }

section
variable {l done : List (String × ObjectMeta)} {p : String × ObjectMeta}

theorem folders_append (l l' : List (String × ObjectMeta)) :
    folders keyPrefix delimiter (l ++ l')
      = folders keyPrefix delimiter l ++ folders keyPrefix delimiter l' :=
  List.filterMap_append

theorem pageOf_plain (h : rollup keyPrefix delimiter p.1 = none) :
    pageOf keyPrefix delimiter (done ++ [p])
      = { pageOf keyPrefix delimiter done with
          keys := (pageOf keyPrefix delimiter done).keys ++ [p], lastSeen := some p.1 } := by
  simp [pageOf, plainKeys, folders, h]

theorem pageOf_seen (h : rollup keyPrefix delimiter p.1 = some cp)
    (hseen : cp ∈ folders keyPrefix delimiter done) :
    pageOf keyPrefix delimiter (done ++ [p])
      = { pageOf keyPrefix delimiter done with lastSeen := some p.1 } := by
  have hfold : folders keyPrefix delimiter [p] = [cp] := by simp [folders, h]
  simp [pageOf, plainKeys, h, folders_append, hfold, eraseDups_append_mem hseen]

theorem pageOf_new (h : rollup keyPrefix delimiter p.1 = some cp)
    (hnew : cp ∉ folders keyPrefix delimiter done) :
    pageOf keyPrefix delimiter (done ++ [p])
      = { pageOf keyPrefix delimiter done with
          commonPrefixes := (pageOf keyPrefix delimiter done).commonPrefixes ++ [cp]
          lastSeen := some p.1 } := by
  have hfold : folders keyPrefix delimiter [p] = [cp] := by simp [folders, h]
  have hone : [cp].eraseDups = [cp] := by rfl
  have hapart : ∀ a ∈ [cp], a ∉ folders keyPrefix delimiter done := fun a ha => by
    cases List.mem_singleton.mp ha
    exact hnew
  simp [pageOf, plainKeys, h, folders_append, hfold, hone, eraseDups_append_apart hapart]

/-- How the loop ends that comes to the entries `l` after `done`: with all of them
taken, or with a full page before an entry that would go on it. -/
def PageEnd (keyPrefix : String) (delimiter : Option String) (maxKeys : Nat)
    (done l : List (String × ObjectMeta)) (st : ListState) : Prop :=
  (st = pageOf keyPrefix delimiter (done ++ l) ∧ st.emitted ≤ maxKeys) ∨
  ∃ before p after, l = before ++ p :: after ∧
    st = { pageOf keyPrefix delimiter (done ++ before) with truncated := true } ∧
    st.emitted = maxKeys ∧
    ∀ cp, rollup keyPrefix delimiter p.1 = some cp →
      cp ∉ folders keyPrefix delimiter (done ++ before)

theorem PageEnd.take {st : ListState}
    (h : PageEnd keyPrefix delimiter maxKeys (done ++ [p]) l st) :
    PageEnd keyPrefix delimiter maxKeys done (p :: l) st := by
  rcases h with ⟨h, hle⟩ | ⟨before, q, after, rfl, h, hfull, hnew⟩
  · rw [List.append_assoc] at h
    exact .inl ⟨h, hle⟩
  · rw [List.append_assoc] at h hnew
    exact .inr ⟨p :: before, q, after, rfl, h, hfull, hnew⟩

theorem PageEnd.cut (hfull : (pageOf keyPrefix delimiter done).emitted = maxKeys)
    (hnew : ∀ cp, rollup keyPrefix delimiter p.1 = some cp →
      cp ∉ folders keyPrefix delimiter done) :
    PageEnd keyPrefix delimiter maxKeys done (p :: l)
      { pageOf keyPrefix delimiter done with truncated := true } := by
  refine .inr ⟨[], p, l, rfl, ?_, hfull, ?_⟩
  · rw [List.append_nil]
  · rw [List.append_nil]
    exact hnew

/-- The loop over the entries `l` after `done`. -/
theorem scan_pageOf (hroom : (pageOf keyPrefix delimiter done).emitted ≤ maxKeys) :
    PageEnd keyPrefix delimiter maxKeys done l
      (scan keyPrefix delimiter maxKeys l (pageOf keyPrefix delimiter done)) := by
  induction l generalizing done with
  | nil => exact .inl ⟨by rw [List.append_nil]; rfl, hroom⟩
  | cons p l ih =>
    obtain ⟨k, m⟩ := p
    unfold scan
    cases hroll : rollup keyPrefix delimiter k with
    | none =>
      dsimp only
      split
      next hfull =>
        refine .cut (Nat.le_antisymm hroom hfull) ?_
        intro cp hcp
        rw [hroll] at hcp
        exact nomatch hcp
      next hfull =>
        -- the key is the next content of the page
        have htake : pageOf keyPrefix delimiter (done ++ [(k, m)]) = _ := pageOf_plain hroll
        rw [← htake]
        refine (ih ?_).take
        rw [htake]
        unfold ListState.emitted at hfull ⊢
        rw [List.length_append, List.length_singleton]
        dsimp only
        omega
    | some cp =>
      -- the key belongs to a folder: one already on the page, or a new one
      have hmem : (pageOf keyPrefix delimiter done).commonPrefixes.contains cp = true ↔
          cp ∈ folders keyPrefix delimiter done := by
        rw [List.contains_iff_mem]
        exact List.mem_eraseDups
      dsimp only
      split
      next hseen =>
        have htake : pageOf keyPrefix delimiter (done ++ [(k, m)]) = _ :=
          pageOf_seen hroll (hmem.mp hseen)
        rw [← htake]
        refine (ih ?_).take
        rw [htake]
        exact hroom
      next hnew =>
        have hcp := fun h => hnew (hmem.mpr h)
        split
        next hfull =>
          refine .cut (Nat.le_antisymm hroom hfull) ?_
          intro cp' hcp'
          rw [hroll] at hcp'
          cases hcp'
          exact hcp
        next hfull =>
          have htake : pageOf keyPrefix delimiter (done ++ [(k, m)]) = _ :=
            pageOf_new hroll hcp
          rw [← htake]
          refine (ih ?_).take
          rw [htake]
          unfold ListState.emitted at hfull ⊢
          rw [List.length_append, List.length_singleton]
          dsimp only
          omega

end

/-! ## The entries after a token -/

/-- A key comes after a continuation token. -/
def isAfter (startAfter : Option String) (k : String) : Bool :=
  startAfter.all fun a => decide (a < k)

variable {startAfter : Option String} {bk : Bucket}

theorem lt_append_nul (s : String) : s < s ++ "\x00" :=
  Str.append_nul_le.mp (String.le_refl _)

theorem prefix_le_listLower : keyPrefix ≤ listLower keyPrefix startAfter := by
  unfold listLower
  split
  next a =>
    split
    next h => exact String.le_trans h (String.not_lt.mp (String.lt_asymm (lt_append_nul a)))
    next => exact String.le_refl _
  next => exact String.le_refl _

/-- Among the keys with the prefix, the bound of the seek is the token. -/
theorem listLower_le_iff (hk : Str.startsWith k keyPrefix = true) :
    listLower keyPrefix startAfter ≤ k ↔ isAfter startAfter k = true := by
  have hle := Str.le_of_startsWith hk
  cases startAfter with
  | none => exact iff_of_true hle rfl
  | some a =>
    unfold listLower isAfter
    rw [Option.all_some, decide_eq_true_iff]
    dsimp only
    split
    next => exact Str.append_nul_le
    next h =>
      refine iff_of_true hle (String.not_le.mp fun hka => h (String.le_trans hle hka))

theorem live_key {p : String × ObjectEntry} {q : String × ObjectMeta} (h : live p = some q) :
    q.1 = p.1 := by
  unfold live at h
  grind

/-- What the loop sees of a bucket when it starts after a token. -/
theorem candidates_eq :
    ((bk.objects.toList.filter fun p => listLower keyPrefix startAfter ≤ p.1).takeWhile
        fun p => Str.startsWith p.1 keyPrefix).filterMap live
      = (visible bk keyPrefix).filter fun p => isAfter startAfter p.1 := by
  have hcut : (bk.objects.toList.filter fun p => listLower keyPrefix startAfter ≤ p.1).Pairwise
      fun a b => Str.startsWith b.1 keyPrefix = true → Str.startsWith a.1 keyPrefix = true := by
    refine (toList_sorted.filter _).imp_of_mem fun {a b} ha _ hab hb => ?_
    have hlow : listLower keyPrefix startAfter ≤ a.1 := by simpa using (List.mem_filter.mp ha).2
    exact Str.startsWith_between (Str.startsWith_iff.mpr List.prefix_rfl) hb
      (String.le_trans prefix_le_listLower hlow) (String.not_lt.mp (String.lt_asymm hab))
  rw [takeWhile_eq_filter hcut]
  unfold visible
  rw [List.filter_filterMap, List.filterMap_filter, List.filterMap_filter, List.filterMap_filter]
  refine List.filterMap_congr ?_
  intro p _
  by_cases hk : Str.startsWith p.1 keyPrefix = true
  · have hiff : _ ↔ isAfter startAfter p.1 = true := listLower_le_iff hk
    rw [if_pos hk, if_pos hk]
    cases hlive : live p with
    | none => split <;> rfl
    | some q =>
      rw [Option.filter_some, live_key hlive]
      simp only [decide_eq_true_iff, hiff]
  · rw [if_neg hk, if_neg hk]
    split <;> rfl

/-- A page of a bucket. -/
theorem list_eq {i : Index} {name : String} (hb : i.buckets[name]? = some bk) :
    i.list name keyPrefix delimiter startAfter maxKeys
      = .ok ((scan keyPrefix delimiter (max maxKeys 1)
          ((visible bk keyPrefix).filter fun p => isAfter startAfter p.1)
          (pageOf keyPrefix delimiter [])).page (max maxKeys 1)) := by
  unfold list
  rw [bucket_eq_ok.mpr hb]
  simp only [Except.map, listLoop_eq, candidates_eq]
  rfl

theorem visible_sorted : (visible bk keyPrefix).Pairwise fun a b => a.1 < b.1 := by
  unfold visible
  rw [List.pairwise_filterMap]
  refine (toList_sorted.filter _).imp fun {a b} hab q hq r hr => ?_
  rwa [live_key hq, live_key hr]

/-- The entries of a listing are the keys with the prefix that have a current
object. -/
theorem mem_visible {i : Index} {name : String} {m : ObjectMeta}
    (hb : i.buckets[name]? = some bk) : (k, m) ∈ visible bk keyPrefix ↔
      Str.startsWith k keyPrefix = true ∧ i.head name k = .ok m := by
  rw [head_eq_ok, history_of_bucket hb]
  unfold visible live
  rw [List.mem_filterMap]
  constructor
  · rintro ⟨⟨k', entry⟩, hmem, hlive⟩
    obtain ⟨hmem, hk⟩ := List.mem_filter.mp hmem
    rw [ExtTreeMap.mem_toList_iff_getElem?_eq_some] at hmem
    dsimp only at hlive hk
    grind
  · rintro ⟨hk, entry, v, hentry, hcur, hv, rfl⟩
    refine ⟨(k, entry), List.mem_filter.mpr ⟨?_, hk⟩, ?_⟩
    · rw [ExtTreeMap.mem_toList_iff_getElem?_eq_some]
      exact hentry
    · dsimp only
      rw [hcur]
      exact if_neg (by rw [hv]; decide)

/-! ## Cuts -/

theorem mem_folders {l : List (String × ObjectMeta)} :
    cp ∈ folders keyPrefix delimiter l ↔ ∃ q ∈ l, rollup keyPrefix delimiter q.1 = some cp :=
  List.mem_filterMap

/-- No folder is on both sides of a cut before an entry with a folder of its own
or none: the keys of one folder are an interval. -/
theorem folders_apart {before after : List (String × ObjectMeta)} {p : String × ObjectMeta}
    (hsort : (before ++ p :: after).Pairwise fun a b => a.1 < b.1)
    (hpre : ∀ q ∈ before ++ p :: after, Str.startsWith q.1 keyPrefix = true)
    (hnew : ∀ cp, rollup keyPrefix delimiter p.1 = some cp →
      cp ∉ folders keyPrefix delimiter before) :
    ∀ cp ∈ folders keyPrefix delimiter (p :: after), cp ∉ folders keyPrefix delimiter before := by
  intro cp hafter hbefore
  obtain ⟨x, hx, hxcp⟩ := mem_folders.mp hbefore
  obtain ⟨y, hy, hycp⟩ := mem_folders.mp hafter
  obtain ⟨-, htail, hlt⟩ := List.pairwise_append.mp hsort
  have hxp : x.1 ≤ p.1 := String.not_lt.mp (String.lt_asymm (hlt x hx p List.mem_cons_self))
  have hpy : p.1 ≤ y.1 := by
    rcases List.mem_cons.mp hy with rfl | hy
    · exact String.le_refl _
    · exact String.not_lt.mp (String.lt_asymm ((List.pairwise_cons.mp htail).1 y hy))
  have hxpre := hpre x (List.mem_append_left _ hx)
  have hypre := hpre y (List.mem_append_right _ hy)
  have hpcp : Str.startsWith p.1 cp = true :=
    Str.startsWith_between (startsWith_rollup hxpre hxcp) (startsWith_rollup hypre hycp) hxp hpy
  exact hnew cp (rollup_of_startsWith hxpre hxcp hpcp) hbefore

/-- The entries after the last one before a cut. -/
theorem filter_isAfter {before after : List (String × ObjectMeta)} {q : String × ObjectMeta}
    (hsort : (before ++ [q] ++ after).Pairwise fun a b => a.1 < b.1) :
    (before ++ [q] ++ after).filter (fun p => isAfter (some q.1) p.1) = after := by
  obtain ⟨hfirst, -, hlt⟩ := List.pairwise_append.mp hsort
  have hnone : (before ++ [q]).filter (fun p => isAfter (some q.1) p.1) = [] := by
    refine List.filter_eq_nil_iff.mpr ?_
    intro p hp
    unfold isAfter
    rw [Option.all_some, decide_eq_true_iff]
    rcases List.mem_append.mp hp with hp | hp
    · exact String.lt_asymm ((List.pairwise_append.mp hfirst).2.2 p hp q (by simp))
    · cases List.mem_singleton.mp hp
      exact String.lt_irrefl _
  have hall : after.filter (fun p => isAfter (some q.1) p.1) = after := by
    refine List.filter_eq_self.mpr ?_
    intro p hp
    unfold isAfter
    rw [Option.all_some, decide_eq_true_iff]
    exact hlt q (by simp) p hp
  rw [List.filter_append, hnone, hall, List.nil_append]

/-! ## All pages -/

/-- The pages a client gets from a token on, asking for the next one while the
last was truncated; at most `fuel`. -/
def pages (self : Index) (name keyPrefix : String) (delimiter : Option String) (maxKeys : Nat) :
    Nat → Option String → Option (List ListPage)
  | 0, _ => none
  | fuel + 1, startAfter =>
    match self.list name keyPrefix delimiter startAfter maxKeys with
    | .error _ => none
    | .ok page =>
      if page.isTruncated then
        (self.pages name keyPrefix delimiter maxKeys fuel page.nextContinuation).map (page :: ·)
      else some [page]

/-- A page counts its entries, and is full if it was truncated. -/
structure Counted (maxKeys : Nat) (page : ListPage) : Prop where
  count : page.keyCount = page.keys.length + page.commonPrefixes.length
  le : page.keyCount ≤ max maxKeys 1
  full : page.isTruncated = true → page.keyCount = max maxKeys 1

/-- The next page goes on after the last entry of this one, and has other folders. -/
theorem next_page {i : Index} {name : String} (hb : i.buckets[name]? = some bk)
    {before init after : List (String × ObjectMeta)} {q p : String × ObjectMeta}
    (hsplit : visible bk keyPrefix = before ++ ((init ++ [q]) ++ p :: after))
    (hnew : ∀ cp, rollup keyPrefix delimiter p.1 = some cp →
      cp ∉ folders keyPrefix delimiter (init ++ [q])) :
    (visible bk keyPrefix).filter (fun r => isAfter (some q.1) r.1) = p :: after ∧
      ∀ cp ∈ folders keyPrefix delimiter (p :: after),
        cp ∉ folders keyPrefix delimiter (init ++ [q]) := by
  have hsort : (before ++ ((init ++ [q]) ++ p :: after)).Pairwise fun a b => a.1 < b.1 := by
    rw [← hsplit]
    exact visible_sorted
  constructor
  · have hsplit' : before ++ ((init ++ [q]) ++ p :: after)
        = (before ++ init) ++ [q] ++ (p :: after) := by
      rw [List.append_assoc before init, List.append_assoc before]
    rw [hsplit'] at hsplit hsort
    rw [hsplit]
    exact filter_isAfter hsort
  · refine folders_apart (List.pairwise_append.mp hsort).2.1 ?_ hnew
    intro r hr
    refine ((mem_visible (m := r.2) hb).mp ?_).1
    rw [hsplit]
    exact List.mem_append_right _ hr

/-- The pages from a token on are those of the entries after it. -/
theorem pages_spec {i : Index} {name : String} (hb : i.buckets[name]? = some bk) {fuel : Nat}
    {before l : List (String × ObjectMeta)} (hsplit : visible bk keyPrefix = before ++ l)
    (hl : (visible bk keyPrefix).filter (fun p => isAfter startAfter p.1) = l)
    (hfuel : l.length < fuel) :
    ∃ ps, i.pages name keyPrefix delimiter maxKeys fuel startAfter = some ps ∧
      (∀ p ∈ ps, Counted maxKeys p) ∧
      ps.flatMap (·.keys) = plainKeys keyPrefix delimiter l ∧
      ps.flatMap (·.commonPrefixes) = (folders keyPrefix delimiter l).eraseDups := by
  induction fuel generalizing startAfter before l with
  | zero => exact absurd hfuel (Nat.not_lt_zero _)
  | succ fuel ih =>
    have hend : PageEnd keyPrefix delimiter (max maxKeys 1) [] l _ :=
      scan_pageOf (Nat.zero_le _)
    unfold pages
    rw [list_eq hb, hl]
    generalize scan keyPrefix delimiter (max maxKeys 1) l (pageOf keyPrefix delimiter []) = st
      at hend ⊢
    dsimp only [ListState.page]
    rcases hend with ⟨rfl, hle⟩ | ⟨taken, p, after, rfl, rfl, hfull, hnew⟩
    · rw [List.nil_append] at hle ⊢
      refine ⟨_, rfl, ?_, ?_, ?_⟩
      · intro page hpage
        cases List.mem_singleton.mp hpage
        exact ⟨rfl, hle, fun h => nomatch h⟩
      · exact List.append_nil _
      · exact List.append_nil _
    · rw [List.nil_append] at hfull hnew ⊢
      -- a full page has a last entry, whose key is the token
      obtain ⟨init, q, rfl⟩ : ∃ init q, taken = init ++ [q] := by
        rcases List.eq_nil_or_concat taken with rfl | ⟨init, q, h⟩
        · have hzero : (0 : Nat) = max maxKeys 1 := hfull
          omega
        · exact ⟨init, q, by rw [h, List.concat_eq_append]⟩
      have hlast : (pageOf keyPrefix delimiter (init ++ [q])).lastSeen = some q.1 := by
        simp [pageOf]
      obtain ⟨hrest, hapart⟩ := next_page hb hsplit hnew
      have hsplit' : visible bk keyPrefix = (before ++ (init ++ [q])) ++ (p :: after) :=
        hsplit.trans (List.append_assoc _ _ _).symm
      have hless : (p :: after).length < fuel := by
        rw [List.length_append] at hfuel
        simp only [List.length_append, List.length_cons, List.length_nil] at hfuel ⊢
        omega
      obtain ⟨ps, hps, hcount, hkeys, hfolders⟩ := ih hsplit' hrest hless
      refine ⟨ListState.page { pageOf keyPrefix delimiter (init ++ [q]) with truncated := true }
        (max maxKeys 1) :: ps, ?_, ?_, ?_, ?_⟩
      · have hnext : i.pages name keyPrefix delimiter maxKeys fuel
            (pageOf keyPrefix delimiter (init ++ [q])).lastSeen = some ps := by
          rw [hlast]
          exact hps
        rw [if_pos rfl]
        exact congrArg (Option.map _) hnext
      · intro page hpage
        rcases List.mem_cons.mp hpage with rfl | hpage
        · exact ⟨rfl, Nat.le_of_eq hfull, fun _ => hfull⟩
        · exact hcount page hpage
      · rw [List.flatMap_cons, hkeys]
        exact (List.filter_append _ _).symm
      · rw [List.flatMap_cons, hfolders, folders_append, eraseDups_append_apart hapart]
        rfl

/-! ## Complete listings -/

/-- A key that a listing returns: with the prefix, bound, and without the
delimiter in what follows the prefix. -/
def Listed (i : Index) (name keyPrefix : String) (delimiter : Option String)
    (k : String) (m : ObjectMeta) : Prop :=
  ∃ rest, k = keyPrefix ++ rest ∧ i.head name k = .ok m ∧
    ∀ d, delimiter = some d → ¬ d.toList <:+: rest.toList

/-- A folder that a listing returns: the prefix of some bound key up to and with the
first delimiter after `keyPrefix`. -/
def Folder (i : Index) (name keyPrefix : String) (delimiter : Option String)
    (cp : String) : Prop :=
  ∃ d before after m, delimiter = some d ∧
    i.head name (keyPrefix ++ (before ++ d ++ after)) = .ok m ∧
    (∀ b a : String, before ++ d ++ after = b ++ d ++ a → before.length ≤ b.length) ∧
    cp = keyPrefix ++ before ++ d

theorem startsWith_iff_append {s p : String} :
    Str.startsWith s p = true ↔ ∃ rest : String, s = p ++ rest := by
  rw [Str.startsWith_iff]
  constructor
  · rintro ⟨t, ht⟩
    exact ⟨String.ofList t, String.toList_inj.mp (by simp [ht])⟩
  · rintro ⟨rest, rfl⟩
    exact ⟨rest.toList, String.toList_append.symm⟩

theorem mem_plainKeys {i : Index} {name : String} {m : ObjectMeta}
    (hb : i.buckets[name]? = some bk) :
    (k, m) ∈ plainKeys keyPrefix delimiter (visible bk keyPrefix) ↔
      Listed i name keyPrefix delimiter k m := by
  unfold plainKeys
  rw [List.mem_filter, mem_visible hb, startsWith_iff_append, Option.isNone_iff_eq_none]
  constructor
  · rintro ⟨⟨⟨rest, rfl⟩, hhead⟩, hplain⟩
    exact ⟨rest, rfl, hhead, rollup_eq_none.mp hplain⟩
  · rintro ⟨rest, rfl, hhead, hno⟩
    exact ⟨⟨⟨rest, rfl⟩, hhead⟩, rollup_eq_none.mpr hno⟩

theorem mem_folders_visible {i : Index} {name : String} (hb : i.buckets[name]? = some bk) :
    cp ∈ folders keyPrefix delimiter (visible bk keyPrefix) ↔
      Folder i name keyPrefix delimiter cp := by
  rw [mem_folders]
  constructor
  · rintro ⟨⟨k, m⟩, hmem, hroll⟩
    obtain ⟨hk, hhead⟩ := (mem_visible hb).mp hmem
    obtain ⟨d, a, b, hd, hlist, hfind, hcp⟩ := (rollup_eq_some hk).mp hroll
    have hkey : k = keyPrefix ++ (String.ofList a ++ d ++ String.ofList b) :=
      String.toList_inj.mp (by simp [hlist])
    rw [hkey] at hhead
    refine ⟨d, String.ofList a, String.ofList b, m, hd, hhead, ?_, hcp⟩
    intro b' a' heq
    have hmin := (Str.findSub_eq_some.mp hfind).2 b'.toList a'.toList
      (by simpa using congrArg String.toList heq)
    rwa [String.length_ofList, ← String.length_toList]
  · rintro ⟨d, before, after, m, hd, hhead, hmin, rfl⟩
    have hk : Str.startsWith (keyPrefix ++ (before ++ d ++ after)) keyPrefix = true :=
      startsWith_iff_append.mpr ⟨_, rfl⟩
    refine ⟨(_, m), (mem_visible hb).mpr ⟨hk, hhead⟩, (rollup_eq_some hk).mpr
      ⟨d, before.toList, after.toList, hd, by simp, ?_, by simp⟩⟩
    refine Str.findSub_eq_some.mpr ⟨rfl, ?_⟩
    intro a' b' heq
    have hle := hmin (String.ofList a') (String.ofList b')
      (String.toList_inj.mp (by simpa using heq))
    rwa [String.length_ofList, ← String.length_toList] at hle

/-- Folders come in the order of the keys in them. -/
theorem folders_sorted : (folders keyPrefix delimiter (visible bk keyPrefix)).Pairwise (· ≤ ·) := by
  have hpre : ∀ p ∈ visible bk keyPrefix, Str.startsWith p.1 keyPrefix = true := by
    intro p hp
    obtain ⟨q, hq, hlive⟩ := List.mem_filterMap.mp hp
    rw [live_key hlive]
    exact (List.mem_filter.mp hq).2
  unfold folders
  rw [List.pairwise_filterMap]
  refine visible_sorted.imp_of_mem fun {p q} hp hq hlt cp hcp cq hcq => ?_
  refine String.not_lt.mp ?_
  intro hlt'
  -- a smaller folder of the greater key would be the lesser key's as well
  have hmid : Str.startsWith p.1 cq = true :=
    Str.startsWith_between (Str.startsWith_iff.mpr List.prefix_rfl)
      (startsWith_rollup (hpre q hq) hcq)
      (String.le_trans (String.not_lt.mp (String.lt_asymm hlt'))
        (Str.le_of_startsWith (startsWith_rollup (hpre p hp) hcp)))
      (String.not_lt.mp (String.lt_asymm hlt))
  have heq := rollup_of_startsWith (hpre q hq) hcq hmid
  rw [hcp] at heq
  cases heq
  exact String.lt_irrefl _ hlt'

theorem length_visible_le : (visible bk keyPrefix).length ≤ bk.objects.size := by
  rw [← ExtTreeMap.length_toList]
  exact Nat.le_trans (List.length_filterMap_le _ _) (List.length_filter_le _ _)

/-- A client that follows the continuation tokens gets every page after at most one
request for each binding of the bucket. All pages but the last are full; put together
they list, in order and once each, the bound keys with the prefix, with what `head`
answers for them, and the folders of the keys that contain the delimiter. -/
theorem list_complete (i : Index) (name keyPrefix : String) (delimiter : Option String)
    (maxKeys : Nat) (bk : Bucket) (hb : i.buckets[name]? = some bk)
    (fuel : Nat) (hfuel : bk.objects.size < fuel) :
    ∃ ps, i.pages name keyPrefix delimiter maxKeys fuel none = some ps ∧
      (∀ page ∈ ps, Counted maxKeys page) ∧
      ((ps.flatMap (·.keys)).map (·.1)).Pairwise (· < ·) ∧
      (∀ k m, (k, m) ∈ ps.flatMap (·.keys) ↔ Listed i name keyPrefix delimiter k m) ∧
      (ps.flatMap (·.commonPrefixes)).Pairwise (· < ·) ∧
      ∀ cp, cp ∈ ps.flatMap (·.commonPrefixes) ↔ Folder i name keyPrefix delimiter cp := by
  have hall : (visible bk keyPrefix).filter (fun p => isAfter none p.1) = visible bk keyPrefix :=
    List.filter_eq_self.mpr fun p _ => rfl
  have hlen : (visible bk keyPrefix).length < fuel := Nat.lt_of_le_of_lt length_visible_le hfuel
  obtain ⟨ps, hps, hcount, hkeys, hfolders⟩ :
      ∃ ps, i.pages name keyPrefix delimiter maxKeys fuel none = some ps ∧ _ :=
    pages_spec hb (List.nil_append _).symm hall hlen
  refine ⟨ps, hps, hcount, ?_, ?_, ?_, ?_⟩
  · rw [hkeys]
    exact List.pairwise_map.mpr (visible_sorted.filter _)
  · intro k m
    rw [hkeys]
    exact mem_plainKeys hb
  · rw [hfolders]
    exact eraseDups_sorted folders_sorted
  · intro cp
    rw [hfolders, List.mem_eraseDups]
    exact mem_folders_visible hb

private def shelf : Index :=
  (((Index.empty.makeBucket "photos" 0).2.put "photos" "a/1" (ObjectMeta.new "x" 1 "" 0)).2.put
    "photos" "b" (ObjectMeta.new "y" 2 "" 0)).2

set_option maxRecDepth 8000 in
theorem list_complete_shelf :
    (∃ bk, shelf.buckets["photos"]? = some bk ∧ bk.objects.size < 3) ∧
    ∃ ps, shelf.pages "photos" "" (some "/") 1 3 none = some ps ∧
      (∀ page ∈ ps, Counted 1 page) ∧
      ((ps.flatMap (·.keys)).map (·.1)).Pairwise (· < ·) ∧
      (∀ k m, (k, m) ∈ ps.flatMap (·.keys) ↔ Listed shelf "photos" "" (some "/") k m) ∧
      (ps.flatMap (·.commonPrefixes)).Pairwise (· < ·) ∧
      ∀ cp, cp ∈ ps.flatMap (·.commonPrefixes) ↔ Folder shelf "photos" "" (some "/") cp := by
  have hbucket : ∃ bk, shelf.buckets["photos"]? = some bk ∧ bk.objects.size < 3 :=
    ⟨_, rfl, by decide⟩
  obtain ⟨bk, hb, hsize⟩ := hbucket
  exact ⟨⟨bk, hb, hsize⟩, list_complete shelf "photos" "" (some "/") 1 bk hb 3 hsize⟩

end Index

end CeStorage
