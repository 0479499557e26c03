import CeStorage.CeRs
import CeStorage.Durable
import CeStorage.Index.Apart
import CeStorage.Index.Pages

/-!
# Lifecycle sweeps (`store.rs`)

A sweep of all buckets works on each bucket alone: `Bucket.sweep` is what it makes
of one, and no bucket sees another's. So the buckets can be swept in any order
(`sweepEach_eq`), and what one sweep leaves has nothing for another at the same
time (`expired_sweep`). `sweep_all_exact` says what `sweep_all` deletes, reports and
leaves alone.
-/

namespace CeStorage

open Lib
open Std (ExtTreeMap)

/-! ## One bucket -/

namespace Index

variable {bk : Bucket} {k k' : String} {t : Nat}

theorem frame_deleteKey : (deleteKey bk k t).frame = bk.frame := by
  unfold deleteKey Bucket.frame
  split
  · split <;> rfl
  · rfl

theorem objects_deleteKey : (deleteKey bk k t).objects[k']?
    = if k = k' then deleteHistory bk.versioning t bk.objects[k]? else bk.objects[k']? := by
  unfold deleteKey deleteHistory
  by_cases hon : bk.versioning = true
  · rw [if_pos hon, if_pos hon]
    cases hk : bk.objects[k]? with
    | none =>
      by_cases h : k = k'
      · rw [if_pos h, ← h]
        exact hk
      · rw [if_neg h]
    | some entry => exact get_insert
  · rw [if_neg hon, if_neg hon]
    exact get_erase

theorem keyExpired_iff {rules : List LifecycleRule} {entry : ObjectEntry} :
    keyExpired rules t k entry = true ↔ ∃ v rule, entry.current = some v ∧
      v.isDeleteMarker = false ∧ rules.find? (·.matchesKey k) = some rule ∧
      rule.isExpired v.meta.lastModified t = true := by
  unfold keyExpired
  cases entry.current with
  | none => simp
  | some v =>
    cases rules.find? (·.matchesKey k) with
    | none => simp
    | some rule => simp

/-- A delete leaves no live current version. -/
theorem not_live_deleteHistory {on : Bool} {old : Option ObjectEntry} {entry : ObjectEntry}
    {v : ObjectVersion} (h : deleteHistory on t old = some entry)
    (hcur : entry.current = some v) : v.isDeleteMarker = true := by
  unfold deleteHistory at h
  split at h
  · obtain ⟨e, -, rfl⟩ := Option.map_eq_some_iff.mp h
    unfold markDeleted at hcur
    split at hcur
    · unfold ObjectEntry.current at hcur
      rw [List.getLast?_concat] at hcur
      cases hcur
      rfl
    next hlive =>
      rw [hcur] at hlive
      simpa using hlive
  · exact nomatch h

end Index

namespace Bucket

variable {bk : Bucket} {k : String} {t t' : Nat}

/-- The keys of the bucket that have expired as of `t`. -/
def expired (self : Bucket) (t : Nat) : List String :=
  if self.lifecycle.isEmpty then []
  else (self.objects.toList.filter fun p => Index.keyExpired self.lifecycle t p.1 p.2).map (·.1)

/-- Delete a list of keys. -/
def deleteKeys (self : Bucket) (t : Nat) (keys : List String) : Bucket :=
  keys.foldl (fun bk k => Index.deleteKey bk k t) self

/-- Delete what has expired. -/
def sweep (self : Bucket) (t : Nat) : Bucket := self.deleteKeys t (self.expired t)

theorem mem_expired : k ∈ bk.expired t ↔
    ∃ entry, bk.objects[k]? = some entry ∧ Index.keyExpired bk.lifecycle t k entry = true := by
  unfold expired
  split
  next h =>
    -- without rules no key has one that matches
    refine iff_of_false List.not_mem_nil fun ⟨entry, _, hexp⟩ => ?_
    unfold Index.keyExpired at hexp
    rw [List.isEmpty_iff.mp h] at hexp
    split at hexp
    · simp at hexp
    · exact nomatch hexp
  next =>
    rw [List.mem_map]
    constructor
    · rintro ⟨p, hp, rfl⟩
      obtain ⟨hmem, hexp⟩ := List.mem_filter.mp hp
      exact ⟨p.2, ExtTreeMap.mem_toList_iff_getElem?_eq_some.mp hmem, hexp⟩
    · rintro ⟨entry, hentry, hexp⟩
      exact ⟨(k, entry), List.mem_filter.mpr
        ⟨ExtTreeMap.mem_toList_iff_getElem?_eq_some.mpr hentry, hexp⟩, rfl⟩

theorem expired_sorted : (bk.expired t).Pairwise (· < ·) := by
  unfold expired
  split
  · exact List.Pairwise.nil
  · exact List.pairwise_map.mpr (toList_sorted.filter _)

theorem versioning_of_frame {bk' : Bucket} (h : bk.frame = bk'.frame) :
    bk.versioning = bk'.versioning := by
  show bk.frame.versioning = bk'.frame.versioning
  rw [h]

theorem lifecycle_of_frame {bk' : Bucket} (h : bk.frame = bk'.frame) :
    bk.lifecycle = bk'.lifecycle := by
  show bk.frame.lifecycle = bk'.frame.lifecycle
  rw [h]

theorem frame_deleteKeys (keys : List String) : (bk.deleteKeys t keys).frame = bk.frame := by
  induction keys generalizing bk with
  | nil => rfl
  | cons k ks ih => exact ih.trans Index.frame_deleteKey

theorem objects_deleteKeys (keys : List String) : (bk.deleteKeys t keys).objects[k]?
    = if k ∈ keys then Index.deleteHistory bk.versioning t bk.objects[k]? else bk.objects[k]? := by
  induction keys generalizing bk with
  | nil => rw [if_neg List.not_mem_nil]; rfl
  | cons k' ks ih =>
    have hon : (Index.deleteKey bk k' t).versioning = bk.versioning :=
      versioning_of_frame Index.frame_deleteKey
    show ((Index.deleteKey bk k' t).deleteKeys t ks).objects[k]? = _
    rw [ih, hon, Index.objects_deleteKey]
    by_cases hk : k' = k
    · subst hk
      rw [if_pos rfl, if_pos List.mem_cons_self]
      split
      · exact Index.deleteHistory_deleteHistory _ _ _ _
      · rfl
    · rw [if_neg hk]
      simp only [List.mem_cons, Ne.symm hk, false_or]

theorem frame_sweep : (bk.sweep t).frame = bk.frame := frame_deleteKeys _

theorem objects_sweep : (bk.sweep t).objects[k]?
    = if k ∈ bk.expired t then Index.deleteHistory bk.versioning t bk.objects[k]?
      else bk.objects[k]? := objects_deleteKeys _

/-- Once swept, a bucket has nothing expired. -/
theorem expired_sweep : (bk.sweep t).expired t = [] := by
  refine List.eq_nil_iff_forall_not_mem.mpr fun k hk => ?_
  obtain ⟨entry, hentry, hexp⟩ := mem_expired.mp hk
  rw [lifecycle_of_frame frame_sweep] at hexp
  rw [objects_sweep] at hentry
  split at hentry
  · obtain ⟨v, rule, hcur, hlive, -⟩ := Index.keyExpired_iff.mp hexp
    rw [Index.not_live_deleteHistory hentry hcur] at hlive
    exact nomatch hlive
  next hnot => exact hnot (mem_expired.mpr ⟨entry, hentry, hexp⟩)

theorem sweep_sweep : (bk.sweep t).sweep t = bk.sweep t := by
  show (bk.sweep t).deleteKeys t ((bk.sweep t).expired t) = _
  rw [expired_sweep]
  rfl

theorem expired_mono (h : t ≤ t') (hk : k ∈ bk.expired t) : k ∈ bk.expired t' := by
  obtain ⟨entry, hentry, hexp⟩ := mem_expired.mp hk
  obtain ⟨v, rule, hcur, hlive, hrule, hdue⟩ := Index.keyExpired_iff.mp hexp
  refine mem_expired.mpr ⟨entry, hentry, Index.keyExpired_iff.mpr
    ⟨v, rule, hcur, hlive, hrule, ?_⟩⟩
  unfold LifecycleRule.isExpired at hdue ⊢
  rw [Bool.and_eq_true, decide_eq_true_iff] at hdue ⊢
  exact ⟨hdue.1, Nat.le_trans hdue.2 h⟩

end Bucket

/-! ## All buckets -/

namespace Index

variable {i : Index} {b c k : String} {t : Nat} {bk : Bucket}

theorem buckets_delete : (i.delete b k t).2.buckets[c]?
    = if b = c then (i.buckets[b]?).map fun bk => deleteKey bk k t else i.buckets[c]? := by
  unfold delete bucket
  cases hb : i.buckets[b]? with
  | none =>
    by_cases h : b = c
    · rw [if_pos h, ← h]
      exact hb
    · rw [if_neg h]
  | some bk => exact buckets_setBucket

theorem buckets_deleteAll (keys : List String) : (i.deleteAll b t keys).buckets[c]?
    = if b = c then (i.buckets[b]?).map fun bk => bk.deleteKeys t keys else i.buckets[c]? := by
  induction keys generalizing i with
  | nil =>
    show i.buckets[c]? = if b = c then (i.buckets[b]?).map id else _
    rw [Option.map_id]
    split
    next h => rw [h]; rfl
    next => rfl
  | cons k ks ih =>
    show ((i.delete b k t).2.deleteAll b t ks).buckets[c]? = _
    rw [ih, buckets_delete, buckets_delete, if_pos rfl, Option.map_map]
    split <;> rfl

theorem schema_deleteAll (keys : List String) : (i.deleteAll b t keys).schema = i.schema := by
  induction keys generalizing i with
  | nil => rfl
  | cons k ks ih => exact ih.trans (schema_apply (.delete b k t))

theorem expiredKeys_eq :
    (i.expiredKeys b t).toOption = (i.buckets[b]?).map fun bk => bk.expired t := by
  unfold expiredKeys bucket
  cases i.buckets[b]? <;> rfl

theorem buckets_sweep : (i.sweep b t).buckets[c]?
    = if b = c then (i.buckets[b]?).map fun bk => bk.sweep t else i.buckets[c]? := by
  unfold sweep
  rw [buckets_deleteAll, expiredKeys_eq]
  cases i.buckets[b]? <;> rfl

theorem schema_sweep : (i.sweep b t).schema = i.schema := schema_deleteAll _

/-- Every bucket swept. -/
def swept (self : Index) (t : Nat) : Index :=
  { self with buckets := self.buckets.map fun _ bk => bk.sweep t }

theorem buckets_swept : (i.swept t).buckets[b]? = (i.buckets[b]?).map fun bk => bk.sweep t :=
  ExtTreeMap.getElem?_map

/-- Sweep some buckets, one after the other. -/
def sweepEach (self : Index) (t : Nat) (bs : List String) : Index :=
  bs.foldl (fun i b => i.sweep b t) self

theorem buckets_sweepEach (bs : List String) : (i.sweepEach t bs).buckets[c]?
    = if c ∈ bs then (i.buckets[c]?).map fun bk => bk.sweep t else i.buckets[c]? := by
  induction bs generalizing i with
  | nil => rw [if_neg List.not_mem_nil]; rfl
  | cons b bs ih =>
    show ((i.sweep b t).sweepEach t bs).buckets[c]? = _
    rw [ih, buckets_sweep]
    by_cases hb : b = c
    · subst hb
      rw [if_pos rfl, if_pos List.mem_cons_self, Option.map_map]
      -- a bucket that was swept before is as a sweep leaves it
      have htwice : ((fun bk => bk.sweep t) ∘ fun bk => bk.sweep t)
          = fun bk : Bucket => bk.sweep t := funext fun bk => Bucket.sweep_sweep
      rw [htwice, ite_self]
    · rw [if_neg hb]
      simp only [List.mem_cons, Ne.symm hb, false_or]

theorem schema_sweepEach (bs : List String) : (i.sweepEach t bs).schema = i.schema := by
  induction bs generalizing i with
  | nil => rfl
  | cons b bs ih => exact ih.trans schema_sweep

theorem eq_of_buckets {j : Index} (hschema : i.schema = j.schema)
    (hbuckets : ∀ b : String, i.buckets[b]? = j.buckets[b]?) : i = j := by
  cases i
  cases j
  cases hschema
  exact congrArg (Index.mk _) (ExtTreeMap.ext_getElem? hbuckets)

theorem mem_listBuckets : b ∈ i.listBuckets ↔ (i.buckets[b]?).isSome := by
  unfold listBuckets
  rw [ExtTreeMap.mem_keys, ← ExtTreeMap.contains_iff_mem,
    ExtTreeMap.contains_eq_isSome_getElem?]

/-- The order of the buckets does not matter. -/
theorem sweepEach_eq {bs : List String} (h : ∀ b ∈ i.listBuckets, b ∈ bs) :
    i.sweepEach t bs = i.swept t := by
  refine eq_of_buckets (schema_sweepEach bs) fun b => ?_
  rw [buckets_sweepEach, buckets_swept]
  split
  · rfl
  next hb =>
    cases hbk : i.buckets[b]? with
    | none => rfl
    | some bk => exact absurd (h b (mem_listBuckets.mpr (by rw [hbk]; rfl))) hb

/-! ### The loop of `sweep_all` -/

theorem sweepBuckets_index (bs : List String) (any : Bool)
    (report : ExtTreeMap String (List String)) :
    (i.sweepBuckets t bs any report).1 = i.sweepEach t bs := by
  induction bs generalizing i any report with
  | nil => rfl
  | cons b bs ih =>
    unfold sweepBuckets
    dsimp only
    show _ = (i.sweep b t).sweepEach t bs
    split
    next he =>
      have hsame : i.sweep b t = i := by
        unfold sweep
        rw [List.isEmpty_iff.mp he]
        rfl
      rw [ih, hsame]
    next => exact ih _ _

/-- What the sweep reports of a bucket. -/
def expiredIn (self : Index) (t : Nat) (b : String) : List String :=
  (self.expiredKeys b t).toOption.getD []

theorem expiredIn_sweep : (i.sweep b t).expiredIn t c = if b = c then [] else i.expiredIn t c := by
  unfold expiredIn
  rw [expiredKeys_eq, expiredKeys_eq, buckets_sweep]
  by_cases h : b = c
  · rw [if_pos h, if_pos h, Option.map_map]
    cases i.buckets[b]? with
    | none => rfl
    | some bk => exact Bucket.expired_sweep
  · rw [if_neg h, if_neg h]

/-- The report of the loop: what had expired in each bucket that it went over, on
top of what it had. -/
theorem sweepBuckets_report (bs : List String) (any : Bool)
    (report : ExtTreeMap String (List String)) :
    (i.sweepBuckets t bs any report).2.2[c]?
      = if c ∈ bs ∧ i.expiredIn t c ≠ [] then some (i.expiredIn t c) else report[c]? := by
  induction bs generalizing i any report with
  | nil => rw [if_neg fun h => List.not_mem_nil h.1]; rfl
  | cons b bs ih =>
    unfold sweepBuckets
    dsimp only
    rw [show ((i.expiredKeys b t).toOption).getD [] = i.expiredIn t b from rfl]
    split
    next he =>
      rw [ih]
      rw [List.isEmpty_iff] at he
      by_cases hb : b = c
      · subst hb
        simp [he]
      · simp [Ne.symm hb]
    next he =>
      rw [List.isEmpty_iff] at he
      have hsweep : i.deleteAll b t (i.expiredIn t b) = i.sweep b t := rfl
      rw [hsweep, ih, expiredIn_sweep, get_insert]
      by_cases hb : b = c
      · subst hb
        simp [he]
      · simp [hb, Ne.symm hb]

theorem sweepBuckets_nothing {bs : List String} {any : Bool}
    {report : ExtTreeMap String (List String)} (h : ∀ b ∈ bs, i.expiredIn t b = []) :
    i.sweepBuckets t bs any report = (i, any, report) := by
  induction bs with
  | nil => rfl
  | cons b bs ih =>
    unfold sweepBuckets
    dsimp only
    rw [show ((i.expiredKeys b t).toOption).getD [] = i.expiredIn t b from rfl,
      if_pos (List.isEmpty_iff.mpr (h b List.mem_cons_self))]
    exact ih fun c hc => h c (List.mem_cons_of_mem b hc)

/-- The report of a sweep of all buckets. -/
def sweepReport (self : Index) (t : Nat) : ExtTreeMap String (List String) :=
  (self.sweepBuckets t self.listBuckets false ∅).2.2

theorem sweepReport_getD : ((i.sweepReport t)[b]?).getD [] = i.expiredIn t b := by
  unfold sweepReport
  rw [sweepBuckets_report, ExtTreeMap.getElem?_empty]
  by_cases he : i.expiredIn t b = []
  · rw [he, if_neg fun h => h.2 rfl]
    rfl
  · rw [if_pos, Option.getD_some]
    refine ⟨mem_listBuckets.mpr ?_, he⟩
    unfold expiredIn at he
    rw [expiredKeys_eq] at he
    cases hb : i.buckets[b]? with
    | none => rw [hb] at he; exact absurd rfl he
    | some bk => rfl

theorem sweepReport_nonempty {keys : List String} (h : (i.sweepReport t)[b]? = some keys) :
    keys ≠ [] := by
  unfold sweepReport at h
  rw [sweepBuckets_report, ExtTreeMap.getElem?_empty] at h
  split at h
  next hne =>
    cases h
    exact hne.2
  next => exact nomatch h

/-! ### What is gone and what stays -/

theorem mem_expiredIn : k ∈ i.expiredIn t b ↔ ∃ bk, i.buckets[b]? = some bk ∧ k ∈ bk.expired t := by
  unfold expiredIn
  rw [expiredKeys_eq]
  cases i.buckets[b]? with
  | none => simp
  | some bk => simp

theorem history_swept {on : Bool} (hon : i.isVersioned b = .ok on) :
    (i.swept t).history b k
      = if k ∈ i.expiredIn t b then deleteHistory on t (i.history b k) else i.history b k := by
  obtain ⟨bk, hb, rfl⟩ := isVersioned_eq_ok.mp hon
  have hswept : (i.swept t).buckets[b]? = some (bk.sweep t) := by
    rw [buckets_swept, hb]
    rfl
  rw [history_of_bucket hswept, history_of_bucket hb, Bucket.objects_sweep]
  have hmem : k ∈ i.expiredIn t b ↔ k ∈ bk.expired t := by
    rw [mem_expiredIn, hb]
    simp
  simp only [hmem]

theorem frame_swept : ((i.swept t).buckets[b]?).map Bucket.frame
    = (i.buckets[b]?).map Bucket.frame := by
  rw [buckets_swept, Option.map_map]
  exact congrArg (Option.map · _) (funext fun bk => Bucket.frame_sweep)

/-- What is listed is bound. -/
theorem mem_scan {keyPrefix : String} {delimiter : Option String} {maxKeys : Nat}
    {l : List (String × ObjectMeta)} {st : ListState} {p : String × ObjectMeta}
    (h : p ∈ (scan keyPrefix delimiter maxKeys l st).keys) : p ∈ st.keys ∨ p ∈ l := by
  induction l generalizing st with
  | nil => exact .inl h
  | cons q rest ih =>
    unfold scan at h
    split at h
    · split at h
      · exact (ih h).imp_right (List.mem_cons_of_mem q)
      · split at h
        · exact .inl h
        · exact (ih h).imp_right (List.mem_cons_of_mem q)
    · split at h
      · exact .inl h
      · rcases ih h with hst | hrest
        · rcases List.mem_append.mp hst with hst | hq
          · exact .inl hst
          · obtain rfl := List.mem_singleton.mp hq
            exact .inr List.mem_cons_self
        · exact .inr (List.mem_cons_of_mem q hrest)

theorem head_of_listed {keyPrefix : String} {delimiter startAfter : Option String}
    {maxKeys : Nat} {page : ListPage} {m : ObjectMeta}
    (h : i.list b keyPrefix delimiter startAfter maxKeys = .ok page) (hk : (k, m) ∈ page.keys) :
    i.head b k = .ok m := by
  cases hb : i.buckets[b]? with
  | none =>
    unfold list bucket at h
    rw [hb] at h
    exact nomatch h
  | some bk =>
    rw [list_eq hb] at h
    cases h
    rcases mem_scan hk with hst | hl
    · exact absurd hst List.not_mem_nil
    · exact ((mem_visible hb).mp (List.mem_filter.mp hl).1).2

end Index

/-! ## What a sweep of all buckets promises -/

namespace Index

/-- The key's current version is live, and `rule` is the first that matches the key. -/
structure Governs (i : Index) (b k : String) (v : ObjectVersion) (rule : LifecycleRule) : Prop where
  current : ∃ entry, i.history b k = some entry ∧ entry.current = some v
  live : v.isDeleteMarker = false
  first : ∃ bk, i.buckets[b]? = some bk ∧ bk.lifecycle.find? (·.matchesKey k) = some rule

/-- The key is due: its rule has a TTL, which has run out. -/
def Due (i : Index) (b k : String) (t : Nat) : Prop :=
  ∃ v rule, i.Governs b k v rule ∧ rule.expirationSecs ≠ 0 ∧
    v.meta.lastModified + rule.expirationSecs ≤ t

/-- The time that the key is due fits a `u64`. -/
def SumFits (i : Index) (b k : String) : Prop :=
  ∀ v rule, i.Governs b k v rule → v.meta.lastModified + rule.expirationSecs < 2 ^ 64

/-- `j` is `i` without the due keys, which `report` lists. -/
structure Swept (i : Index) (t : Nat) (j : Index) (report : ExtTreeMap String (List String)) :
    Prop where
  /-- Reported, and so deleted, is exactly what is due. -/
  due : ∀ b k, i.SumFits b k → (k ∈ (report[b]?).getD [] ↔ i.Due b k t)
  sorted : ∀ b : String, ((report[b]?).getD []).Pairwise (· < ·)
  nonempty : ∀ (b : String) keys, report[b]? = some keys → keys ≠ []
  /-- A versioned bucket keeps what there was below a delete marker. -/
  marked : ∀ b k, i.isVersioned b = .ok true → k ∈ (report[b]?).getD [] →
    ∃ entry, i.history b k = some entry ∧
      j.history b k = some ⟨entry.versions ++ [deleteMarker t]⟩
  removed : ∀ b k, i.isVersioned b = .ok false → k ∈ (report[b]?).getD [] → j.history b k = none
  kept : ∀ b k, k ∉ (report[b]?).getD [] → j.history b k = i.history b k
  frame : ∀ b : String, (j.buckets[b]?).map Bucket.frame = (i.buckets[b]?).map Bucket.frame
  schema : j.schema = i.schema
  not_head : ∀ b k, k ∈ (report[b]?).getD [] → ∀ m, j.head b k ≠ .ok m
  not_listed : ∀ b k, k ∈ (report[b]?).getD [] → ∀ keyPrefix delimiter startAfter maxKeys page m,
    j.list b keyPrefix delimiter startAfter maxKeys = .ok page → (k, m) ∉ page.keys

section
variable {i : Index} {b k : String} {t : Nat}

theorem governs_of_expired (h : k ∈ i.expiredIn t b) :
    ∃ v rule, i.Governs b k v rule ∧ rule.isExpired v.meta.lastModified t = true := by
  obtain ⟨bk, hb, hk⟩ := mem_expiredIn.mp h
  obtain ⟨entry, hentry, hexp⟩ := Bucket.mem_expired.mp hk
  obtain ⟨v, rule, hcur, hlive, hrule, hdue⟩ := keyExpired_iff.mp hexp
  exact ⟨v, rule, ⟨⟨entry, (history_of_bucket hb).trans hentry, hcur⟩, hlive, bk, hb, hrule⟩, hdue⟩

theorem expired_of_governs {v : ObjectVersion} {rule : LifecycleRule} (h : i.Governs b k v rule)
    (hdue : rule.isExpired v.meta.lastModified t = true) : k ∈ i.expiredIn t b := by
  obtain ⟨entry, hentry, hcur⟩ := h.current
  obtain ⟨bk, hb, hrule⟩ := h.first
  rw [history_of_bucket hb] at hentry
  exact mem_expiredIn.mpr ⟨bk, hb, Bucket.mem_expired.mpr
    ⟨entry, hentry, keyExpired_iff.mpr ⟨v, rule, hcur, h.live, hrule, hdue⟩⟩⟩

/-- Below 2^64 nothing saturates. -/
theorem isExpired_iff {rule : LifecycleRule} {lastModified : Nat}
    (h : lastModified + rule.expirationSecs < 2 ^ 64) : rule.isExpired lastModified t = true ↔
      rule.expirationSecs ≠ 0 ∧ lastModified + rule.expirationSecs ≤ t := by
  unfold LifecycleRule.isExpired Str.saturatingAdd
  rw [Nat.min_eq_left (by omega), Bool.and_eq_true, bne_iff_ne, decide_eq_true_iff]

theorem expiredIn_iff_due (h : i.SumFits b k) : k ∈ i.expiredIn t b ↔ i.Due b k t := by
  constructor
  · intro hk
    obtain ⟨v, rule, hgov, hexp⟩ := governs_of_expired hk
    exact ⟨v, rule, hgov, (isExpired_iff (h v rule hgov)).mp hexp⟩
  · rintro ⟨v, rule, hgov, hdue⟩
    exact expired_of_governs hgov ((isExpired_iff (h v rule hgov)).mpr hdue)

/-- A live current version gets a marker on top. -/
theorem markDeleted_live {entry : ObjectEntry} {v : ObjectVersion} (hcur : entry.current = some v)
    (hlive : v.isDeleteMarker = false) :
    markDeleted t entry = ⟨entry.versions ++ [deleteMarker t]⟩ := by
  unfold markDeleted
  rw [hcur, if_pos]
  simpa using hlive

theorem swept_spec (i : Index) (t : Nat) : Swept i t (i.swept t) (i.sweepReport t) := by
  have hgone : ∀ {b k}, k ∈ i.expiredIn t b → ∀ m, (i.swept t).head b k ≠ .ok m := by
    intro b k hk m hm
    obtain ⟨bk, hb, -⟩ := mem_expiredIn.mp hk
    obtain ⟨entry, v, hentry, hcur, hlive, -⟩ := head_eq_ok.mp hm
    rw [history_swept (isVersioned_eq_ok.mpr ⟨bk, hb, rfl⟩), if_pos hk] at hentry
    rw [not_live_deleteHistory hentry hcur] at hlive
    exact nomatch hlive
  refine
    { due := ?_, sorted := ?_, nonempty := fun b keys => sweepReport_nonempty, marked := ?_
      removed := ?_, kept := ?_, frame := fun b => frame_swept, schema := rfl, not_head := ?_
      not_listed := ?_ }
  · intro b k hfits
    rw [sweepReport_getD]
    exact expiredIn_iff_due hfits
  · intro b
    rw [sweepReport_getD]
    unfold expiredIn
    rw [expiredKeys_eq]
    cases i.buckets[b]? with
    | none => exact List.Pairwise.nil
    | some bk => exact Bucket.expired_sorted
  · intro b k hon hk
    rw [sweepReport_getD] at hk
    obtain ⟨v, rule, hgov, -⟩ := governs_of_expired hk
    obtain ⟨entry, hentry, hcur⟩ := hgov.current
    refine ⟨entry, hentry, ?_⟩
    rw [history_swept hon, if_pos hk, hentry]
    exact congrArg some (markDeleted_live hcur hgov.live)
  · intro b k hon hk
    rw [sweepReport_getD] at hk
    rw [history_swept hon, if_pos hk]
    rfl
  · intro b k hk
    rw [sweepReport_getD] at hk
    cases hb : i.buckets[b]? with
    | none =>
      unfold history
      rw [buckets_swept, hb]
      rfl
    | some bk => rw [history_swept (isVersioned_eq_ok.mpr ⟨bk, hb, rfl⟩), if_neg hk]
  · intro b k hk
    rw [sweepReport_getD] at hk
    exact hgone hk
  · intro b k hk keyPrefix delimiter startAfter maxKeys page m hlist hmem
    rw [sweepReport_getD] at hk
    exact hgone hk m (head_of_listed hlist hmem)

theorem expiredIn_mono {t' : Nat} (h : t ≤ t') (hk : k ∈ i.expiredIn t b) :
    k ∈ i.expiredIn t' b := by
  obtain ⟨bk, hb, hk⟩ := mem_expiredIn.mp hk
  exact mem_expiredIn.mpr ⟨bk, hb, Bucket.expired_mono h hk⟩

theorem expiredIn_swept : (i.swept t).expiredIn t b = [] := by
  unfold expiredIn
  rw [expiredKeys_eq, buckets_swept]
  cases i.buckets[b]? with
  | none => rfl
  | some bk => exact Bucket.expired_sweep

end

end Index

/-! ## The operations -/

/-- Sweep some buckets with `sweep_expired`, one call after the other. -/
def sweepInTurn (ce : CeRs) (env : Env) : List String → Store → World →
    List (Except String (List String)) × Store × World
  | [], s, w => ([], s, w)
  | b :: bs, s, w =>
    let r := (Store.sweepExpired b).exec ce env s w
    let rest := sweepInTurn ce env bs r.1.2 r.2
    (r.1.1 :: rest.1, rest.2)

/-- A call of `sweep_all` on the index `i` deletes what is due and reports it, a second
one at the same time does nothing, and `sweep_expired` on each bucket in any order
leaves the same index. -/
structure SweepsExactly (ce : CeRs) (env : Env) (s : Store) (w : World) (i : Index) : Prop where
  once : ∃ (j : Index) (report : ExtTreeMap String (List String)) (s' : Store) (w' : World),
    Store.sweepAll.exec ce env s w = ((.ok report, s'), w') ∧ s'.index = j ∧
    env.loadIndex w' = .ok j ∧ Index.Swept i env.now j report ∧
    Store.sweepAll.exec ce env s' w' = ((.ok ∅, s'), w') ∧
    ∀ bs : List String, bs.Perm i.listBuckets → ∃ s'' w'',
      sweepInTurn ce env bs s w = (bs.map fun b => .ok ((report[b]?).getD []), s'', w'') ∧
      env.loadIndex w'' = .ok j
  /-- Without writes in between, what has expired stays expired. -/
  grows : ∀ b t t' keys keys', t ≤ t' → i.expiredKeys b t = .ok keys →
    i.expiredKeys b t' = .ok keys' → keys ⊆ keys'

section
variable {ce : CeRs} {env : Env} {s : Store} {w : World} {i j : Index}

/-- What was saved is loaded again. -/
theorem loadIndex_saved (hload : env.loadIndex w = .ok i) (hj : j.schema = i.schema) (pid : Nat) :
    env.loadIndex (w.saved .index pid (.index j)) = .ok j := by
  refine env.loadIndex_kept hload hj ?_
  rw [World.files_saved, Function.update_self]

variable (s) in
/-- A transaction that keeps what it has loaded, or saves an edit of it. -/
theorem transact_settles {α : Type} {d : Index → Decision String α} {a : α}
    (hload : env.loadIndex w = .ok i) (hsave : env.saveFails .index = none) (hj : j.schema = i.schema)
    (hd : d i = .save j a ∨ j = i ∧ d i = .keep a) :
    ∃ w', env.transact id (fun i => (d i, [])) s w = ((.ok a, { s with index := j }), w') ∧
      env.loadIndex w' = .ok j := by
  unfold Env.transact
  rw [hload]
  dsimp only
  rcases hd with hd | ⟨rfl, hd⟩
  · rw [hd]
    dsimp only
    unfold Env.commit
    rw [hsave]
    exact ⟨_, rfl, loadIndex_saved hload hj s.pid⟩
  · rw [hd]
    exact ⟨w, rfl, hload⟩

theorem sweepDecision_eq {b : String} {t : Nat} (hb : b ∈ i.listBuckets) :
    sweepDecision b t i = .save (i.sweep b t) (i.expiredIn t b) ∨
      i.sweep b t = i ∧ sweepDecision b t i = .keep (i.expiredIn t b) := by
  have hkeys : i.expiredKeys b t = .ok (i.expiredIn t b) := by
    obtain ⟨bk, hbk⟩ := Option.isSome_iff_exists.mp (Index.mem_listBuckets.mp hb)
    unfold Index.expiredIn Index.expiredKeys
    rw [Index.bucket_eq_ok.mpr hbk]
    rfl
  unfold sweepDecision
  rw [hkeys]
  dsimp only
  split
  next he =>
    refine .inr ⟨?_, rfl⟩
    show i.deleteAll b t (i.expiredIn t b) = i
    rw [List.isEmpty_iff.mp he]
    rfl
  next => exact .inl rfl

theorem sweepAllDecision_eq {t : Nat} :
    sweepAllDecision t i = .save (i.swept t) (i.sweepReport t) ∨
      i.swept t = i ∧ sweepAllDecision t i = .keep (i.sweepReport t) := by
  have hindex : (i.sweepBuckets t i.listBuckets false ∅).1 = i.swept t := by
    rw [Index.sweepBuckets_index, Index.sweepEach_eq fun b hb => hb]
  unfold sweepAllDecision
  dsimp only
  rw [hindex]
  split
  next => exact .inl rfl
  next hany =>
    refine .inr ⟨?_, rfl⟩
    rw [← hindex]
    exact Index.sweepBuckets_keep _ i false ∅ (by simpa using hany)

variable (ce s) in
/-- A sweep of one bucket. -/
theorem sweepExpired_exec (hlock : env.lock = .ok ()) (hload : env.loadIndex w = .ok i)
    (hsave : env.saveFails .index = none) {b : String} (hb : b ∈ i.listBuckets) :
    ∃ w', (Store.sweepExpired b).exec ce env s w
        = ((.ok (i.expiredIn env.now b), { s with index := i.sweep b env.now }), w') ∧
      env.loadIndex w' = .ok (i.sweep b env.now) := by
  obtain ⟨w', hrun, hw'⟩ := transact_settles s hload hsave Index.schema_sweep
    (sweepDecision_eq (t := env.now) hb)
  refine ⟨w', ?_, hw'⟩
  rw [Op.exec_of_lock hlock, exec_sweepExpired, hrun]

variable (ce s) in
theorem sweepInTurn_exec (hlock : env.lock = .ok ()) (hsave : env.saveFails .index = none)
    {bs : List String} (hnodup : bs.Nodup) (hbs : ∀ b ∈ bs, b ∈ i.listBuckets)
    (hload : env.loadIndex w = .ok i) :
    ∃ s' w', sweepInTurn ce env bs s w
        = (bs.map fun b => .ok (i.expiredIn env.now b), s', w') ∧
      env.loadIndex w' = .ok (i.sweepEach env.now bs) := by
  induction bs generalizing i s w with
  | nil => exact ⟨s, w, rfl, hload⟩
  | cons b bs ih =>
    obtain ⟨hfresh, hnodup⟩ := List.nodup_cons.mp hnodup
    obtain ⟨w₁, hone, hw₁⟩ := sweepExpired_exec ce s hlock hload hsave
      (hbs b List.mem_cons_self)
    have hstill : ∀ c ∈ bs, c ∈ (i.sweep b env.now).listBuckets := by
      intro c hc
      have hin := Index.mem_listBuckets.mp (hbs c (List.mem_cons_of_mem b hc))
      rw [Index.mem_listBuckets, Index.buckets_sweep, if_neg (ne_of_mem_of_not_mem hc hfresh).symm]
      exact hin
    obtain ⟨s₂, w₂, hrest, hw₂⟩ := ih { s with index := i.sweep b env.now } hnodup hstill hw₁
    refine ⟨s₂, w₂, ?_, hw₂⟩
    -- the sweep of `b` expires nothing in the others
    have hothers : (bs.map fun c => (.ok ((i.sweep b env.now).expiredIn env.now c) : Except String _))
        = bs.map fun c => .ok (i.expiredIn env.now c) := by
      refine List.map_congr_left fun c hc => ?_
      rw [Index.expiredIn_sweep, if_neg (ne_of_mem_of_not_mem hc hfresh).symm]
    unfold sweepInTurn
    rw [hone]
    dsimp only
    rw [hrest, hothers]
    rfl

variable (ce s) in
theorem sweepAll_exec (hlock : env.lock = .ok ()) (hload : env.loadIndex w = .ok i)
    (hsave : env.saveFails .index = none) :
    ∃ w', Store.sweepAll.exec ce env s w
        = ((.ok (i.sweepReport env.now), { s with index := i.swept env.now }), w') ∧
      env.loadIndex w' = .ok (i.swept env.now) := by
  obtain ⟨w', hrun, hw'⟩ := transact_settles s (j := i.swept env.now) hload hsave rfl
    sweepAllDecision_eq
  refine ⟨w', ?_, hw'⟩
  rw [Op.exec_of_lock hlock, exec_sweepAll, hrun]

/-- Nothing expired: nothing is written. -/
theorem sweepAll_exec_nothing (hlock : env.lock = .ok ()) (hload : env.loadIndex w = .ok i)
    (h : ∀ b, i.expiredIn env.now b = []) :
    Store.sweepAll.exec ce env s w = ((.ok ∅, { s with index := i }), w) := by
  rw [Op.exec_of_lock hlock, exec_sweepAll]
  unfold Env.transact sweepAllDecision
  rw [hload]
  dsimp only
  rw [Index.sweepBuckets_nothing fun b _ => h b]
  rfl

end

/-- `sweep_all` deletes exactly the due keys, of any index that can be loaded. -/
theorem sweep_all_exact (ce : CeRs) (env : Env) (s : Store) (w : World) (i : Index)
    (hlock : env.lock = .ok ()) (hload : env.loadIndex w = .ok i)
    (hsave : env.saveFails .index = none) : SweepsExactly ce env s w i := by
  constructor
  · obtain ⟨w', hrun, hw'⟩ := sweepAll_exec ce s hlock hload hsave
    refine ⟨i.swept env.now, _, _, w', hrun, rfl, hw', Index.swept_spec i env.now, ?_, ?_⟩
    · exact sweepAll_exec_nothing hlock hw' fun b => Index.expiredIn_swept
    · intro bs hperm
      have hnodup : bs.Nodup := hperm.nodup_iff.mpr ExtTreeMap.nodup_keys
      obtain ⟨s'', w'', hturn, hw''⟩ := sweepInTurn_exec ce s hlock hsave hnodup
        (fun b hb => hperm.mem_iff.mp hb) hload
      refine ⟨s'', w'', ?_, ?_⟩
      · rw [hturn]
        simp only [Index.sweepReport_getD]
      · rw [hw'', Index.sweepEach_eq fun b hb => hperm.mem_iff.mpr hb]
  · intro b t t' keys keys' hle hkeys hkeys' k hk
    have hin : k ∈ i.expiredIn t b := by
      unfold Index.expiredIn
      rw [hkeys]
      exact hk
    have hin' := Index.expiredIn_mono hle hin
    unfold Index.expiredIn at hin'
    rw [hkeys'] at hin'
    exact hin'

/-! ### One key -/

private def expiring : Index :=
  (((Index.empty.makeBucket "photos" 0).2.setLifecycle "photos" [⟨"", 3⟩]).2.put "photos" "cat"
    (ObjectMeta.new "one" 1 "" 5)).2

private def shelfDisk : World := World.blank.setFile .index (some (.index expiring))

set_option maxRecDepth 8000 in
theorem sweep_all_exact_cat :
    SweepsExactly CeRs.plain (Env.calm CeRs.plain 9 "u") (.fresh 1) shelfDisk expiring :=
  sweep_all_exact _ _ _ _ _ rfl rfl rfl

end CeStorage
