import CeStorage.Seal
import CeStorage.Store.Apart
import CeStorage.CeRs

/-!
# Sealed puts (`store.rs`)

`putObjectSealed` seals the plaintext and hands the record to `putObjectOpts`,
with two metadata entries that mark the object. Both check the request: the one
sees the plaintext and the caller's options, the other what the first made of
them, which is larger.

`sealed_accepts_iff` says when the two checks come to the same as `putObjectOpts`
on the plaintext itself.
-/

namespace CeStorage

open Lib
open Std (ExtTreeMap)

/-- The names of the two entries that mark a sealed object. -/
def sealedMark : String := "ce-sealed"
def plaintextSizeMark : String := "ce-plaintext-size"

/-- The options that the record is put with. -/
def sealedOptions (opts : PutOptions) (plaintextLen : Nat) : PutOptions :=
  { opts with
    contentType := sealedContentType
    metadata := (opts.metadata.insert sealedMark "1").insert plaintextSizeMark
      (toString plaintextLen) }

namespace Store

/-- `PutObject` of a sealed object, with the salt that `seal` draws. -/
def putObjectSealed (sha : Sha256) (salt : Salt) (self : Store) (bucket key : String)
    (plaintext userKey : Bytes) (opts : PutOptions) : Op StorageError ObjectMeta :=
  if self.maxObjectSize < plaintext.length then
    .refused (.invalidRequest
      s!"object size {plaintext.length} exceeds max {self.maxObjectSize} bytes")
  else if userKey.isEmpty then
    .refused (.invalidRequest "sealed objects require a non-empty key")
  else
    -- the same checks once more, on the record and the marked metadata
    self.putObjectOpts bucket key («seal» sha plaintext userKey salt)
      (sealedOptions opts plaintext.length)

/-- `GetObject` of a sealed object: the size is that of the plaintext. -/
def getObjectSealed (sha : Sha256) (bucket key : String) (userKey : Bytes)
    (versionId : Option String) : Act StorageError GetResult := do
  let res ← getObjectOpts bucket key versionId {}
  let plaintext ← Act.lift ((«unseal» sha res.bytes userKey).mapError fun e =>
    StorageError.invalidRequest s!"unsealing object: {e}")
  pure { res with bytes := plaintext, totalSize := plaintext.length }

end Store

/-! ## Metadata checks -/

/-- A check of every element of a list. -/
theorem forM_eq_ok {ε α : Type} {f : α → Except ε Unit} {l : List α} :
    l.forM f = .ok () ↔ ∀ a ∈ l, f a = .ok () := by
  induction l with
  | nil => exact iff_of_true rfl fun _ h => nomatch h
  | cons a l ih =>
    show (f a >>= fun _ => l.forM f) = .ok () ↔ _
    rw [List.forall_mem_cons, ← ih]
    cases f a with
    | error e => exact iff_of_false (fun h => nomatch h) fun h => nomatch h.1
    | ok u => exact ⟨fun h => ⟨rfl, h⟩, fun h => h.2⟩

theorem validateUserMetadata_ok {m : UserMetadata} : validateUserMetadata m = .ok () ↔
    m.size ≤ maxUserMetadataEntries ∧
      ∀ (k v : String), m[k]? = some v → validateUserMetadataEntry k v = .ok () := by
  unfold validateUserMetadata
  split
  next h => exact iff_of_false (fun hf => nomatch hf) fun hok => Nat.not_lt.mpr hok.1 h
  next h =>
    rw [forM_eq_ok]
    refine ⟨fun hall => ⟨Nat.le_of_not_lt h, ?_⟩, fun hok p hp => ?_⟩
    · intro k v hkv
      exact hall (k, v) (ExtTreeMap.mem_toList_iff_getElem?_eq_some.mpr hkv)
    · exact hok.2 p.1 p.2 (ExtTreeMap.mem_toList_iff_getElem?_eq_some.mp hp)

/-- A character takes at most four bytes. -/
theorem len_ofList_le (cs : List Char) : Str.len (String.ofList cs) ≤ 4 * cs.length := by
  unfold Str.len
  induction cs with
  | nil => exact Nat.le_refl 0
  | cons c cs ih =>
    rw [String.ofList_cons, String.utf8ByteSize_append, String.utf8ByteSize_singleton,
      List.length_cons]
    have hc := c.utf8Size_le_four
    omega

/-- The decimal text of a `u64` passes as a metadata value. -/
theorem validEntry_size {n : Nat} (hn : n < 2 ^ 64) :
    validateUserMetadataEntry plaintextSizeMark (toString n) = .ok () := by
  have hdigit : ∀ c ∈ (toString n).toList, c.isDigit = true := by
    rw [Nat.toString_eq_repr, Nat.toList_repr]
    exact fun c hc => Nat.isDigit_of_mem_toDigits (by decide) (by decide) hc
  have hlen : Str.len (toString n) ≤ maxUserMetadataLen := by
    have h20 : (Nat.toDigits 10 n).length ≤ 20 :=
      (Nat.length_toDigits_le_iff (by decide) (by decide)).mpr (Nat.lt_of_lt_of_le hn (by decide))
    rw [Nat.toString_eq_ofList_toDigits]
    refine Nat.le_trans (len_ofList_le _) ?_
    unfold maxUserMetadataLen
    omega
  have hnul : Str.containsChar (toString n) '\x00' = false := by
    unfold Str.containsChar
    rw [← Bool.not_eq_true, List.contains_iff_mem]
    exact fun hmem => absurd (hdigit _ hmem) (by decide)
  unfold validateUserMetadataEntry
  rw [if_neg (by decide), if_neg, if_neg]
  · rw [hnul]
    decide
  · rw [not_or]
    exact ⟨by decide, Nat.not_lt.mpr hlen⟩

theorem validEntry_mark : validateUserMetadataEntry sealedMark "1" = .ok () := by decide

/-! ## What sealing adds -/

/-- How many of the two entries are new in the caller's metadata. -/
def missingMarks (md : UserMetadata) : Nat :=
  ([sealedMark, plaintextSizeMark].filter fun k => !md.contains k).length

/-- There is room for the 49 bytes of the record and for the new entries. -/
structure SealRoom (maxObjectSize plaintextLen : Nat) (md : UserMetadata) : Prop where
  size : plaintextLen + (1 + saltLen + tagLen) ≤ maxObjectSize
  entries : md.size + missingMarks md ≤ maxUserMetadataEntries

/-- The caller's entries under the two names pass. -/
def MarksValid (md : UserMetadata) : Prop :=
  ∀ (k v : String), md[k]? = some v → k = sealedMark ∨ k = plaintextSizeMark →
    validateUserMetadataEntry k v = .ok ()

/-- The caller's other entries pass. -/
def OthersValid (md : UserMetadata) : Prop :=
  ∀ (k v : String), md[k]? = some v → ¬(k = sealedMark ∨ k = plaintextSizeMark) →
    validateUserMetadataEntry k v = .ok ()

theorem validateUserMetadata_marks {md : UserMetadata} : validateUserMetadata md = .ok () ↔
    (md.size ≤ maxUserMetadataEntries ∧ MarksValid md) ∧ OthersValid md := by
  rw [validateUserMetadata_ok, and_assoc]
  refine and_congr_right fun _ => ⟨fun h => ⟨fun k v hkv _ => h k v hkv, fun k v hkv _ => h k v hkv⟩,
    fun h k v hkv => ?_⟩
  by_cases hk : k = sealedMark ∨ k = plaintextSizeMark
  · exact h.1 k v hkv hk
  · exact h.2 k v hkv hk

theorem size_sealedOptions (opts : PutOptions) (n : Nat) :
    (sealedOptions opts n).metadata.size = opts.metadata.size + missingMarks opts.metadata := by
  have hother : (opts.metadata.insert sealedMark "1").contains plaintextSizeMark
      = opts.metadata.contains plaintextSizeMark := by
    rw [ExtTreeMap.contains_insert]
    rfl
  unfold sealedOptions missingMarks
  dsimp only
  rw [ExtTreeMap.size_insert, ExtTreeMap.size_insert, hother]
  cases h₁ : opts.metadata.contains sealedMark <;>
    cases h₂ : opts.metadata.contains plaintextSizeMark <;> simp [h₁, h₂]

/-- The marked metadata passes when the other entries do and there is room: the
marks themselves are valid, and replace what the caller had there. -/
theorem validate_sealedOptions {opts : PutOptions} {n : Nat} (hn : n < 2 ^ 64) :
    validateUserMetadata (sealedOptions opts n).metadata = .ok () ↔
      opts.metadata.size + missingMarks opts.metadata ≤ maxUserMetadataEntries ∧
        OthersValid opts.metadata := by
  rw [validateUserMetadata_ok, size_sealedOptions]
  refine and_congr_right fun _ => ⟨fun h k v hkv hk => h k v ?_, fun h k v hkv => ?_⟩
  · rw [not_or] at hk
    unfold sealedOptions
    dsimp only
    rw [get_insert_ne (Ne.symm hk.2), get_insert_ne (Ne.symm hk.1)]
    exact hkv
  · unfold sealedOptions at hkv
    dsimp only at hkv
    rw [get_insert, get_insert] at hkv
    split at hkv
    next hsize =>
      subst hsize
      cases hkv
      exact validEntry_size hn
    next hsize =>
      split at hkv
      next hmark =>
        subst hmark
        cases hkv
        exact validEntry_mark
      next hmark => exact h k v hkv (not_or.mpr ⟨Ne.symm hmark, Ne.symm hsize⟩)

/-! ## The two checks -/

/-- Rejected as an invalid request. -/
def Rejected {α : Type} (r : Except StorageError α) : Prop := ∃ m, r = .error (.invalidRequest m)

section
variable {ce : CeRs} {env : Env} {s : Store} {w : World} {k : String} {bytes : Bytes}
  {opts : PutOptions}

theorem putCheck_eq_ok {maxObjectSize : Nat} : putCheck maxObjectSize k bytes opts = .ok () ↔
    bytes.length ≤ maxObjectSize ∧ validKey k = .ok () ∧
      validateUserMetadata opts.metadata = .ok () := by
  unfold putCheck
  split
  next h => exact iff_of_false (fun hf => by cases hf) fun hok => Nat.not_lt.mpr hok.1 h
  next h =>
    rw [and_iff_right (Nat.le_of_not_lt h)]
    cases validKey k with
    | error e => exact iff_of_false (fun hf => by cases hf) fun hok => by cases hok.1
    | ok u =>
      rw [and_iff_right rfl]
      cases validateUserMetadata opts.metadata with
      | error e => exact iff_of_false (fun hf => by cases hf) fun hok => by cases hok
      | ok u => exact iff_of_true rfl rfl

/-- What the check of a put refuses is refused as invalid. -/
theorem putCheck_error {maxObjectSize : Nat} {e : StorageError}
    (h : putCheck maxObjectSize k bytes opts = .error e) : ∃ m, e = .invalidRequest m := by
  unfold putCheck at h
  split at h
  · cases h
    exact ⟨_, rfl⟩
  · split at h
    · cases h
      exact ⟨_, rfl⟩
    · cases hm : validateUserMetadata opts.metadata with
      | error m =>
        rw [hm] at h
        cases h
        exact ⟨m, rfl⟩
      | ok u =>
        rw [hm] at h
        cases h

theorem putDecision_refuse {i : Index} {b m : String} :
    (putDecision ce env b k bytes opts i).1 ≠ .refuse (.invalidRequest m) := by
  intro h
  unfold putDecision at h
  split at h
  · cases hc : putCondition i b k opts with
    | error e =>
      rw [hc] at h
      cases h
      obtain ⟨msg, hmsg⟩ := putCondition_error hc
      cases hmsg
    | ok u =>
      rw [hc] at h
      cases hp : env.putObject bytes <;> rw [hp] at h <;> cases h
  · cases h

/-- Under the lock nothing is refused as an invalid request. -/
theorem putDecision_not_rejected {b : String} :
    ¬ Rejected (env.transact .backend (putDecision ce env b k bytes opts) s w).1.1 := by
  rintro ⟨m, h⟩
  rcases transact_cases env StorageError.backend (putDecision ce env b k bytes opts) s w with
    ⟨e, -, hr⟩ | ⟨i, -, ⟨-, -, hend⟩ | ⟨j, a, -, -, hend⟩⟩
  · rw [hr] at h
    cases h
  · rcases hend with ⟨e, hrefuse, he⟩ | ⟨a, -, hok⟩
    · cases h.symm.trans he
      exact putDecision_refuse hrefuse
    · cases h.symm.trans hok
  · rcases hend with ⟨-, ⟨e, he⟩, -⟩ | ⟨-, hok, -⟩
    · cases h.symm.trans he
    · cases h.symm.trans hok

/-- A put is rejected as invalid by its check before the lock and by nothing later. -/
theorem put_rejected_iff (self : Store) (b : String) :
    Rejected ((self.putObjectOpts b k bytes opts).exec ce env s w).1.1 ↔
      putCheck self.maxObjectSize k bytes opts ≠ .ok () := by
  rw [putObjectOpts_exec]
  cases hc : putCheck self.maxObjectSize k bytes opts with
  | error e =>
    obtain ⟨m, rfl⟩ := putCheck_error hc
    exact iff_of_true ⟨m, rfl⟩ fun h => nomatch h
  | ok u =>
    refine iff_of_false ?_ fun h => h rfl
    cases env.lock with
    | error m => rintro ⟨m', h⟩; cases h
    | ok u => exact putDecision_not_rejected

end

/-! ## Agreement -/

/-- When the two checks of a sealed put come to the one check of a plain put. -/
inductive SealAgrees (maxObjectSize plaintextLen : Nat) (key : String) (md : UserMetadata) : Prop
  /-- Above the limit, which the plaintext is measured by as well. -/
  | tooLarge (h : maxObjectSize < plaintextLen)
  | badKey (h : validKey key ≠ .ok ())
  | badEntry (h : ¬OthersValid md)
  /-- What sealing adds fits, and nothing it replaces was invalid. -/
  | room (h : SealRoom maxObjectSize plaintextLen md) (hvalid : MarksValid md)
  /-- What sealing adds does not fit, and the caller's own entries do not pass. -/
  | noRoom (h : ¬SealRoom maxObjectSize plaintextLen md)
      (hbad : ¬(md.size ≤ maxUserMetadataEntries ∧ MarksValid md))

section
variable {self : Store} {sha : Sha256} {salt : Salt} {key : String} {plaintext userKey : Bytes}
  {opts : PutOptions}

/-- What a sealed put checks, of the caller's own plaintext and options. -/
theorem sealed_rejected_iff (hmax : self.maxObjectSize < 2 ^ 64) (hkey : userKey ≠ [])
    (ce : CeRs) (env : Env) (s : Store) (w : World) (bucket : String) :
    Rejected ((self.putObjectSealed sha salt bucket key plaintext userKey opts).exec
        ce env s w).1.1 ↔
      ¬(SealRoom self.maxObjectSize plaintext.length opts.metadata ∧ validKey key = .ok () ∧
        OthersValid opts.metadata) := by
  unfold Store.putObjectSealed
  split
  next hlarge =>
    refine iff_of_true ⟨_, rfl⟩ fun hok => ?_
    have := hok.1.size
    omega
  next hfits =>
    rw [if_neg (by rwa [List.isEmpty_iff]), put_rejected_iff, ne_eq, putCheck_eq_ok,
      validate_sealedOptions (by omega), length_seal]
    refine not_congr ⟨fun h => ?_, fun h => ?_⟩
    · exact ⟨⟨h.1, h.2.2.1⟩, h.2.1, h.2.2.2⟩
    · exact ⟨h.1.size, h.2.1, h.1.entries, h.2.2⟩

/-- A sealed put and a plain put of the same plaintext and options are rejected
alike exactly when the limits are not met in the band that sealing adds. -/
theorem sealed_accepts_iff (ce : CeRs) (env : Env) (s : Store) (w : World)
    (hmax : self.maxObjectSize < 2 ^ 64) (hkey : userKey ≠ []) (bucket : String) :
    (Rejected ((self.putObjectSealed sha salt bucket key plaintext userKey opts).exec
        ce env s w).1.1 ↔
      Rejected ((self.putObjectOpts bucket key plaintext opts).exec ce env s w).1.1) ↔
    SealAgrees self.maxObjectSize plaintext.length key opts.metadata := by
  rw [sealed_rejected_iff hmax hkey, put_rejected_iff, ne_eq, not_iff_not, putCheck_eq_ok,
    validateUserMetadata_marks]
  refine ⟨fun hagree => ?_, fun hagree => ?_⟩
  · by_cases hlarge : self.maxObjectSize < plaintext.length
    · exact .tooLarge hlarge
    by_cases hvk : validKey key = .ok ()
    · by_cases hothers : OthersValid opts.metadata
      · by_cases hroom : SealRoom self.maxObjectSize plaintext.length opts.metadata
        · exact .room hroom (hagree.mp ⟨hroom, hvk, hothers⟩).2.2.1.2
        · refine .noRoom hroom fun hown => hroom ?_
          exact (hagree.mpr ⟨Nat.le_of_not_lt hlarge, hvk, hown, hothers⟩).1
      · exact .badEntry hothers
    · exact .badKey hvk
  · cases hagree with
    | tooLarge h =>
      refine iff_of_false (fun hok => ?_) fun hok => Nat.not_lt.mpr hok.1 h
      have := hok.1.size
      omega
    | badKey h => exact iff_of_false (fun hok => h hok.2.1) fun hok => h hok.2.1
    | badEntry h => exact iff_of_false (fun hok => h hok.2.2) fun hok => h hok.2.2.2
    | room h hvalid =>
      have hsize := h.size
      have hentries := h.entries
      refine ⟨fun hok => ⟨by omega, hok.2.1, ⟨by omega, hvalid⟩, hok.2.2⟩, fun hok => ?_⟩
      exact ⟨h, hok.2.1, hok.2.2.2⟩
    | noRoom h hbad => exact iff_of_false (fun hok => h hok.1) fun hok => hbad hok.2.2.1

end

/-! ### At the limit -/

private def zeros32 : Sha256 := ⟨fun _ => List.replicate 32 0, fun _ => List.length_replicate⟩

private def zeroSalt : Salt := ⟨List.replicate saltLen 0, List.length_replicate⟩

private def atMostTen : Store := { Store.fresh 1 with maxObjectSize := 10 }

/-- A plaintext of one byte is within a limit of ten, and its record is not. -/
theorem sealed_put_over_limit : ¬∀ (self : Store) (sha : Sha256) (salt : Salt)
    (bucket key : String) (plaintext userKey : Bytes) (opts : PutOptions) (ce : CeRs) (env : Env)
    (s : Store) (w : World), self.maxObjectSize < 2 ^ 64 → userKey ≠ [] →
      (Rejected ((self.putObjectSealed sha salt bucket key plaintext userKey opts).exec
          ce env s w).1.1 ↔
        Rejected ((self.putObjectOpts bucket key plaintext opts).exec ce env s w).1.1) := by
  intro h
  have hagree := h atMostTen zeros32 zeroSalt "photos" "cat" [1] [7] {} CeRs.plain
    (Env.calm CeRs.plain 9 "u") atMostTen World.blank (by decide) (by decide)
  rw [sealed_rejected_iff (by decide) (by decide), put_rejected_iff] at hagree
  refine hagree.mp (fun hok => ?_) rfl
  have hsize := hok.1.size
  revert hsize
  decide

/-- Under the default limit the two accept the same byte. -/
theorem sealed_accepts_default :
    ¬Rejected ((Store.fresh 1).putObjectSealed zeros32 zeroSalt "photos" "cat" [1] [7] {}
        |>.exec CeRs.plain (Env.calm CeRs.plain 9 "u") (Store.fresh 1) World.blank).1.1 ∧
      SealAgrees (Store.fresh 1).maxObjectSize 1 "cat" ∅ := by
  have hagrees : SealAgrees (Store.fresh 1).maxObjectSize 1 "cat" ∅ :=
    .room ⟨by decide, by decide⟩ fun k v hkv => by cases hkv
  refine ⟨?_, hagrees⟩
  rw [(sealed_accepts_iff CeRs.plain (Env.calm CeRs.plain 9 "u") (Store.fresh 1) World.blank
    (by decide) (by decide) "photos").mpr hagrees, put_rejected_iff]
  exact fun h => h rfl

end CeStorage
