import CeStorage.Lib.Chunks
import CeStorage.Lib.Utf8

/-!
# Sealed records (`seal.rs`)

Client-side encryption before a put: `version || salt || ciphertext || tag`. The
ciphertext is the plaintext under a counter-mode keystream, the tag an HMAC over
everything before it, and both keys are derived from the user's key and the salt.

SHA-256 belongs to the `sha2` crate and is any function to 32 bytes. The salt,
which the source draws inside `seal`, is an argument.

`unseal_iff`: a record is accepted exactly when it was sealed.
-/

namespace CeStorage

open Lib

/-- `sha2::Sha256`. -/
structure Sha256 where
  digest : Bytes → Bytes
  length_digest : ∀ msg, (digest msg).length = 32

/-- Format version of a sealed record. -/
def sealVersion : UInt8 := 1

def saltLen : Nat := 16
def tagLen : Nat := 32

/-- Content type recorded for a sealed object. -/
def sealedContentType : String := "application/x-ce-sealed"

def sha256Block : Nat := 64
def keystreamBlock : Nat := 32

/-- `[u8; SALT_LEN]`. -/
def Salt : Type := { s : Bytes // s.length = saltLen }

/-- Two byte strings combined byte by byte. -/
def xorBytes (a b : Bytes) : Bytes := List.zipWith (· ^^^ ·) a b

/-- `[0u8; n]` with `bytes` copied to its start. -/
def padded (n : Nat) (bytes : Bytes) : Bytes := bytes ++ List.replicate (n - bytes.length) 0

/-- The eight bytes of a counter, lowest first. -/
def leBytes (n : UInt64) : Bytes := (List.range 8).map fun i => UInt8.ofNat (n.toNat / 256 ^ i)

namespace Sha256

variable (sha : Sha256)

/-- HMAC: the key in one block, hashed first if it is longer than one. -/
def hmac (key msg : Bytes) : Bytes :=
  let blockKey :=
    if sha256Block < key.length then padded sha256Block (sha.digest key)
    else padded sha256Block key
  let ipad := blockKey.map (0x36 ^^^ ·)
  let opad := blockKey.map (0x5c ^^^ ·)
  sha.digest (opad ++ sha.digest (ipad ++ msg))

/-- The encryption key and the MAC key. -/
def deriveKeys (userKey salt : Bytes) : Bytes × Bytes :=
  let prk := sha.hmac salt userKey
  (sha.hmac prk (Str.utf8 "ce-seal-enc" ++ [1]), sha.hmac prk (Str.utf8 "ce-seal-mac" ++ [2]))

/-- The loop over the blocks still to combine with the keystream; the counter
wraps. -/
def keystreamLoop (encKey salt : Bytes) : UInt64 → List Bytes → List Bytes
  | _, [] => []
  | counter, block :: rest =>
    xorBytes block (sha.digest (encKey ++ salt ++ leBytes counter))
      :: keystreamLoop encKey salt (counter + 1) rest

/-- `apply_keystream`, which works in place. -/
def applyKeystream (encKey salt data : Bytes) : Bytes :=
  (sha.keystreamLoop encKey salt 0 (chunks keystreamBlock data)).flatten

end Sha256

/-- Equality that looks at every byte. -/
def ctEq (a b : Bytes) : Bool :=
  if a.length ≠ b.length then false else (xorBytes a b).foldl (· ||| ·) 0 == 0

/-- `version || salt || ciphertext`, what the tag is over. -/
def sealBody (sha : Sha256) (plaintext userKey : Bytes) (salt : Salt) : Bytes :=
  sealVersion :: salt.1
    ++ sha.applyKeystream (sha.deriveKeys userKey salt.1).1 salt.1 plaintext

/-- `seal`. -/
def «seal» (sha : Sha256) (plaintext userKey : Bytes) (salt : Salt) : Bytes :=
  let record := sealBody sha plaintext userKey salt
  record ++ sha.hmac (sha.deriveKeys userKey salt.1).2 record

/-- `unseal`: the tag is checked before anything is decrypted. -/
def «unseal» (sha : Sha256) (record userKey : Bytes) : Except String Bytes :=
  if record.length < 1 + saltLen + tagLen then
    .error s!"sealed record too short ({record.length} bytes)"
  else if record.headD 0 ≠ sealVersion then
    .error s!"unsupported seal version {record.headD 0}"
  else
    let salt := (record.drop 1).take saltLen
    let tagStart := record.length - tagLen
    let body := record.take tagStart
    let tag := record.drop tagStart
    let (encKey, macKey) := sha.deriveKeys userKey salt
    if ctEq (sha.hmac macKey body) tag = false then
      .error "sealed record authentication failed (wrong key or tampered data)"
    else .ok (sha.applyKeystream encKey salt (body.drop (1 + saltLen)))

/-! ## Bytes -/

theorem length_xorBytes (a b : Bytes) (h : a.length ≤ b.length) :
    (xorBytes a b).length = a.length := by
  unfold xorBytes
  rw [List.length_zipWith, Nat.min_eq_left h]

/-- Combined with the same bytes twice, a byte string is itself. -/
theorem xorBytes_xorBytes (a b : Bytes) (h : a.length ≤ b.length) :
    xorBytes (xorBytes a b) b = a := by
  unfold xorBytes
  induction a generalizing b with
  | nil => rfl
  | cons x a ih =>
    cases b with
    | nil => exact nomatch h
    | cons y b =>
      rw [List.zipWith_cons_cons, List.zipWith_cons_cons, ih b (Nat.le_of_succ_le_succ h),
        UInt8.xor_assoc, UInt8.xor_self, UInt8.xor_zero]

theorem foldl_or_eq_zero (l : Bytes) (acc : UInt8) :
    l.foldl (· ||| ·) acc = 0 ↔ acc = 0 ∧ ∀ b ∈ l, b = 0 := by
  induction l generalizing acc with
  | nil => simp
  | cons b l ih =>
    rw [List.foldl_cons, ih, List.forall_mem_cons, UInt8.or_eq_zero_iff, and_assoc]

theorem xorBytes_zero_iff (a b : Bytes) (h : a.length = b.length) :
    (∀ x ∈ xorBytes a b, x = 0) ↔ a = b := by
  unfold xorBytes
  induction a generalizing b with
  | nil =>
    obtain rfl := List.length_eq_zero_iff.mp h.symm
    simp
  | cons x a ih =>
    cases b with
    | nil => exact nomatch h
    | cons y b =>
      rw [List.zipWith_cons_cons, List.forall_mem_cons, ih b (Nat.succ.inj h),
        UInt8.xor_eq_zero_iff, List.cons.injEq]

theorem ctEq_iff {a b : Bytes} : ctEq a b = true ↔ a = b := by
  unfold ctEq
  split
  next h => exact iff_of_false (fun hf => nomatch hf) fun hab => h (congrArg List.length hab)
  next h =>
    rw [beq_iff_eq, foldl_or_eq_zero, xorBytes_zero_iff a b (not_not.mp h)]
    simp

/-! ## The keystream -/

section
variable {sha : Sha256} {encKey salt key msg : Bytes}

theorem length_hmac : (sha.hmac key msg).length = 32 := sha.length_digest _

theorem keystreamLoop_cons (counter : UInt64) (block : Bytes) (rest : List Bytes) :
    sha.keystreamLoop encKey salt counter (block :: rest)
      = xorBytes block (sha.digest (encKey ++ salt ++ leBytes counter))
        :: sha.keystreamLoop encKey salt (counter + 1) rest := rfl

/-- The blocks keep their lengths. -/
theorem length_keystreamLoop {counter : UInt64} {blocks : List Bytes}
    (h : ∀ block ∈ blocks, block.length ≤ keystreamBlock) :
    (sha.keystreamLoop encKey salt counter blocks).map List.length = blocks.map List.length := by
  induction blocks generalizing counter with
  | nil => rfl
  | cons block rest ih =>
    have hblock : block.length ≤ (sha.digest (encKey ++ salt ++ leBytes counter)).length := by
      rw [sha.length_digest]
      exact h block List.mem_cons_self
    rw [keystreamLoop_cons, List.map_cons, List.map_cons, length_xorBytes _ _ hblock,
      ih fun b hb => h b (List.mem_cons_of_mem block hb)]

/-- The same keystream twice is none. -/
theorem keystreamLoop_keystreamLoop {counter : UInt64} {blocks : List Bytes}
    (h : ∀ block ∈ blocks, block.length ≤ keystreamBlock) :
    sha.keystreamLoop encKey salt counter (sha.keystreamLoop encKey salt counter blocks)
      = blocks := by
  induction blocks generalizing counter with
  | nil => rfl
  | cons block rest ih =>
    have hblock : block.length ≤ (sha.digest (encKey ++ salt ++ leBytes counter)).length := by
      rw [sha.length_digest]
      exact h block List.mem_cons_self
    rw [keystreamLoop_cons, keystreamLoop_cons, xorBytes_xorBytes _ _ hblock, ih fun b hb => h b (List.mem_cons_of_mem block hb)]

theorem length_applyKeystream (data : Bytes) :
    (sha.applyKeystream encKey salt data).length = data.length := by
  unfold Sha256.applyKeystream
  rw [List.length_flatten, length_keystreamLoop length_le_of_mem_chunks, ← List.length_flatten,
    chunks_flatten (by decide)]

/-- A short last block is cut where it was, so the second pass undoes the first. -/
theorem applyKeystream_applyKeystream (data : Bytes) :
    sha.applyKeystream encKey salt (sha.applyKeystream encKey salt data) = data := by
  have hsame : chunks keystreamBlock (sha.applyKeystream encKey salt data)
      = sha.keystreamLoop encKey salt 0 (chunks keystreamBlock data) :=
    chunks_flatten_of_lengths (by decide) (length_keystreamLoop length_le_of_mem_chunks)
  unfold Sha256.applyKeystream at hsame ⊢
  rw [hsame, keystreamLoop_keystreamLoop length_le_of_mem_chunks, chunks_flatten (by decide)]

end

/-! ## Records -/

section
variable {sha : Sha256} {plaintext userKey record : Bytes} {salt : Salt}

theorem length_sealBody : (sealBody sha plaintext userKey salt).length
    = 1 + saltLen + plaintext.length := by
  unfold sealBody
  rw [List.cons_append, List.length_cons, List.length_append, length_applyKeystream, salt.2]
  omega

/-- A sealed record is as long as the plaintext and the overhead. -/
theorem length_seal : («seal» sha plaintext userKey salt).length
    = plaintext.length + (1 + saltLen + tagLen) := by
  unfold «seal»
  rw [List.length_append, length_sealBody, length_hmac]
  unfold tagLen
  omega

/-- The parts that a record is taken apart into. -/
structure SealParts (record : Bytes) (salt : Salt) (ciphertext tag : Bytes) : Prop where
  eq : record = sealVersion :: salt.1 ++ ciphertext ++ tag
  length_tag : tag.length = tagLen

theorem SealParts.length {ciphertext tag : Bytes} (h : SealParts record salt ciphertext tag) :
    record.length = 1 + saltLen + ciphertext.length + tagLen := by
  rw [h.eq, List.length_append, List.length_append, List.length_cons, salt.2, h.length_tag,
    Nat.add_comm saltLen]

/-- A record of its parts is accepted when the tag is right. -/
theorem unseal_parts {ciphertext tag : Bytes} (h : SealParts record salt ciphertext tag) :
    «unseal» sha record userKey
      = if ctEq (sha.hmac (sha.deriveKeys userKey salt.1).2 (sealVersion :: salt.1 ++ ciphertext))
            tag = false then
          .error "sealed record authentication failed (wrong key or tampered data)"
        else .ok (sha.applyKeystream (sha.deriveKeys userKey salt.1).1 salt.1 ciphertext) := by
  have hlen := h.length
  have hbody : (sealVersion :: salt.1 ++ ciphertext).length = record.length - tagLen := by
    rw [hlen, List.length_append, List.length_cons, salt.2]
    omega
  have htake : record.take (record.length - tagLen) = sealVersion :: salt.1 ++ ciphertext := by
    rw [← hbody, h.eq, List.take_left]
  have hdrop : record.drop (record.length - tagLen) = tag := by
    rw [← hbody, h.eq, List.drop_left]
  have hsalt : (record.drop 1).take saltLen = salt.1 := by
    rw [h.eq, List.cons_append, List.cons_append, List.drop_one, List.tail_cons, List.append_assoc]
    exact List.take_left' salt.2
  have hhead : record.headD 0 = sealVersion := by
    rw [h.eq]
    rfl
  have hrest : (sealVersion :: salt.1 ++ ciphertext).drop (1 + saltLen) = ciphertext := by
    refine List.drop_left' ?_
    rw [List.length_cons, salt.2, Nat.add_comm]
  unfold «unseal»
  rw [if_neg (by omega), if_neg (not_not.mpr hhead)]
  dsimp only
  rw [htake, hdrop, hsalt, hrest]

/-- A record that is long enough and of this version has such parts. -/
theorem exists_parts (hlen : 1 + saltLen + tagLen ≤ record.length)
    (hversion : record.headD 0 = sealVersion) : ∃ s c t, SealParts record s c t := by
  cases record with
  | nil => exact absurd hlen (by decide)
  | cons v rest =>
    obtain rfl : v = sealVersion := hversion
    rw [List.length_cons] at hlen
    refine ⟨⟨rest.take saltLen, ?_⟩, (rest.drop saltLen).take ((rest.drop saltLen).length - tagLen),
      (rest.drop saltLen).drop ((rest.drop saltLen).length - tagLen), ?_, ?_⟩
    · rw [List.length_take]
      omega
    · rw [List.append_assoc, List.take_append_drop, List.cons_append, List.take_append_drop]
    · rw [List.length_drop, List.length_drop]
      omega

/-- What a record that is accepted consists of. -/
theorem unseal_eq_ok {p : Bytes} : «unseal» sha record userKey = .ok p ↔
    ∃ (s : Salt) (ciphertext : Bytes),
      record = sealVersion :: s.1 ++ ciphertext
        ++ sha.hmac (sha.deriveKeys userKey s.1).2 (sealVersion :: s.1 ++ ciphertext) ∧
      p = sha.applyKeystream (sha.deriveKeys userKey s.1).1 s.1 ciphertext := by
  constructor
  · intro h
    have hlen : 1 + saltLen + tagLen ≤ record.length := by
      by_contra hshort
      unfold «unseal» at h
      rw [if_pos (Nat.lt_of_not_le hshort)] at h
      exact nomatch h
    have hversion : record.headD 0 = sealVersion := by
      by_contra hother
      unfold «unseal» at h
      rw [if_neg (Nat.not_lt.mpr hlen), if_pos hother] at h
      exact nomatch h
    obtain ⟨s, c, t, hparts⟩ := exists_parts hlen hversion
    rw [unseal_parts hparts] at h
    split at h
    next => exact nomatch h
    next htag =>
      rw [Bool.not_eq_false, ctEq_iff] at htag
      cases h
      refine ⟨s, c, ?_, rfl⟩
      rw [htag]
      exact hparts.eq
  · rintro ⟨s, c, rfl, rfl⟩
    rw [unseal_parts ⟨rfl, length_hmac⟩, if_neg (by rw [ctEq_iff.mpr rfl]; decide)]

/-- **A sealed record is accepted exactly when it was sealed**, whatever SHA-256
is: `unseal` answers `p` on the seals of `p` under this key and on no other
record. So a record that was sealed comes back whole. -/
theorem unseal_iff (sha : Sha256) (userKey record : Bytes) :
    (∀ p, «unseal» sha record userKey = .ok p ↔ ∃ s : Salt, record = «seal» sha p userKey s) ∧
      ∀ (p : Bytes) (s : Salt), «unseal» sha («seal» sha p userKey s) userKey = .ok p := by
  have hiff : ∀ record p, «unseal» sha record userKey = .ok p ↔
      ∃ s : Salt, record = «seal» sha p userKey s := by
    intro record p
    rw [unseal_eq_ok]
    constructor
    · rintro ⟨s, ciphertext, hrecord, rfl⟩
      refine ⟨s, ?_⟩
      unfold «seal» sealBody
      rw [applyKeystream_applyKeystream]
      exact hrecord
    · rintro ⟨s, rfl⟩
      refine ⟨s, sha.applyKeystream (sha.deriveKeys userKey s.1).1 s.1 p, rfl, ?_⟩
      rw [applyKeystream_applyKeystream]
  exact ⟨hiff record, fun p s => (hiff _ p).mpr ⟨s, rfl⟩⟩

end

end CeStorage
