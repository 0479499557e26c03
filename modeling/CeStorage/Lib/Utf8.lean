import CeStorage.Lib.Str

/-!
# Writing UTF-8

`Str.utf8` is the encoding of a text, and `fromUtf8Lossy_utf8` says that the
decoder of `Lib.Str` reads it back.
-/

namespace CeStorage.Lib.Str

/-- `s.as_bytes()`. -/
def utf8 (s : String) : Bytes := s.toList.flatMap String.utf8EncodeChar

/-! ## One byte -/

theorem utf8Chars_cons (st : Utf8State) (b : UInt8) (bs : Bytes) :
    utf8Chars st (b :: bs) = (utf8Next st b.toNat).1 ++ utf8Chars (utf8Next st b.toNat).2 bs := rfl

/-- A byte below 256 is itself. -/
theorem toNat_byte {n : Nat} (h : n < 256) : (UInt8.ofNat n).toNat = n := by
  rw [UInt8.toNat_ofNat']
  exact Nat.mod_eq_of_lt h

/-- A continuation byte that is not the last. -/
theorem utf8Chars_more {need lo hi acc x : Nat} (bs : Bytes) (hx : x < 64) (hlo : lo ≤ x + 0x80)
    (hhi : x + 0x80 ≤ hi) :
    utf8Chars ⟨need + 2, lo, hi, acc⟩ (UInt8.ofNat (x + 0x80) :: bs)
      = utf8Chars ⟨need + 1, 0x80, 0xBF, acc * 64 + x⟩ bs := by
  rw [utf8Chars_cons, toNat_byte (by omega)]
  unfold utf8Next
  rw [if_neg (by simp), if_pos ⟨hlo, hhi⟩]
  dsimp only
  rw [if_neg (by simp), Nat.add_sub_cancel]
  rfl

/-- The last continuation byte. -/
theorem utf8Chars_last {lo hi acc x : Nat} (bs : Bytes) (hx : x < 64) (hlo : lo ≤ x + 0x80)
    (hhi : x + 0x80 ≤ hi) :
    utf8Chars ⟨1, lo, hi, acc⟩ (UInt8.ofNat (x + 0x80) :: bs)
      = Char.ofNat (acc * 64 + x) :: utf8Chars .idle bs := by
  rw [utf8Chars_cons, toNat_byte (by omega)]
  unfold utf8Next
  rw [if_neg (by simp), if_pos ⟨hlo, hhi⟩]
  dsimp only
  rw [if_pos rfl, Nat.add_sub_cancel]
  rfl

/-- The first byte of a sequence. -/
theorem utf8Chars_idle {x : Nat} (bs : Bytes) (hx : x < 256) :
    utf8Chars .idle (UInt8.ofNat x :: bs) = (utf8First x).1 ++ utf8Chars (utf8First x).2 bs := by
  rw [utf8Chars_cons, toNat_byte hx]
  rfl

/-! ## One character -/

/-- The scalar values. -/
theorem toNat_scalar (c : Char) : c.toNat < 0xD800 ∨ 0xDFFF < c.toNat ∧ c.toNat < 0x110000 :=
  c.valid

/-- The first byte of three: the second may not make the value too small, or a
surrogate. -/
theorem utf8First_three {v : Nat} (hlo : 0x7FF < v) (hhi : v ≤ 0xFFFF)
    (hv : v < 0xD800 ∨ 0xDFFF < v) :
    ∃ lo hi, utf8First (v / 4096 % 16 + 0xE0) = ([], ⟨2, lo, hi, v / 4096⟩) ∧
      lo ≤ v / 64 % 64 + 0x80 ∧ v / 64 % 64 + 0x80 ≤ hi := by
  have hacc : v / 4096 % 16 + 0xE0 - 0xE0 = v / 4096 := by omega
  unfold utf8First
  rw [if_neg (by omega), if_neg (by omega), hacc]
  split
  next h => exact ⟨0xA0, 0xBF, rfl, by omega, by omega⟩
  next =>
    split
    next h => exact ⟨0x80, 0x9F, rfl, by omega, by omega⟩
    next => exact ⟨0x80, 0xBF, if_pos (by omega), by omega, by omega⟩

/-- The first byte of four: the second may not make the value too small or too
large. -/
theorem utf8First_four {v : Nat} (hlo : 0xFFFF < v) (hhi : v < 0x110000) :
    ∃ lo hi, utf8First (v / 262144 % 8 + 0xF0) = ([], ⟨3, lo, hi, v / 262144⟩) ∧
      lo ≤ v / 4096 % 64 + 0x80 ∧ v / 4096 % 64 + 0x80 ≤ hi := by
  have hacc : v / 262144 % 8 + 0xF0 - 0xF0 = v / 262144 := by omega
  unfold utf8First
  rw [if_neg (by omega), if_neg (by omega), if_neg (by omega), if_neg (by omega),
    if_neg (by omega), hacc]
  split
  next h => exact ⟨0x90, 0xBF, rfl, by omega, by omega⟩
  next =>
    split
    next h => exact ⟨0x80, 0xBF, rfl, by omega, by omega⟩
    next => exact ⟨0x80, 0x8F, if_pos (by omega), by omega, by omega⟩

theorem utf8Chars_char (c : Char) (bs : Bytes) :
    utf8Chars .idle (String.utf8EncodeChar c ++ bs) = c :: utf8Chars .idle bs := by
  have hscalar := toNat_scalar c
  have hc : Char.ofNat c.toNat = c := Char.ofNat_toNat c
  unfold String.utf8EncodeChar
  dsimp only
  rw [show c.val.toNat = c.toNat from rfl]
  generalize hv : c.toNat = v at hscalar hc
  split
  next h1 =>
    rw [List.singleton_append, utf8Chars_idle bs (by omega)]
    unfold utf8First
    rw [if_pos (by omega), hc]
    rfl
  next h1 =>
    split
    next h2 =>
      rw [List.cons_append, List.singleton_append, utf8Chars_idle _ (by omega)]
      unfold utf8First
      rw [if_neg (by omega), if_pos (by omega), List.nil_append,
        utf8Chars_last bs (by omega) (by omega) (by omega)]
      rw [show (v / 64 % 32 + 0xc0 - 0xC0) * 64 + v % 64 = v by omega, hc]
    next h2 =>
      split
      next h3 =>
        obtain ⟨lo, hi, hfirst, hlo, hhi⟩ := utf8First_three (v := v) (by omega) h3 (by omega)
        rw [List.cons_append, List.cons_append, List.singleton_append,
          utf8Chars_idle _ (by omega), hfirst, List.nil_append,
          utf8Chars_more _ (by omega) hlo hhi, utf8Chars_last bs (by omega) (by omega) (by omega)]
        rw [show (v / 4096 * 64 + v / 64 % 64) * 64 + v % 64 = v by omega, hc]
      next h3 =>
        obtain ⟨lo, hi, hfirst, hlo, hhi⟩ := utf8First_four (v := v) (by omega) (by omega)
        rw [List.cons_append, List.cons_append, List.cons_append, List.singleton_append,
          utf8Chars_idle _ (by omega), hfirst, List.nil_append,
          utf8Chars_more _ (by omega) hlo hhi, utf8Chars_more _ (by omega) (by omega) (by omega),
          utf8Chars_last bs (by omega) (by omega) (by omega)]
        rw [show ((v / 262144 * 64 + v / 4096 % 64) * 64 + v / 64 % 64) * 64 + v % 64 = v by omega,
          hc]

theorem utf8Chars_utf8 (cs : List Char) :
    utf8Chars .idle (cs.flatMap String.utf8EncodeChar) = cs := by
  induction cs with
  | nil => rfl
  | cons c cs ih => rw [List.flatMap_cons, utf8Chars_char, ih]

/-- Decoding gives back the text that was encoded. -/
theorem fromUtf8Lossy_utf8 (s : String) : fromUtf8Lossy (utf8 s) = s := by
  unfold fromUtf8Lossy utf8
  rw [utf8Chars_utf8]
  exact String.ofList_toList

end CeStorage.Lib.Str
