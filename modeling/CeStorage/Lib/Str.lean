import Mathlib

/-!
# Rust's `str` and number parsing, on lists of characters

The string operations of the Rust standard library that the sources call, each
under its own name. A Lean `String` is, like a Rust `String`, a sequence of
Unicode scalar values, and both are ordered by scalar value (the UTF-8 byte
order of Rust is the same order), so only the *operations* need a definition:
where Rust works with byte offsets these work with the list of characters before
and after.
-/

namespace CeStorage.Lib

abbrev Bytes := List UInt8

namespace Str

/-- `s.len()`: the length in bytes. -/
def len (s : String) : Nat := s.utf8ByteSize

/-- `s.contains(c)` for a character. -/
def containsChar (s : String) (c : Char) : Bool := s.toList.contains c

/-- `s.starts_with(p)`. -/
def startsWith (s p : String) : Bool := p.toList.isPrefixOf s.toList

/-- `s.strip_prefix(p)`. -/
def stripPrefix (s p : String) : Option String :=
  if startsWith s p then some (String.ofList (s.toList.drop p.toList.length)) else none

/-- `s.find(pat)`, as the text before the first match and the text after it. -/
def findSub (pat : List Char) : List Char → Option (List Char × List Char)
  | [] => if pat.isPrefixOf [] then some ([], []) else none
  | c :: cs =>
    if pat.isPrefixOf (c :: cs) then some ([], (c :: cs).drop pat.length)
    else (findSub pat cs).map fun p => (c :: p.1, p.2)

/-- `s.split_once(c)`. -/
def splitOnce (c : Char) (s : String) : Option (String × String) :=
  (findSub [c] s.toList).map fun p => (String.ofList p.1, String.ofList p.2)

/-- The Unicode `White_Space` property, which `str::trim` goes by. -/
def isWhitespace (c : Char) : Bool :=
  let n := c.toNat
  (9 ≤ n && n ≤ 13) || n == 0x20 || n == 0x85 || n == 0xA0 || n == 0x1680
    || (0x2000 ≤ n && n ≤ 0x200A) || n == 0x2028 || n == 0x2029 || n == 0x202F
    || n == 0x205F || n == 0x3000

/-- `trim_start_matches` for a set of characters. -/
def trimStartMatches (p : Char → Bool) (s : String) : String :=
  String.ofList (s.toList.dropWhile p)

/-- `trim_end_matches` for a set of characters. -/
def trimEndMatches (p : Char → Bool) (s : String) : String :=
  String.ofList (s.toList.reverse.dropWhile p).reverse

/-- `trim_matches` for a set of characters. -/
def trimMatches (p : Char → Bool) (s : String) : String := trimEndMatches p (trimStartMatches p s)

/-- `s.trim()`. -/
def trim (s : String) : String := trimMatches isWhitespace s

/-- `s.replace(c, r)` for a character. -/
def replaceChar (c : Char) (r s : String) : String :=
  String.ofList (s.toList.flatMap fun x => if x = c then r.toList else [x])

/-- `s.split(p)` for a set of characters. -/
def split (p : Char → Bool) : List Char → List (List Char)
  | [] => [[]]
  | c :: cs =>
    if p c then [] :: split p cs
    else match split p cs with
      | [] => [[c]]
      | w :: ws => (c :: w) :: ws

/-! ## Numbers -/

/-- The value of a string of ASCII digits, read from the left on top of `acc`. -/
def digits (acc : Nat) : List Char → Option Nat
  | [] => some acc
  | c :: cs =>
    if '0' ≤ c ∧ c ≤ '9' then digits (acc * 10 + (c.toNat - '0'.toNat)) cs else none

/-- `s.parse()` for an unsigned integer type with values below `bound`: an
optional `+`, then one or more ASCII digits, rejected on overflow. -/
def parseUnsigned (bound : Nat) (s : String) : Option Nat :=
  let ds := match s.toList with
    | '+' :: rest => rest
    | cs => cs
  match ds with
  | [] => none
  | ds => (digits 0 ds).bind fun n => if n < bound then some n else none

/-- `parse::<u32>()`. -/
def parseU32 : String → Option Nat := parseUnsigned (2 ^ 32)

/-- `parse::<u64>()`, and `parse::<usize>()` on a 64-bit platform. -/
def parseU64 : String → Option Nat := parseUnsigned (2 ^ 64)

/-- `saturating_add` on `u64`. -/
def saturatingAdd (a b : Nat) : Nat := min (a + b) (2 ^ 64 - 1)

/-- One hexadecimal digit. -/
def hexDigit (c : Char) : Option Nat :=
  if '0' ≤ c ∧ c ≤ '9' then some (c.toNat - '0'.toNat)
  else if 'a' ≤ c ∧ c ≤ 'f' then some (c.toNat - 'a'.toNat + 10)
  else if 'A' ≤ c ∧ c ≤ 'F' then some (c.toNat - 'A'.toNat + 10)
  else none

/-- `hex::decode`. -/
def hexDecode : List Char → Option Bytes
  | [] => some []
  | [_] => none
  | a :: b :: rest => do
    let hi ← hexDigit a
    let lo ← hexDigit b
    let tail ← hexDecode rest
    return UInt8.ofNat (hi * 16 + lo) :: tail

/-! ## UTF-8 -/

/-- Where the decoder is in a multi-byte sequence: `need` more bytes, the next
of which must lie in `lo ..= hi`; `acc` holds the bits so far. -/
structure Utf8State where
  need : Nat
  lo : Nat
  hi : Nat
  acc : Nat

/-- The state outside any sequence. -/
def Utf8State.idle : Utf8State := ⟨0, 0x80, 0xBF, 0⟩

/-- U+FFFD, which replaces each maximal part of an ill-formed sequence. -/
def replacement : Char := Char.ofNat 0xFFFD

/-- The first byte of a sequence: what it emits, and the state it leaves. -/
def utf8First (b : Nat) : List Char × Utf8State :=
  if b < 0x80 then ([Char.ofNat b], .idle)
  else if 0xC2 ≤ b ∧ b ≤ 0xDF then ([], ⟨1, 0x80, 0xBF, b - 0xC0⟩)
  else if b = 0xE0 then ([], ⟨2, 0xA0, 0xBF, b - 0xE0⟩)
  else if b = 0xED then ([], ⟨2, 0x80, 0x9F, b - 0xE0⟩)
  else if 0xE1 ≤ b ∧ b ≤ 0xEF then ([], ⟨2, 0x80, 0xBF, b - 0xE0⟩)
  else if b = 0xF0 then ([], ⟨3, 0x90, 0xBF, b - 0xF0⟩)
  else if 0xF1 ≤ b ∧ b ≤ 0xF3 then ([], ⟨3, 0x80, 0xBF, b - 0xF0⟩)
  else if b = 0xF4 then ([], ⟨3, 0x80, 0x8F, b - 0xF0⟩)
  else ([replacement], .idle)

/-- One byte: a byte that cannot continue the sequence ends it with U+FFFD and
starts afresh. -/
def utf8Next (st : Utf8State) (b : Nat) : List Char × Utf8State :=
  if st.need = 0 then utf8First b
  else if st.lo ≤ b ∧ b ≤ st.hi then
    let acc := st.acc * 64 + (b - 0x80)
    if st.need = 1 then ([Char.ofNat acc], .idle) else ([], ⟨st.need - 1, 0x80, 0xBF, acc⟩)
  else
    let first := utf8First b
    (replacement :: first.1, first.2)

def utf8Chars (st : Utf8State) : Bytes → List Char
  | [] => if st.need = 0 then [] else [replacement]
  | b :: bs => (utf8Next st b.toNat).1 ++ utf8Chars (utf8Next st b.toNat).2 bs

/-- `String::from_utf8_lossy`. -/
def fromUtf8Lossy (bs : Bytes) : String := String.ofList (utf8Chars .idle bs)

example : fromUtf8Lossy [0x61, 0xE2, 0x82, 0xAC, 0xE2, 0x82, 0x7A] = "a€\uFFFDz" := by decide

end Str

end CeStorage.Lib
