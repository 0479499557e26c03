import CeStorage.Lib.Str

/-!
# Self-delimiting codes

A `Code α` writes a value as bytes so that it can be read back off the front of
any byte string: the two functions and the proof that they fit. Codes for
numbers, pairs and lists, and for any type with a faithful image in one of
those, so a record is coded by naming its fields.
-/

namespace CeStorage.Lib

/-- A way to write values as bytes that says where each of them ends. -/
structure Code (α : Type) where
  enc : α → Bytes
  dec : Bytes → Option (α × Bytes)
  dec_enc : ∀ a rest, dec (enc a ++ rest) = some (a, rest)

namespace Code

variable {α β : Type}

/-! ## Numbers -/

/-- A number in unary, ended by a zero. -/
def encNat (n : Nat) : Bytes := List.replicate n 1 ++ [0]

def decNat : Bytes → Option (Nat × Bytes)
  | [] => none
  | b :: bs => if b = 0 then some (0, bs) else (decNat bs).map fun p => (p.1 + 1, p.2)

theorem decNat_encNat (n : Nat) (rest : Bytes) : decNat (encNat n ++ rest) = some (n, rest) := by
  unfold encNat
  induction n with
  | zero => rfl
  | succ n ih =>
    rw [List.replicate_succ, List.cons_append, List.cons_append]
    unfold decNat
    rw [if_neg (by decide), ih]
    rfl

def nat : Code Nat := ⟨encNat, decNat, decNat_encNat⟩

/-! ## Pairs and lists -/

def pair (ca : Code α) (cb : Code β) : Code (α × β) where
  enc p := ca.enc p.1 ++ cb.enc p.2
  dec bs := (ca.dec bs).bind fun a => (cb.dec a.2).map fun b => ((a.1, b.1), b.2)
  dec_enc p rest := by
    rw [List.append_assoc, ca.dec_enc]
    dsimp only [Option.bind_some]
    rw [cb.dec_enc]
    rfl

/-- Read `n` values off the front. -/
def decMany (c : Code α) : Nat → Bytes → Option (List α × Bytes)
  | 0, bs => some ([], bs)
  | n + 1, bs => (c.dec bs).bind fun a => (decMany c n a.2).map fun as => (a.1 :: as.1, as.2)

theorem decMany_flatMap (c : Code α) (as : List α) (rest : Bytes) :
    decMany c as.length (as.flatMap c.enc ++ rest) = some (as, rest) := by
  induction as with
  | nil => rfl
  | cons a as ih =>
    rw [List.flatMap_cons, List.append_assoc, List.length_cons]
    unfold decMany
    rw [c.dec_enc]
    dsimp only [Option.bind_some]
    rw [ih]
    rfl

/-- A list: how many values, and then the values. -/
def list (c : Code α) : Code (List α) where
  enc as := encNat as.length ++ as.flatMap c.enc
  dec bs := (decNat bs).bind fun n => decMany c n.1 n.2
  dec_enc as rest := by
    rw [List.append_assoc, decNat_encNat]
    exact decMany_flatMap c as rest

/-- A type whose values are told apart by their images under `f`. -/
def via (c : Code β) (f : α → β) (g : β → α) (h : ∀ a, g (f a) = a) : Code α where
  enc a := c.enc (f a)
  dec bs := (c.dec bs).map fun b => (g b.1, b.2)
  dec_enc a rest := by
    rw [c.dec_enc, Option.map_some, h]

/-! ## Reading a whole byte string -/

/-- The value a byte string is the code of. -/
def decAll (c : Code α) (bs : Bytes) : Option α :=
  match c.dec bs with
  | some (a, []) => some a
  | _ => none

theorem decAll_enc (c : Code α) (a : α) : c.decAll (c.enc a) = some a := by
  have h := c.dec_enc a []
  rw [List.append_nil] at h
  unfold decAll
  rw [h]

end Code

end CeStorage.Lib
