import CeStorage.Lib.Runs

/-!
# Versioned shelves

What a versioned store of objects is for, with nothing of how it keeps them:
there are shelves by name, a shelf has for every key the list of its versions,
oldest first, and a version is a content or the mark of a deletion. A shelf that
is not versioned keeps one version of a key, and a deletion clears the key. An
act on a shelf that is not there cannot happen.
-/

namespace CeStorage.Lib

/-- One version of a key. -/
inductive Slot (α : Type) where
  | content (a : α)
  /-- A deletion at `t`. -/
  | mark (t : Nat)

namespace Slot
variable {α ι : Type} [BEq ι]

def content? : Slot α → Option α
  | .content a => some a
  | .mark _ => none

/-- The content of the newest version, if it has one. -/
def current (slots : List (Slot α)) : Option α := slots.getLast?.bind content?

/-- The contents that are kept, newest first. -/
def contents (slots : List (Slot α)) : List α := slots.reverse.filterMap content?

/-- The content of the newest version of a name, if it has one. -/
def named (name : Slot α → ι) (id : ι) (slots : List (Slot α)) : Option α :=
  (slots.reverse.find? fun v => name v == id).bind content?

def put (versioned : Bool) (a : α) (slots : List (Slot α)) : List (Slot α) :=
  if versioned then slots ++ [.content a] else [.content a]

/-- What is deleted already gets no second mark. -/
def delete (versioned : Bool) (t : Nat) (slots : List (Slot α)) : List (Slot α) :=
  if versioned then if (current slots).isSome then slots ++ [.mark t] else slots else []

end Slot

structure Shelf (κ α : Type) where
  versioned : Bool
  slots : κ → List (Slot α)

/-- A shelf without objects. -/
def Shelf.bare {κ α : Type} : Shelf κ α := ⟨false, fun _ => []⟩

/-- The shelves, by name. -/
abbrev Shelves (β κ α : Type) := β → Option (Shelf κ α)

/-- What can be done to shelves; `ι` names versions. -/
inductive ShelfAct (β κ α ι : Type) where
  | openShelf (b : β)
  | closeShelf (b : β)
  | setVersioned (b : β) (on : Bool)
  | put (b : β) (k : κ) (a : α)
  | delete (b : β) (k : κ) (t : Nat)
  /-- Remove the versions of one name for good. -/
  | purge (b : β) (k : κ) (id : ι)
  /-- Put the current content of one key under another. -/
  | copy (sb : β) (sk : κ) (b : β) (k : κ)

namespace Shelves

section
variable {β κ α : Type}

/-- The versions of a key. -/
def slotsOf (s : Shelves β κ α) (b : β) (k : κ) : List (Slot α) :=
  match s b with
  | some shelf => shelf.slots k
  | none => []

variable {s s' : Shelves β κ α} {b : β} {k : κ}

theorem slotsOf_some {shelf : Shelf κ α} (h : s b = some shelf) :
    s.slotsOf b k = shelf.slots k := by
  unfold slotsOf
  rw [h]

theorem slotsOf_congr (h : s b = s' b) : s.slotsOf b k = s'.slotsOf b k := by
  unfold slotsOf
  rw [h]

end

variable {β κ α ι : Type} [DecidableEq β] [DecidableEq κ] [BEq ι]

/-- Rewrite the versions of one key. -/
def rewrite (s : Shelves β κ α) (b : β) (k : κ)
    (f : (versioned : Bool) → List (Slot α) → List (Slot α)) : Option (Shelves β κ α) :=
  (s b).map fun shelf => Function.update s b (some { shelf with
    slots := Function.update shelf.slots k (f shelf.versioned (shelf.slots k)) })

/-- Do one act; `name` gives the name of a version. -/
def act (name : Slot α → ι) : ShelfAct β κ α ι → Shelves β κ α → Option (Shelves β κ α)
  | .openShelf b, s => if (s b).isSome then none else some (Function.update s b (some .bare))
  | .closeShelf b, s => (s b).map fun _ => Function.update s b none
  | .setVersioned b on, s =>
    (s b).map fun shelf => Function.update s b (some { shelf with versioned := on })
  | .put b k a, s => s.rewrite b k fun on => Slot.put on a
  | .delete b k t, s => s.rewrite b k fun on => Slot.delete on t
  | .purge b k id, s => s.rewrite b k fun _ slots => slots.filter fun v => name v != id
  | .copy sb sk b k, s =>
    (Slot.current (s.slotsOf sb sk)).bind fun a => s.rewrite b k fun on => Slot.put on a

/-- Do one act after another. -/
def acts (name : Slot α → ι) (as : List (ShelfAct β κ α ι)) (s : Shelves β κ α) :
    Option (Shelves β κ α) :=
  play (act name) as s

variable {s s' : Shelves β κ α} {b b' : β} {k k' : κ}
  {f : (versioned : Bool) → List (Slot α) → List (Slot α)}

/-- A rewrite changes the versions of one key. -/
theorem slotsOf_rewrite {shelf : Shelf κ α} (hb : s b = some shelf)
    (h : s.rewrite b k f = some s') :
    s'.slotsOf b' k'
      = if b = b' ∧ k = k' then f shelf.versioned (s.slotsOf b k) else s.slotsOf b' k' := by
  unfold rewrite at h
  rw [hb] at h
  cases h
  rw [slotsOf_some hb]
  by_cases hbb : b = b'
  · subst hbb
    rw [slotsOf_some (Function.update_self _ _ _)]
    dsimp only
    by_cases hk : k = k'
    · subst hk
      rw [if_pos ⟨rfl, rfl⟩, Function.update_self]
    · rw [if_neg fun hh => hk hh.2, Function.update_of_ne (Ne.symm hk), slotsOf_some hb]
  · rw [if_neg fun hh => hbb hh.1]
    exact slotsOf_congr (Function.update_of_ne (Ne.symm hbb) _ _)

/-- A rewrite makes no shelf and changes the versioning of none. -/
theorem versioned_rewrite (h : s.rewrite b k f = some s') :
    (s' b').map (·.versioned) = (s b').map (·.versioned) := by
  obtain ⟨shelf, hb, rfl⟩ := Option.map_eq_some_iff.mp h
  by_cases hbb : b' = b
  · subst hbb
    rw [Function.update_self, hb]
    rfl
  · rw [Function.update_of_ne hbb]

theorem acts_append {name : Slot α → ι} {as bs : List (ShelfAct β κ α ι)} {s'' : Shelves β κ α}
    (h : s.acts name as = some s') (h' : s'.acts name bs = some s'') :
    s.acts name (as ++ bs) = some s'' := by
  unfold acts at *
  induction as generalizing s with
  | nil =>
    cases h
    exact h'
  | cons a as ih =>
    obtain ⟨s₁, ha, has⟩ := Option.bind_eq_some_iff.mp h
    show (act name a s).bind _ = _
    rw [ha]
    exact ih has

end Shelves

end CeStorage.Lib
