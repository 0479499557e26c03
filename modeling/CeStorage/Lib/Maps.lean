import Mathlib

/-!
# Sorted maps, by what they look up

`Std.ExtTreeMap` states its lookups by a comparison; over a linear order that is
equality of keys. The lookups after one change, and two changes to one key.
-/

namespace CeStorage.Lib

open Std (ExtTreeMap)

variable {κ β : Type} [Ord κ] [Std.TransOrd κ] [Std.LawfulEqOrd κ] [DecidableEq κ]
  {m : ExtTreeMap κ β} {k a : κ} {v w : β}

theorem get_insert : (m.insert k v)[a]? = if k = a then some v else m[a]? := by
  rw [ExtTreeMap.getElem?_insert]
  simp only [Std.LawfulEqOrd.compare_eq_iff_eq]

theorem get_insert_self : (m.insert k v)[k]? = some v := by
  rw [get_insert, if_pos rfl]

theorem get_insert_ne (h : k ≠ a) : (m.insert k v)[a]? = m[a]? := by
  rw [get_insert, if_neg h]

theorem get_insert_cases (h : (m.insert k v)[a]? = some w) :
    k = a ∧ v = w ∨ m[a]? = some w := by
  rw [get_insert] at h
  by_cases heq : k = a
  · rw [if_pos heq] at h
    exact .inl ⟨heq, Option.some.inj h⟩
  · exact .inr ((if_neg heq).symm.trans h)

theorem get_erase : (m.erase k)[a]? = if k = a then none else m[a]? := by
  rw [ExtTreeMap.getElem?_erase]
  simp only [Std.LawfulEqOrd.compare_eq_iff_eq]

theorem get_erase_self : (m.erase k)[k]? = none := by
  rw [get_erase, if_pos rfl]

theorem get_erase_ne (h : k ≠ a) : (m.erase k)[a]? = m[a]? := by
  rw [get_erase, if_neg h]

/-- The second of two insertions at one key is the one that counts. -/
theorem insert_insert : (m.insert k v).insert k w = m.insert k w := by
  refine ExtTreeMap.ext_getElem? ?_
  intro a
  rw [get_insert, get_insert, get_insert]
  split <;> rfl

/-- The bindings come in the order of their keys. -/
theorem toList_sorted {m : ExtTreeMap String β} : m.toList.Pairwise fun a b => a.1 < b.1 := by
  have h := ExtTreeMap.ordered_keys_toList (t := m)
  exact h.imp fun hab => compareOfLessAndEq_eq_lt.mp hab

end CeStorage.Lib
