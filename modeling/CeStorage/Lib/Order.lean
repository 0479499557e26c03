import CeStorage.Lib.Str

/-!
# Strings in order

Strings are compared character by character, so the strings with a common prefix
are an interval (`prefix_of_between`), and the least string above `s` is `s` with
a NUL at its end (`append_nul_le`). `findSub` finds the first occurrence of a
pattern (`findSub_eq_some`), which depends on nothing that comes after it
(`findSub_append`).
-/

namespace CeStorage.Lib

section
variable {α : Type} [LT α] [Std.Asymm (· < · : α → α → Prop)]
  [Std.Trichotomous (· < · : α → α → Prop)] {p a b c : List α}

/-- What lies between two lists that begin with `p` begins with `p`. -/
theorem prefix_of_between (ha : p <+: a) (hc : p <+: c) (hab : a ≤ b) (hbc : b ≤ c) : p <+: b := by
  induction p generalizing a b c with
  | nil => exact List.nil_prefix
  | cons x p ih =>
    obtain ⟨a', rfl, ha'⟩ := List.cons_prefix_iff.mp ha
    obtain ⟨c', rfl, hc'⟩ := List.cons_prefix_iff.mp hc
    cases b with
    | nil => exact absurd (List.nil_lt_cons x a') hab
    | cons y b =>
      rcases List.cons_le_cons_iff.mp hab with hxy | ⟨rfl, hab'⟩
      · rcases List.cons_le_cons_iff.mp hbc with hyx | ⟨rfl, -⟩
        · exact absurd hyx (Std.Asymm.asymm _ _ hxy)
        · exact absurd hxy (Std.Irrefl.irrefl _)
      · rcases List.cons_le_cons_iff.mp hbc with hyx | ⟨-, hbc'⟩
        · exact absurd hyx (Std.Irrefl.irrefl _)
        · exact List.cons_prefix_cons.mpr ⟨rfl, ih ha' hc' hab' hbc'⟩

theorem le_of_prefix (h : p <+: a) : p ≤ a := by
  induction p generalizing a with
  | nil => exact List.nil_le a
  | cons x p ih =>
    obtain ⟨a', rfl, ha'⟩ := List.cons_prefix_iff.mp h
    exact List.cons_le_cons_iff.mpr (.inr ⟨rfl, ih ha'⟩)

/-- Above a list there is nothing below the list with a least element at its
end. -/
theorem append_least_le {z : α} (hz : ∀ x, z < x ∨ z = x) : a ++ [z] ≤ b ↔ a < b := by
  induction a generalizing b with
  | nil =>
    cases b with
    | nil => exact iff_of_false (fun h => h (List.nil_lt_cons z [])) (List.not_lt_nil _)
    | cons y b =>
      refine iff_of_true (List.cons_le_cons_iff.mpr ?_) (List.nil_lt_cons y b)
      exact (hz y).imp_right fun h => ⟨h, List.nil_le b⟩
  | cons x a ih =>
    cases b with
    | nil => exact iff_of_false (fun h => h (List.nil_lt_cons x _)) (List.not_lt_nil _)
    | cons y b => rw [List.cons_append, List.cons_le_cons_iff, ih, List.cons_lt_cons_iff]

end

namespace Str

theorem startsWith_iff {s p : String} : startsWith s p = true ↔ p.toList <+: s.toList :=
  List.isPrefixOf_iff_prefix

theorem startsWith_between {p a b c : String} (ha : startsWith a p = true)
    (hc : startsWith c p = true) (hab : a ≤ b) (hbc : b ≤ c) : startsWith b p = true :=
  startsWith_iff.mpr
    (prefix_of_between (startsWith_iff.mp ha) (startsWith_iff.mp hc) hab hbc)

theorem le_of_startsWith {a p : String} (h : startsWith a p = true) : p ≤ a :=
  le_of_prefix (startsWith_iff.mp h)

/-- The least string above a string is the string and a NUL. -/
theorem append_nul_le {s t : String} : s ++ "\x00" ≤ t ↔ s < t := by
  have hleast : ∀ c : Char, '\x00' < c ∨ '\x00' = c := fun c => by
    rcases Nat.eq_zero_or_pos c.toNat with h | h
    · exact .inr (Char.toNat_inj.mp h.symm)
    · exact .inl h
  have h := append_least_le (a := s.toList) (b := t.toList) hleast
  have happend : s.toList ++ ['\x00'] = (s ++ "\x00").toList  :=
    (String.toList_append (s := s) (t := "\x00")).symm
  rw [happend] at h
  exact h

/-! ## The first occurrence of a pattern -/

theorem findSub_head {pat cs : List Char} (h : pat <+: cs) :
    findSub pat cs = some ([], cs.drop pat.length) := by
  have hp := List.isPrefixOf_iff_prefix.mpr h
  cases cs with
  | nil =>
    unfold findSub
    rw [if_pos hp, List.drop_nil]
  | cons c cs =>
    unfold findSub
    rw [if_pos hp]

theorem findSub_cons {pat cs : List Char} {c : Char} (h : ¬ pat <+: c :: cs) :
    findSub pat (c :: cs) = (findSub pat cs).map fun p => (c :: p.1, p.2) := by
  rw [findSub, if_neg fun hp => h (List.isPrefixOf_iff_prefix.mp hp)]

/-- Either the pattern is found and nowhere earlier, or it does not occur. -/
theorem findSub_cases (pat cs : List Char) :
    (∃ a b, findSub pat cs = some (a, b) ∧ cs = a ++ pat ++ b ∧
      ∀ a' b', cs = a' ++ pat ++ b' → a.length ≤ a'.length) ∨
    findSub pat cs = none ∧ ∀ a b, cs ≠ a ++ pat ++ b := by
  have found : ∀ {cs : List Char}, pat <+: cs → ∃ a b, findSub pat cs = some (a, b) ∧
      cs = a ++ pat ++ b ∧ ∀ a' b', cs = a' ++ pat ++ b' → a.length ≤ a'.length := by
    rintro cs ⟨b, rfl⟩
    refine ⟨[], b, ?_, rfl, fun _ _ _ => Nat.zero_le _⟩
    rw [findSub_head (List.prefix_append pat b), List.drop_left]
  induction cs with
  | nil =>
    by_cases hp : pat <+: []
    · exact .inl (found hp)
    · refine .inr ⟨?_, ?_⟩
      · unfold findSub
        rw [if_neg fun h => hp (List.isPrefixOf_iff_prefix.mp h)]
      · intro a b h
        have hnil := List.append_eq_nil_iff.mp (List.append_eq_nil_iff.mp h.symm).1
        exact hp (hnil.2 ▸ List.nil_prefix)
  | cons c cs ih =>
    by_cases hp : pat <+: c :: cs
    · exact .inl (found hp)
    · rw [findSub_cons hp]
      -- an occurrence that does not start at `c` lies in the rest
      have later : ∀ {a' b' : List Char}, c :: cs = a' ++ pat ++ b' →
          ∃ a, a' = c :: a ∧ cs = a ++ pat ++ b' := by
        intro a' b' h
        cases a' with
        | nil => exact absurd ⟨b', h.symm⟩ hp
        | cons x a' =>
          obtain ⟨rfl, hcs⟩ := List.cons.inj h
          exact ⟨a', rfl, hcs⟩
      rcases ih with ⟨a, b, h, rfl, hmin⟩ | ⟨h, hno⟩
      · refine .inl ⟨c :: a, b, by rw [h]; rfl, rfl, ?_⟩
        intro a' b' heq
        obtain ⟨a'', rfl, hcs⟩ := later heq
        exact Nat.succ_le_succ (hmin a'' b' hcs)
      · refine .inr ⟨by rw [h]; rfl, ?_⟩
        intro a' b' heq
        obtain ⟨a'', -, hcs⟩ := later heq
        exact hno a'' b' hcs

/-- A pattern is found where it first occurs. -/
theorem findSub_eq_some {pat cs a b : List Char} : findSub pat cs = some (a, b) ↔
    cs = a ++ pat ++ b ∧ ∀ a' b', cs = a' ++ pat ++ b' → a.length ≤ a'.length := by
  rcases findSub_cases pat cs with ⟨a₀, b₀, h, heq, hmin⟩ | ⟨h, hno⟩
  · rw [h]
    constructor
    · intro hab
      cases hab
      exact ⟨heq, hmin⟩
    · rintro ⟨heq', hmin'⟩
      have hlen : a₀.length = a.length :=
        Nat.le_antisymm (hmin _ _ heq') (hmin' _ _ heq)
      rw [heq, List.append_assoc, List.append_assoc] at heq'
      obtain ⟨rfl, hrest⟩ := List.append_inj heq' hlen
      rw [List.append_cancel_left hrest]
  · rw [h]
    exact iff_of_false (fun h => nomatch h) fun ⟨heq, _⟩ => hno a b heq

theorem findSub_eq_none {pat cs : List Char} : findSub pat cs = none ↔ ¬ pat <:+: cs := by
  rcases findSub_cases pat cs with ⟨a, b, h, heq, -⟩ | ⟨h, hno⟩
  · rw [h]
    exact iff_of_false (fun h => nomatch h) fun hnot => hnot ⟨a, b, heq.symm⟩
  · exact iff_of_true h fun ⟨a, b, heq⟩ => hno a b heq.symm

theorem findSub_of_notMem {c : Char} {a : List Char} (h : c ∉ a) (b : List Char) :
    findSub [c] (a ++ c :: b) = some (a, b) := by
  induction a with
  | nil => exact findSub_head (List.prefix_append [c] b)
  | cons x a ih =>
    rw [List.mem_cons, not_or] at h
    have hx : ¬[c] <+: x :: (a ++ c :: b) := by
      rintro ⟨t, ht⟩
      exact h.1 (List.cons.inj ht).1
    rw [List.cons_append, findSub_cons hx, ih h.2]
    rfl

/-- A character splits a text where it first occurs. -/
theorem splitOnce_append {c : Char} {a : String} (h : c ∉ a.toList) (b : String) :
    splitOnce c (a ++ String.singleton c ++ b) = some (a, b) := by
  unfold splitOnce
  rw [String.toList_append, String.toList_append, String.toList_singleton, List.append_assoc,
    List.singleton_append, findSub_of_notMem h]
  exact congrArg some (Prod.ext String.ofList_toList String.ofList_toList)

/-- Where a pattern is found depends on nothing after it. -/
theorem findSub_append {pat cs a b : List Char} (h : findSub pat cs = some (a, b))
    (ds : List Char) : findSub pat (a ++ pat ++ ds) = some (a, ds) := by
  obtain ⟨rfl, hmin⟩ := findSub_eq_some.mp h
  refine findSub_eq_some.mpr ⟨rfl, ?_⟩
  intro a' b' heq
  by_contra hlt
  -- an earlier occurrence would lie within `a ++ pat`
  have hpre : a' ++ pat <+: a ++ pat := by
    have hlong : a ++ pat <+: a ++ pat ++ ds := List.prefix_append _ _
    refine List.prefix_of_prefix_length_le ?_ hlong ?_
    · rw [heq]
      exact List.prefix_append _ _
    · rw [List.length_append, List.length_append]
      omega
  obtain ⟨r, hr⟩ := hpre
  refine hlt (hmin a' (r ++ b) ?_)
  rw [← hr, List.append_assoc (a' ++ pat)]

/-- A pattern that begins with a character it does not repeat is found after a
text that does not contain it. -/
theorem findSub_skip {c : Char} {pat a : List Char} (hc : c ∉ pat) (ha : ¬ c :: pat <:+: a)
    (b : List Char) : findSub (c :: pat) (a ++ c :: pat ++ b) = some (a, b) := by
  induction a with
  | nil =>
    rw [List.nil_append, findSub_head (List.prefix_append _ b), List.drop_left]
  | cons x a ih =>
    have hx : ¬ c :: pat <+: x :: (a ++ c :: pat ++ b) := by
      rintro ⟨t, ht⟩
      rw [← List.cons_append, ← List.cons_append, List.append_assoc] at ht
      rcases List.append_eq_append_iff.mp ht with ⟨y, hy, -⟩ | ⟨y, hy, hyt⟩
      · exact ha ⟨[], y, hy.symm⟩
      -- the pattern would end within the one that is there, with its first
      -- character in the middle
      · cases y with
        | nil => exact ha ⟨[], [], by simpa using hy⟩
        | cons y ys =>
          obtain rfl := (List.cons.inj hyt).1
          have hpat : pat = a ++ c :: ys := (List.cons.inj hy).2
          rw [hpat] at hc
          exact hc (List.mem_append_right a List.mem_cons_self)
    rw [List.cons_append, List.cons_append, findSub_cons hx,
      ih fun h => ha (h.trans (List.suffix_cons x a).isInfix)]
    rfl

end Str

end CeStorage.Lib
