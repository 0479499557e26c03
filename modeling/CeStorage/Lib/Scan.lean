import CeStorage.Lib.Order

/-!
# Trimming, decimal digits, and counting tags

What a text looks like when it is put together from parts, seen by the string
operations that take it apart again: `trim_matches` takes off what was put
around a text, `parse` reads the digits of a number back, and how often a tag
occurs in marked-up text is a sum over its tags.
-/

namespace CeStorage.Lib.Str

/-! ## Trimming -/

/-- Neither end of the text is a character of the set. -/
def Bare (p : Char → Bool) (cs : List Char) : Prop :=
  (∀ c ∈ cs.head?, p c = false) ∧ ∀ c ∈ cs.getLast?, p c = false

theorem bare_of_forall {p : Char → Bool} {cs : List Char} (h : ∀ c ∈ cs, p c = false) :
    Bare p cs :=
  ⟨fun c hc => h c (List.mem_of_mem_head? hc), fun c hc => h c (List.mem_of_mem_getLast? hc)⟩

theorem toList_trimMatches (p : Char → Bool) (s : String) : (trimMatches p s).toList
    = ((s.toList.dropWhile p).reverse.dropWhile p).reverse := by
  unfold trimMatches trimEndMatches trimStartMatches
  rw [String.toList_ofList, String.toList_ofList]

theorem dropWhile_of_head {p : Char → Bool} {cs : List Char} (h : ∀ c ∈ cs.head?, p c = false) :
    cs.dropWhile p = cs := by
  cases cs with
  | nil => rfl
  | cons c cs => exact List.dropWhile_cons_of_neg (by rw [h c rfl]; exact Bool.false_ne_true)

theorem head_dropWhile (p : Char → Bool) (cs : List Char) :
    ∀ c ∈ (cs.dropWhile p).head?, p c = false := by
  have h := List.head?_dropWhile_not p cs
  intro c hc
  rw [Option.mem_def.mp hc] at h
  exact h

/-- Trimming takes off what stands around a text that ends in nothing to trim. -/
theorem trimMatches_append {p : Char → Bool} {s : String} {a cs b : List Char}
    (hs : s.toList = a ++ cs ++ b) (ha : ∀ c ∈ a, p c = true) (hcs : Bare p cs)
    (hb : ∀ c ∈ b, p c = true) : trimMatches p s = String.ofList cs := by
  rw [← String.toList_inj, toList_trimMatches, hs, String.toList_ofList, List.append_assoc,
    List.dropWhile_append_of_pos ha]
  have hb' : ∀ c ∈ b.reverse, p c = true := fun c hc => hb c (List.mem_reverse.mp hc)
  cases cs with
  | nil =>
    rw [List.nil_append, List.dropWhile_eq_nil_iff.mpr hb]
    rfl
  | cons c cs =>
    have hhead : (c :: cs ++ b).dropWhile p = c :: cs ++ b := dropWhile_of_head hcs.1
    have hlast : (c :: cs).reverse.dropWhile p = (c :: cs).reverse :=
      dropWhile_of_head (by rw [List.head?_reverse]; exact hcs.2)
    rw [hhead, List.reverse_append, List.dropWhile_append_of_pos hb', hlast, List.reverse_reverse]

/-- Every text is what trimming leaves of it, with something trimmed around it. -/
theorem exists_trimMatches (p : Char → Bool) (s : String) : ∃ a b,
    s.toList = a ++ (trimMatches p s).toList ++ b ∧ (∀ c ∈ a, p c = true) ∧
      (∀ c ∈ b, p c = true) ∧ Bare p (trimMatches p s).toList := by
  rw [toList_trimMatches]
  generalize hm : s.toList.dropWhile p = m
  have hs : s.toList.takeWhile p ++ m = s.toList := by
    rw [← hm]
    exact List.takeWhile_append_dropWhile
  have hend : m = (m.reverse.dropWhile p).reverse ++ (m.reverse.takeWhile p).reverse := by
    rw [← List.reverse_append, List.takeWhile_append_dropWhile, List.reverse_reverse]
  refine ⟨s.toList.takeWhile p, (m.reverse.takeWhile p).reverse, ?_, ?_, ?_, ?_, ?_⟩
  · rw [List.append_assoc, ← hend, hs]
  · intro c hc
    exact List.mem_takeWhile_imp hc
  · intro c hc
    exact List.mem_takeWhile_imp (List.mem_reverse.mp hc)
  · -- the front was trimmed first, and trimming the end leaves it as it is
    intro c hc
    have hhead : m.head? = some c := by
      rw [hend, List.head?_append, hc]
      rfl
    rw [← hm] at hhead
    exact head_dropWhile p s.toList c hhead
  · rw [List.getLast?_reverse]
    exact head_dropWhile p m.reverse

theorem stripPrefix_eq_some {s p t : String} :
    stripPrefix s p = some t ↔ s.toList = p.toList ++ t.toList := by
  unfold stripPrefix
  constructor
  · intro h
    split at h
    next hstart =>
      obtain rfl := Option.some.inj h
      rw [String.toList_ofList]
      exact (List.prefix_iff_eq_append.mp (startsWith_iff.mp hstart)).symm
    next => cases h
  · intro h
    have hstart : startsWith s p = true := startsWith_iff.mpr ⟨t.toList, h.symm⟩
    rw [if_pos hstart, h, List.drop_left, String.ofList_toList]

/-! ## Segments -/

theorem split_ne_nil (p : Char → Bool) (cs : List Char) : split p cs ≠ [] := by
  cases cs with
  | nil => exact List.cons_ne_nil _ _
  | cons c cs =>
    unfold split
    split
    · exact List.cons_ne_nil _ _
    · split
      · exact List.cons_ne_nil _ _
      · exact List.cons_ne_nil _ _

theorem split_sep (sep : Char) (cs : List Char) :
    split (· == sep) (sep :: cs) = [] :: split (· == sep) cs := by
  rw [split, if_pos (beq_self_eq_true sep)]

theorem split_other {sep c : Char} (hc : c ≠ sep) (cs : List Char) : ∃ w ws,
    split (· == sep) cs = w :: ws ∧ split (· == sep) (c :: cs) = (c :: w) :: ws := by
  obtain ⟨w, ws, hcs⟩ := List.exists_cons_of_ne_nil (split_ne_nil (· == sep) cs)
  refine ⟨w, ws, hcs, ?_⟩
  rw [split, if_neg (by rw [beq_iff_eq]; exact hc), hcs]

section
variable {sep x y : Char} {a b : List Char}

/-- The empty text is one empty segment: one that another text begins with. -/
theorem split_nil_prefix :
    split (· == sep) [] <+: split (· == sep) b ↔ [] = b ∨ [sep] <+: b := by
  cases b with
  | nil => exact iff_of_true List.prefix_rfl (.inl rfl)
  | cons y b =>
    by_cases hy : y = sep
    · rw [hy, split_sep]
      exact iff_of_true (List.prefix_append [[]] _) (.inr (List.prefix_append [sep] b))
    · obtain ⟨w, ws, -, hsplit⟩ := split_other hy b
      rw [hsplit]
      refine iff_of_false (fun h => nomatch (List.cons_prefix_cons.mp h).1) ?_
      rintro (h | h)
      · cases h
      · exact hy (List.cons_prefix_cons.mp h).1.symm

theorem not_split_cons_prefix_nil : ¬ split (· == sep) (x :: a) <+: split (· == sep) [] := by
  intro h
  by_cases hx : x = sep
  · rw [hx, split_sep] at h
    exact split_ne_nil _ a (List.prefix_nil.mp (List.cons_prefix_cons.mp h).2)
  · obtain ⟨w, ws, -, hsplit⟩ := split_other hx a
    rw [hsplit] at h
    exact nomatch (List.cons_prefix_cons.mp h).1

/-- The first characters agree, and are separators or not together. -/
theorem split_cons_prefix_cons : split (· == sep) (x :: a) <+: split (· == sep) (y :: b)
    ↔ x = y ∧ split (· == sep) a <+: split (· == sep) b := by
  by_cases hx : x = sep
  · subst hx
    by_cases hy : y = x
    · subst hy
      rw [split_sep, split_sep, List.cons_prefix_cons, and_iff_right rfl, and_iff_right rfl]
    · obtain ⟨w, ws, -, hsplit⟩ := split_other hy b
      rw [split_sep, hsplit, List.cons_prefix_cons]
      exact iff_of_false (fun h => nomatch h.1) fun h => hy h.1.symm
  · obtain ⟨w, ws, hws, hsplit⟩ := split_other hx a
    rw [hsplit, hws]
    by_cases hy : y = sep
    · subst hy
      rw [split_sep, List.cons_prefix_cons]
      exact iff_of_false (fun h => nomatch h.1) fun h => hx h.1
    · obtain ⟨v, vs, hvs, hsplit'⟩ := split_other hy b
      rw [hsplit', hvs, List.cons_prefix_cons, List.cons_prefix_cons, List.cons.injEq,
        and_assoc]

/-- The segments of one text begin another if they are the same text or the
first ends there at a separator. -/
theorem split_prefix_iff :
    split (· == sep) a <+: split (· == sep) b ↔ a = b ∨ a ++ [sep] <+: b := by
  induction a generalizing b with
  | nil => exact split_nil_prefix
  | cons x a ih =>
    cases b with
    | nil =>
      refine iff_of_false not_split_cons_prefix_nil ?_
      rintro (h | h)
      · cases h
      · exact absurd (List.prefix_nil.mp h) (List.cons_ne_nil _ _)
    | cons y b =>
      rw [split_cons_prefix_cons, ih, List.cons_append, List.cons_prefix_cons, List.cons.injEq,
        ← and_or_left]

/-- Up to the first separator, a text is one segment. -/
theorem split_append (h : sep ∉ a) (b : List Char) :
    split (· == sep) (a ++ sep :: b) = a :: split (· == sep) b := by
  induction a with
  | nil => exact split_sep sep b
  | cons c a ih =>
    rw [List.mem_cons, not_or] at h
    obtain ⟨w, ws, hrest, hsplit⟩ := split_other (Ne.symm h.1) (a ++ sep :: b)
    rw [ih h.2] at hrest
    cases hrest
    exact hsplit

theorem split_whole (h : sep ∉ a) : split (· == sep) a = [a] := by
  induction a with
  | nil => rfl
  | cons c a ih =>
    rw [List.mem_cons, not_or] at h
    obtain ⟨w, ws, hrest, hsplit⟩ := split_other (Ne.symm h.1) a
    rw [ih h.2] at hrest
    cases hrest
    exact hsplit

end

section
variable {sep : Char} {s u v : String}

/-- What `split_once` finds stands before the first separator. -/
theorem splitOnce_eq_some (h : splitOnce sep s = some (u, v)) :
    s = u ++ String.singleton sep ++ v ∧ sep ∉ u.toList := by
  unfold splitOnce at h
  obtain ⟨⟨a, b⟩, hfind, hpair⟩ := Option.map_eq_some_iff.mp h
  cases hpair
  obtain ⟨htext, hfirst⟩ := findSub_eq_some.mp hfind
  constructor
  · rw [← String.toList_inj, htext]
    simp
  · rw [String.toList_ofList]
    intro hmem
    obtain ⟨a₁, a₂, rfl⟩ := List.append_of_mem hmem
    have hshort := hfirst a₁ (a₂ ++ [sep] ++ b) (by rw [htext]; simp)
    rw [List.length_append, List.length_cons] at hshort
    omega

theorem splitOnce_eq_none (h : splitOnce sep s = none) : sep ∉ s.toList := by
  unfold splitOnce at h
  rw [Option.map_eq_none_iff, findSub_eq_none] at h
  intro hmem
  obtain ⟨a, b, htext⟩ := List.append_of_mem hmem
  exact h ⟨a, b, by rw [htext]; simp⟩

theorem trimEndMatches_bare (h : sep ∉ s.toList) : trimEndMatches (· == sep) s = s := by
  unfold trimEndMatches
  rw [dropWhile_of_head, List.reverse_reverse, String.ofList_toList]
  intro c hc
  have hmem : c ∈ s.toList := List.mem_reverse.mp (List.mem_of_mem_head? hc)
  exact beq_false_of_ne fun heq => h (heq ▸ hmem)

/-- The separators at the end are trimmed, and the first one too if nothing is left
of what follows it. -/
theorem trimEndMatches_append (h : sep ∉ u.toList) (v : String) :
    trimEndMatches (· == sep) (u ++ String.singleton sep ++ v)
      = if trimEndMatches (· == sep) v = "" then u
        else u ++ String.singleton sep ++ trimEndMatches (· == sep) v := by
  have hu := trimEndMatches_bare h
  unfold trimEndMatches at hu ⊢
  have htext : (u ++ String.singleton sep ++ v).toList.reverse
      = v.toList.reverse ++ sep :: u.toList.reverse := by
    simp
  rw [htext, List.dropWhile_append]
  by_cases hv : v.toList.reverse.dropWhile (· == sep) = []
  · rw [hv, List.reverse_nil, if_pos List.isEmpty_nil, if_pos String.ofList_nil,
      List.dropWhile_cons_of_pos (by exact beq_self_eq_true sep)]
    exact hu
  · rw [if_neg (by rw [List.isEmpty_iff]; exact hv), if_neg]
    · rw [← String.toList_inj]
      simp
    · rw [← String.toList_inj]
      simpa using hv

end

/-! ## Decimal digits -/

/-- An ASCII digit. -/
abbrev IsDigit (c : Char) : Prop := '0' ≤ c ∧ c ≤ '9'

theorem digits_eq_some {acc : Nat} {cs : List Char} (h : ∀ c ∈ cs, IsDigit c) :
    digits acc cs = some (Nat.ofDigitChars 10 cs acc) := by
  induction cs generalizing acc with
  | nil => rfl
  | cons c cs ih =>
    rw [List.forall_mem_cons] at h
    unfold digits
    rw [if_pos h.1, ih h.2, Nat.ofDigitChars_cons, Nat.mul_comm acc 10]

theorem digits_isSome_iff {acc : Nat} {cs : List Char} :
    (digits acc cs).isSome ↔ ∀ c ∈ cs, IsDigit c := by
  induction cs generalizing acc with
  | nil => simp [digits]
  | cons c cs ih =>
    rw [List.forall_mem_cons]
    unfold digits
    split
    next hc => exact ih.trans (and_iff_right hc).symm
    next hc => exact iff_of_false Bool.false_ne_true fun h => hc h.1

theorem isDigit_of_mem_toDigits {n : Nat} {c : Char} (h : c ∈ Nat.toDigits 10 n) : IsDigit c := by
  have hd := Nat.isDigit_of_mem_toDigits (by decide) (by decide) h
  unfold Char.isDigit at hd
  rw [Bool.and_eq_true, decide_eq_true_iff, decide_eq_true_iff] at hd
  exact hd

theorem not_isWhitespace_of_isDigit {c : Char} (h : IsDigit c) : isWhitespace c = false := by
  have h0 : '0'.toNat ≤ c.toNat := h.1
  have h9 : c.toNat ≤ '9'.toNat := h.2
  have e0 : '0'.toNat = 48 := rfl
  have e9 : '9'.toNat = 57 := rfl
  unfold isWhitespace
  simp only [Bool.or_eq_false_iff, Bool.and_eq_false_iff, decide_eq_false_iff_not,
    beq_eq_false_iff_ne]
  omega

/-- A hexadecimal digit is neither white space nor a quote. -/
theorem hexDigit_spec {c : Char} (h : (hexDigit c).isSome) : isWhitespace c = false ∧ c ≠ '"' := by
  have hrange : ('0'.toNat ≤ c.toNat ∧ c.toNat ≤ '9'.toNat) ∨
      ('a'.toNat ≤ c.toNat ∧ c.toNat ≤ 'f'.toNat) ∨
      ('A'.toNat ≤ c.toNat ∧ c.toNat ≤ 'F'.toNat) := by
    unfold hexDigit at h
    split at h
    next hd => exact .inl hd
    next =>
      split at h
      next hl => exact .inr (.inl hl)
      next =>
        split at h
        next hu => exact .inr (.inr hu)
        next => exact absurd h Bool.false_ne_true
  rw [show '0'.toNat = 48 from rfl, show '9'.toNat = 57 from rfl, show 'a'.toNat = 97 from rfl,
    show 'f'.toNat = 102 from rfl, show 'A'.toNat = 65 from rfl, show 'F'.toNat = 70 from rfl]
    at hrange
  constructor
  · unfold isWhitespace
    simp only [Bool.or_eq_false_iff, Bool.and_eq_false_iff, decide_eq_false_iff_not,
      beq_eq_false_iff_ne]
    omega
  · rintro rfl
    have hquote : '"'.toNat = 34 := rfl
    omega

/-- `parse` without the sign. -/
theorem parseUnsigned_plus (bound : Nat) (cs : List Char) :
    parseUnsigned bound (String.ofList ('+' :: cs))
      = if cs = [] then none
        else (digits 0 cs).bind fun n => if n < bound then some n else none := by
  unfold parseUnsigned
  rw [String.toList_ofList]
  cases cs with
  | nil => rfl
  | cons c cs => rfl

theorem parseUnsigned_digits (bound : Nat) {cs : List Char} (h : ∀ c ∈ cs.head?, c ≠ '+') :
    parseUnsigned bound (String.ofList cs)
      = if cs = [] then none
        else (digits 0 cs).bind fun n => if n < bound then some n else none := by
  unfold parseUnsigned
  rw [String.toList_ofList]
  cases cs with
  | nil => rfl
  | cons c cs =>
    have hc : c ≠ '+' := h c rfl
    simp [hc]

/-- One or more ASCII digits, with the number that they write. -/
structure Decimal (s : String) (n : Nat) : Prop where
  ne_empty : s ≠ ""
  digits : ∀ c ∈ s.toList, IsDigit c
  value : Nat.ofDigitChars 10 s.toList 0 = n

/-- A number that may have a plus sign before its digits. -/
def Signed (s : String) (n : Nat) : Prop := Decimal s n ∨ ∃ t, s = "+" ++ t ∧ Decimal t n

theorem Decimal.not_plus {s t : String} {n : Nat} (h : Decimal s n) : s ≠ "+" ++ t := by
  rintro rfl
  have hmem : '+' ∈ ("+" ++ t).toList := by
    rw [String.toList_append]
    exact List.mem_append_left _ List.mem_cons_self
  exact absurd (h.digits '+' hmem) (by decide)

theorem Signed.unique {s : String} {m n : Nat} (hm : Signed s m) (hn : Signed s n) : m = n := by
  rcases hm with hm | ⟨t, rfl, hm⟩
  · rcases hn with hn | ⟨t, rfl, hn⟩
    · exact hm.value.symm.trans hn.value
    · exact absurd rfl hm.not_plus
  · rcases hn with hn | ⟨t', heq, hn⟩
    · exact absurd rfl hn.not_plus
    · have ht : t = t' := by
        rw [← String.toList_inj, String.toList_append, String.toList_append] at heq
        exact String.toList_inj.mp (List.append_cancel_left heq)
      rw [ht] at hm
      exact hm.value.symm.trans hn.value

theorem Signed.ne_empty {s : String} {n : Nat} (h : Signed s n) : s ≠ "" := by
  rcases h with h | ⟨t, rfl, -⟩
  · exact h.ne_empty
  · intro h
    have hnil := congrArg String.toList h
    rw [String.toList_append] at hnil
    exact absurd hnil (List.cons_ne_nil _ _)

/-- The value that `parse` reads, before it looks whether it fits. -/
theorem digits_bind_eq_some {bound n : Nat} {s : String} :
    (if s.toList = [] then none
      else (digits 0 s.toList).bind fun n => if n < bound then some n else none) = some n
      ↔ Decimal s n ∧ n < bound := by
  have hempty : s.toList = [] ↔ s = "" := String.toList_eq_nil_iff
  by_cases hs : s = ""
  · rw [if_pos (hempty.mpr hs)]
    exact iff_of_false (fun h => nomatch h) fun h => h.1.ne_empty hs
  rw [if_neg (hempty.not.mpr hs)]
  by_cases hd : ∀ c ∈ s.toList, IsDigit c
  · rw [digits_eq_some hd, Option.bind_some]
    constructor
    · intro h
      split at h
      next hlt =>
        cases h
        exact ⟨⟨hs, hd, rfl⟩, hlt⟩
      next => cases h
    · rintro ⟨⟨-, -, rfl⟩, hlt⟩
      exact if_pos hlt
  · have hnone : digits 0 s.toList = none := by
      rw [← Option.not_isSome_iff_eq_none, digits_isSome_iff]
      exact hd
    rw [hnone]
    exact iff_of_false (fun h => nomatch h) fun h => hd h.1.digits

/-- `parse` reads the numbers below the bound, also with a plus sign. -/
theorem parseUnsigned_eq_some {bound n : Nat} {s : String} :
    parseUnsigned bound s = some n ↔ Signed s n ∧ n < bound := by
  by_cases hplus : ∃ t, s = "+" ++ t
  · obtain ⟨t, rfl⟩ := hplus
    have hs : "+" ++ t = String.ofList ('+' :: t.toList) := by
      rw [← String.toList_inj, String.toList_ofList, String.toList_append]
      rfl
    have hsigned : Signed ("+" ++ t) n ↔ Decimal t n := by
      constructor
      · rintro (h | ⟨t', heq, h⟩)
        · exact absurd rfl h.not_plus
        · rw [← String.toList_inj, String.toList_append, String.toList_append] at heq
          rwa [String.toList_inj.mp (List.append_cancel_left heq)]
      · exact fun h => .inr ⟨t, rfl, h⟩
    rw [hsigned, hs, parseUnsigned_plus]
    exact digits_bind_eq_some
  · have hhead : ∀ c ∈ s.toList.head?, c ≠ '+' := by
      rintro c hc rfl
      obtain ⟨cs, hcs⟩ := List.head?_eq_some_iff.mp hc
      refine hplus ⟨String.ofList cs, ?_⟩
      have htail : (String.ofList cs).toList = cs := String.toList_ofList
      rw [← String.toList_inj, hcs, String.toList_append, htail]
      rfl
    have hsigned : Signed s n ↔ Decimal s n :=
      or_iff_left fun ⟨t, ht, _⟩ => hplus ⟨t, ht⟩
    have hparse := parseUnsigned_digits bound hhead
    rw [String.ofList_toList] at hparse
    rw [hsigned, hparse]
    exact digits_bind_eq_some

/-- `parse` reads the digits of a number back, also with zeros in front. -/
theorem parseUnsigned_toDigits {bound n : Nat} (zeros : Nat) (h : n < bound) :
    parseUnsigned bound (String.ofList (List.replicate zeros '0' ++ Nat.toDigits 10 n))
      = some n := by
  have hdigits : ∀ c ∈ List.replicate zeros '0' ++ Nat.toDigits 10 n, IsDigit c := by
    intro c hc
    rcases List.mem_append.mp hc with hc | hc
    · rw [List.eq_of_mem_replicate hc]
      decide
    · exact isDigit_of_mem_toDigits hc
  have hvalue : digits 0 (List.replicate zeros '0' ++ Nat.toDigits 10 n) = some n := by
    rw [digits_eq_some hdigits, Nat.ofDigitChars_append, Nat.ofDigitChars_replicate_zero,
      Nat.mul_zero, Nat.ofDigitChars_ten_toDigits]
  have hne : List.replicate zeros '0' ++ Nat.toDigits 10 n ≠ [] := fun h =>
    Nat.toDigits_ne_nil (List.append_eq_nil_iff.mp h).2
  have hplus : ∀ c ∈ (List.replicate zeros '0' ++ Nat.toDigits 10 n).head?, c ≠ '+' := by
    intro c hc heq
    rw [heq] at hc
    exact absurd (hdigits _ (List.mem_of_mem_head? hc)) (by decide)
  rw [parseUnsigned_digits bound hplus, if_neg hne, hvalue, Option.bind_some, if_pos h]

/-! ## Tags -/

/-- How often a pattern occurs in a text. -/
def occurs (pat : List Char) : List Char → Nat
  | [] => 0
  | c :: cs => (if pat <+: c :: cs then 1 else 0) + occurs pat cs

theorem occurs_eq_zero {pat : List Char} (hp : pat ≠ []) {cs : List Char} :
    occurs pat cs = 0 ↔ ¬pat <:+: cs := by
  induction cs with
  | nil => exact iff_of_true rfl fun h => hp (List.infix_nil.mp h)
  | cons c cs ih =>
    unfold occurs
    rw [Nat.add_eq_zero_iff, ih, List.infix_cons_iff, not_or]
    refine and_congr_left fun _ => ?_
    split
    next h => exact iff_of_false Nat.one_ne_zero fun hn => hn h
    next h => exact iff_of_true rfl h

theorem occurs_prefix {pat cs : List Char} (hp : pat ≠ []) (h : pat <+: cs) :
    1 ≤ occurs pat cs := by
  by_contra hlt
  exact (occurs_eq_zero hp).mp (by omega) h.isInfix

theorem occurs_suffix {pat a b : List Char} : occurs pat b ≤ occurs pat (a ++ b) := by
  induction a with
  | nil => exact Nat.le_refl _
  | cons c a ih =>
    rw [List.cons_append, occurs]
    omega

/-- What occurs in two texts occurs in one after the other. -/
theorem occurs_append_le {pat a b : List Char} :
    occurs pat a + occurs pat b ≤ occurs pat (a ++ b) := by
  induction a with
  | nil => rw [occurs, Nat.zero_add, List.nil_append]
  | cons c a ih =>
    rw [List.cons_append, occurs, occurs]
    have hlong : pat <+: c :: a → pat <+: c :: (a ++ b) := fun h =>
      h.trans (List.prefix_append (c :: a) b)
    split
    next h =>
      rw [if_pos (hlong h)]
      omega
    next => omega

/-- A tag: its name, and what else stands in it. -/
def tag (name rest : List Char) : List Char := '<' :: (name ++ (rest ++ ['>']))

/-- What may stand in a tag after the name. -/
structure TagRest (rest : List Char) : Prop where
  lt : '<' ∉ rest
  apart : ∀ c ∈ rest.head?, isWhitespace c = true

/-- The name of a tag. -/
def TagName (name : List Char) : Prop :=
  name.all (fun c => c != '<' && c != '>' && !isWhitespace c) = true

instance (name : List Char) : Decidable (TagName name) := inferInstanceAs (Decidable (_ = true))

theorem tagName_iff {name : List Char} :
    TagName name ↔ ∀ c ∈ name, c ≠ '<' ∧ c ≠ '>' ∧ isWhitespace c = false := by
  unfold TagName
  rw [List.all_eq_true]
  refine forall₂_congr fun c _ => ?_
  rw [Bool.and_eq_true, Bool.and_eq_true, bne_iff_ne, bne_iff_ne, Bool.not_eq_true', and_assoc]

theorem tag_ne_nil (name rest : List Char) : tag name rest ≠ [] := List.cons_ne_nil _ _

/-- No tag begins in a text without `<`. -/
theorem occurs_text {name text : List Char} (h : '<' ∉ text) (cs : List Char) :
    occurs (tag name []) (text ++ cs) = occurs (tag name []) cs := by
  induction text with
  | nil => rfl
  | cons c text ih =>
    rw [List.mem_cons, not_or] at h
    rw [List.cons_append, occurs, if_neg, ih h.2, Nat.zero_add]
    exact fun hp => h.1 (List.cons_prefix_cons.mp hp).1

/-- Two names that are ended differently differ: the one ends in a `>`, and the
other in white space unless the tag holds nothing else. -/
theorem name_of_prefix {name name' rest cs : List Char} (hn : TagName name) (hn' : TagName name')
    (hr : TagRest rest) (h : name ++ ['>'] <+: name' ++ (rest ++ ['>'] ++ cs)) :
    name = name' ∧ rest = [] := by
  rw [tagName_iff] at hn hn'
  have hend : ∀ c, c ≠ '>' → isWhitespace c = false →
      ∀ t, ¬c :: t <+: rest ++ ['>'] ++ cs := by
    intro c hc hwhite t hp
    cases rest with
    | nil => exact hc (List.cons_prefix_cons.mp hp).1
    | cons r rs =>
      obtain rfl := (List.cons_prefix_cons.mp hp).1
      rw [hr.apart c rfl] at hwhite
      exact Bool.noConfusion hwhite
  induction name generalizing name' with
  | nil =>
    cases name' with
    | nil =>
      refine ⟨rfl, ?_⟩
      cases rest with
      | nil => rfl
      | cons r rs =>
        have hwhite := hr.apart r rfl
        rw [← (List.cons_prefix_cons.mp h).1] at hwhite
        exact absurd hwhite (by decide)
    | cons c' name' =>
      exact absurd (List.cons_prefix_cons.mp h).1.symm (hn' c' List.mem_cons_self).2.1
  | cons c name ih =>
    have hc := hn c List.mem_cons_self
    cases name' with
    | nil => exact absurd h (hend c hc.2.1 hc.2.2 _)
    | cons c' name' =>
      obtain ⟨rfl, htail⟩ := List.cons_prefix_cons.mp h
      obtain ⟨rfl, hrest⟩ := ih (fun x hx => hn x (List.mem_cons_of_mem _ hx))
        (fun x hx => hn' x (List.mem_cons_of_mem _ hx)) htail
      exact ⟨rfl, hrest⟩

/-- A tag without attributes occurs where a tag of that name is and has none. -/
theorem occurs_tag {name name' rest : List Char} (hn : TagName name) (hn' : TagName name')
    (hr : TagRest rest) (cs : List Char) : occurs (tag name []) (tag name' rest ++ cs)
      = (if name = name' ∧ rest = [] then 1 else 0) + occurs (tag name []) cs := by
  have hhere : tag name [] <+: tag name' rest ++ cs ↔ name = name' ∧ rest = [] := by
    unfold tag
    rw [List.cons_append, List.cons_prefix_cons, and_iff_right rfl, List.nil_append]
    constructor
    · intro h
      rw [List.append_assoc] at h
      exact name_of_prefix hn hn' hr h
    · rintro ⟨rfl, rfl⟩
      rw [List.nil_append]
      exact List.prefix_append _ _
  have hlt : '<' ∉ name' ++ (rest ++ ['>']) := by
    rw [List.mem_append, List.mem_append, List.mem_singleton]
    rintro (h | h | h)
    · exact (tagName_iff.mp hn' _ h).1 rfl
    · exact hr.lt h
    · exact absurd h (by decide)
  have hsplit : tag name' rest ++ cs = '<' :: (name' ++ (rest ++ ['>']) ++ cs) := rfl
  rw [hsplit, occurs, occurs_text hlt, ← hsplit]
  exact congrArg (· + _) (if_congr hhere rfl rfl)

/-- A tag is found where it first occurs. -/
theorem findSub_tag {name a : List Char} (hn : TagName name) (ha : occurs (tag name []) a = 0)
    (b : List Char) : findSub (tag name []) (a ++ tag name [] ++ b) = some (a, b) := by
  refine findSub_skip (c := '<') ?_ ((occurs_eq_zero (tag_ne_nil _ _)).mp ha) b
  rw [List.nil_append, List.mem_append, List.mem_singleton]
  rintro (h | h)
  · exact (tagName_iff.mp hn _ h).1 rfl
  · exact absurd h (by decide)

theorem findSub_isSome {pat cs : List Char} (hp : pat ≠ []) :
    (findSub pat cs).isSome ↔ 1 ≤ occurs pat cs := by
  rw [Option.isSome_iff_ne_none, ne_eq, findSub_eq_none, ← occurs_eq_zero hp]
  omega

end CeStorage.Lib.Str
