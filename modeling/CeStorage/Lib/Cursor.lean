import Mathlib.Order.Interval.Set.OrdConnected

/-!
# Reading through a cursor

A reader goes through a collection of keyed entries in pieces. Each piece holds the
entries after the last cursor up to and with the next one, or all that are left. The
collection may be another for each piece. What a reader can still count on is that
the keys come in order, each once (`Reading.sorted`), that what it read was there
(`Reading.sound`), and that it has not missed what was there all along, be it under
changing keys of one interval (`Reading.complete`).
-/

namespace CeStorage.Lib

variable {K A : Type} [LinearOrder K] {cursor : Option K} {C : Set K} {k : K} {entries taken : List (K × A)}
  {pieces : List (List (K × A) × List (K × A))}

/-- The key comes after the cursor, if there is one. -/
def Beyond (cursor : Option K) (k : K) : Prop := ∀ c ∈ cursor, c < k

/-- The entries `taken` are those after a cursor, up to and with the next one. -/
structure Stretch (cursor : Option K) (entries taken : List (K × A)) (next : Option K) :
    Prop where
  sorted : taken.Pairwise fun p q => p.1 < q.1
  mem : ∀ p, p ∈ taken ↔ p ∈ entries ∧ Beyond cursor p.1 ∧ ∀ n ∈ next, p.1 ≤ n
  /-- The next cursor is the last key that was taken. -/
  next : ∀ n ∈ next, ∃ a, (n, a) ∈ taken

/-- A reading: for each piece, the entries there were and those that were taken. -/
inductive Reading : Option K → List (List (K × A) × List (K × A)) → Prop
  | last {cursor : Option K} {entries taken : List (K × A)}
      (h : Stretch cursor entries taken none) : Reading cursor [(entries, taken)]
  | more {cursor : Option K} {n : K} {entries taken : List (K × A)}
      {rest : List (List (K × A) × List (K × A))} (h : Stretch cursor entries taken (some n))
      (hrest : Reading (some n) rest) : Reading cursor ((entries, taken) :: rest)

theorem Stretch.ahead {next : Option K} (h : Stretch cursor entries taken next) {n : K}
    (hn : n ∈ next) : Beyond cursor n := by
  obtain ⟨a, ha⟩ := h.next n hn
  exact ((h.mem _).mp ha).2.1

theorem Beyond.after {n : K} (h : Beyond cursor n) (hn : n < k) : Beyond cursor k :=
  fun c hc => lt_trans (h c hc) hn

namespace Reading

theorem beyond (h : Reading cursor pieces) : ∀ p ∈ pieces.flatMap (·.2), Beyond cursor p.1 := by
  induction h with
  | last h =>
    intro p hp
    rw [List.flatMap_singleton] at hp
    exact ((h.mem p).mp hp).2.1
  | more h hrest ih =>
    intro p hp
    rcases List.mem_append.mp (List.flatMap_cons ▸ hp) with hp | hp
    · exact ((h.mem p).mp hp).2.1
    · exact (h.ahead rfl).after (ih p hp _ rfl)

/-- The keys come in order, each once. -/
theorem sorted (h : Reading cursor pieces) :
    (pieces.flatMap (·.2)).Pairwise fun p q => p.1 < q.1 := by
  induction h with
  | last h =>
    rw [List.flatMap_singleton]
    exact h.sorted
  | more h hrest ih =>
    rw [List.flatMap_cons]
    refine List.pairwise_append.mpr ⟨h.sorted, ih, ?_⟩
    intro p hp q hq
    exact lt_of_le_of_lt (((h.mem p).mp hp).2.2 _ rfl) (hrest.beyond q hq _ rfl)

/-- What is read was there when it was read. -/
theorem sound (h : Reading cursor pieces) : ∀ piece ∈ pieces, ∀ p ∈ piece.2, p ∈ piece.1 := by
  induction h with
  | last h =>
    intro piece hpiece p hp
    cases List.mem_singleton.mp hpiece
    exact ((h.mem p).mp hp).1
  | more h hrest ih =>
    intro piece hpiece p hp
    rcases List.mem_cons.mp hpiece with rfl | hpiece
    · exact ((h.mem p).mp hp).1
    · exact ih piece hpiece p hp

/-- Some entry of an interval of keys is read, if there was one all along. -/
theorem complete (h : Reading cursor pieces) (hC : C.OrdConnected)
    (hbeyond : ∀ k ∈ C, Beyond cursor k) (hall : ∀ piece ∈ pieces, ∃ p ∈ piece.1, p.1 ∈ C) :
    ∃ piece ∈ pieces, ∃ p ∈ piece.2, p.1 ∈ C := by
  induction h with
  | last h =>
    obtain ⟨p, hp, hk⟩ := hall _ List.mem_cons_self
    exact ⟨_, List.mem_cons_self, p,
      (h.mem _).mpr ⟨hp, hbeyond _ hk, fun _ hn => nomatch hn⟩, hk⟩
  | @more cursor n entries taken rest h hrest ih =>
    obtain ⟨a, hnext⟩ := h.next n rfl
    by_cases hread : ∃ p ∈ taken, p.1 ∈ C
    · exact ⟨_, List.mem_cons_self, hread⟩
    · have hapart : ∀ p ∈ taken, p.1 ∉ C := fun p hp hk => hread ⟨p, hp, hk⟩
      obtain ⟨p, hp, hk⟩ := hall _ List.mem_cons_self
      have hlt : n < p.1 := by
        refine lt_of_not_ge ?_
        intro hle
        refine hapart p ((h.mem p).mpr ⟨hp, hbeyond _ hk, ?_⟩) hk
        intro n' hn'
        cases hn'
        exact hle
      -- the cursor is not in the interval, and lies before one of its keys, so before all
      have hrest : ∀ k ∈ C, Beyond (some n) k := by
        intro k hkC n' hn'
        cases hn'
        refine lt_of_not_ge ?_
        intro hle
        exact hapart _ hnext (hC.out hkC hk ⟨hle, le_of_lt hlt⟩)
      obtain ⟨piece, hpiece, hp⟩ :=
        ih hrest fun piece hpiece => hall piece (List.mem_cons_of_mem _ hpiece)
      exact ⟨piece, List.mem_cons_of_mem _ hpiece, hp⟩

end Reading

end CeStorage.Lib
