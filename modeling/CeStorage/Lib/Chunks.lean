import Mathlib

/-!
# Cutting a list into chunks

`chunks n xs` cuts `xs` into consecutive pieces of `n`, the last one shorter if
it has to be; nothing at all is cut into no pieces (Rust's `slice::chunks`).

* `chunks_flatten`: the pieces in order are the list.
* `chunks_append`: cutting a concatenation is concatenating the cuts, exactly
  when the first list ends on a boundary; `chunks_append_flatten` does so with
  any number of lists behind the first.
* `chunks_drop`, `chunks_take_flatten`: a run of pieces is a window of the list,
  from one boundary to another; `chunks_window` cuts any window out of the
  pieces that cover it.
-/

namespace CeStorage.Lib

variable {α : Type}

/-- The pieces of at most `fuel` cuts. -/
def chunksFuel (n : Nat) : Nat → List α → List (List α)
  | 0, _ => []
  | _ + 1, [] => []
  | fuel + 1, x :: xs => (x :: xs).take n :: chunksFuel n fuel ((x :: xs).drop n)

/-- Cut `xs` into consecutive pieces of `n`. -/
def chunks (n : Nat) (xs : List α) : List (List α) := chunksFuel n xs.length xs

@[simp] theorem chunks_nil (n : Nat) : chunks n ([] : List α) = [] := rfl

/-- Every cut takes at least one element, so a cut for each element is enough. -/
theorem chunksFuel_eq {n : Nat} (hn : 0 < n) (fuel : Nat) (xs : List α) (h : xs.length ≤ fuel) :
    chunksFuel n fuel xs = chunks n xs := by
  induction fuel using Nat.strongRecOn generalizing xs with
  | _ fuel ih =>
    rcases xs with _ | ⟨x, xs⟩
    · cases fuel <;> rfl
    · obtain ⟨fuel, rfl⟩ : ∃ f, fuel = f + 1 := ⟨fuel - 1, by simp at h; omega⟩
      have hlen : ((x :: xs).drop n).length ≤ xs.length := by
        rw [List.length_drop, List.length_cons]
        omega
      show _ :: chunksFuel n fuel _ = _ :: chunksFuel n xs.length _
      rw [List.length_cons] at h
      rw [ih fuel (Nat.lt_succ_self fuel) _ (by omega)]
      by_cases hx : xs.length < fuel + 1
      · rw [ih xs.length hx _ hlen]
      · omega

/-- The first piece, and the cut of the rest. -/
theorem chunks_of_ne_nil {n : Nat} (hn : 0 < n) {xs : List α} (h : xs ≠ []) :
    chunks n xs = xs.take n :: chunks n (xs.drop n) := by
  rcases xs with _ | ⟨x, xs⟩
  · exact absurd rfl h
  · show _ :: chunksFuel n xs.length _ = _
    rw [chunksFuel_eq hn]
    rw [List.length_drop, List.length_cons]
    omega

/-- The induction that `chunks` goes by: nothing, or a first piece and the rest. -/
theorem chunks_induction {n : Nat} (hn : 0 < n) {motive : List α → Prop} (nil : motive [])
    (step : ∀ xs, xs ≠ [] → motive (xs.drop n) → motive xs) (xs : List α) : motive xs := by
  induction hl : xs.length using Nat.strongRecOn generalizing xs with
  | _ l ih =>
    by_cases hx : xs = []
    · rw [hx]
      exact nil
    · have hpos : 0 < xs.length := List.length_pos_iff.mpr hx
      refine step xs hx (ih _ ?_ _ rfl)
      rw [List.length_drop, ← hl]
      omega

theorem chunks_flatten {n : Nat} (hn : 0 < n) (xs : List α) : (chunks n xs).flatten = xs := by
  induction xs using chunks_induction hn with
  | nil => rfl
  | step xs hx ih =>
    rw [chunks_of_ne_nil hn hx, List.flatten_cons, ih]
    exact List.take_append_drop n xs

/-- Cutting a concatenation whose first part ends on a boundary. -/
theorem chunks_append {n : Nat} (hn : 0 < n) (xs ys : List α) (h : n ∣ xs.length) :
    chunks n (xs ++ ys) = chunks n xs ++ chunks n ys := by
  induction xs using chunks_induction hn with
  | nil => rfl
  | step xs hx ih =>
    have hpos : 0 < xs.length := List.length_pos_iff.mpr hx
    have hle : n ≤ xs.length := Nat.le_of_dvd hpos h
    have hne : xs ++ ys ≠ [] := by simp [hx]
    rw [chunks_of_ne_nil hn hne, chunks_of_ne_nil hn hx, List.take_append_of_le_length hle,
      List.drop_append_of_le_length hle, List.cons_append, ih]
    rw [List.length_drop]
    exact Nat.dvd_sub h (Nat.dvd_refl n)

/-- Cutting a list with others after it, if it ends on a boundary or is the last
one. -/
theorem chunks_append_flatten {n : Nat} (hn : 0 < n) (xs : List α) (yss : List (List α))
    (h : yss ≠ [] → n ∣ xs.length) :
    chunks n (xs ++ yss.flatten) = chunks n xs ++ chunks n yss.flatten := by
  by_cases hy : yss = []
  · rw [hy, List.flatten_nil, List.append_nil, chunks_nil, List.append_nil]
  · exact chunks_append hn xs _ (h hy)

/-! ## Runs of pieces -/

theorem chunks_eq_nil {n : Nat} (hn : 0 < n) {xs : List α} : chunks n xs = [] ↔ xs = [] := by
  constructor
  · intro h
    by_contra hx
    rw [chunks_of_ne_nil hn hx] at h
    exact nomatch h
  · intro h
    rw [h]
    rfl

/-- Leaving out pieces is starting at a later boundary. -/
theorem chunks_drop {n : Nat} (hn : 0 < n) (i : Nat) (xs : List α) :
    (chunks n xs).drop i = chunks n (xs.drop (i * n)) := by
  induction i generalizing xs with
  | zero => rw [Nat.zero_mul, List.drop_zero, List.drop_zero]
  | succ i ih =>
    by_cases hx : xs = []
    · rw [hx, List.drop_nil, chunks_nil, List.drop_nil]
    · rw [chunks_of_ne_nil hn hx, List.drop_succ_cons, ih, List.drop_drop, Nat.succ_mul,
        Nat.add_comm n]

/-- The first pieces in order are the list up to a boundary. -/
theorem chunks_take_flatten {n : Nat} (hn : 0 < n) (k : Nat) (xs : List α) :
    ((chunks n xs).take k).flatten = xs.take (k * n) := by
  induction k generalizing xs with
  | zero => rw [Nat.zero_mul, List.take_zero, List.take_zero, List.flatten_nil]
  | succ k ih =>
    by_cases hx : xs = []
    · rw [hx, chunks_nil, List.take_nil, List.take_nil, List.flatten_nil]
    · rw [chunks_of_ne_nil hn hx, List.take_succ_cons, List.flatten_cons, ih, Nat.succ_mul,
        Nat.add_comm, List.take_add]

/-- There is an `i`-th piece exactly when the list goes past the `i`-th boundary. -/
theorem lt_length_chunks {n : Nat} (hn : 0 < n) {i : Nat} {xs : List α} :
    i < (chunks n xs).length ↔ i * n < xs.length := by
  rw [← not_iff_not, Nat.not_lt, Nat.not_lt, ← List.drop_eq_nil_iff, ← List.drop_eq_nil_iff,
    chunks_drop hn, chunks_eq_nil hn]

/-- A window that `k` pieces from the `i`-th on cover, cut out of these pieces. -/
theorem chunks_window {n : Nat} (hn : 0 < n) {i k start len : Nat} {xs : List α}
    (hstart : i * n ≤ start) (hlen : start + len ≤ (i + k) * n) :
    ((((chunks n xs).drop i).take k).flatten.drop (start - i * n)).take len
      = (xs.drop start).take len := by
  rw [chunks_drop hn, chunks_take_flatten hn, List.drop_take, List.take_take, List.drop_drop,
    Nat.add_sub_cancel' hstart, Nat.min_eq_left]
  rw [Nat.add_mul] at hlen
  omega

/-! ## The lengths of the pieces -/

theorem length_le_of_mem_chunks {n : Nat} {xs : List α} : ∀ c ∈ chunks n xs, c.length ≤ n := by
  unfold chunks
  generalize xs.length = fuel
  induction fuel generalizing xs with
  | zero => exact fun _ h => nomatch h
  | succ fuel ih =>
    cases xs with
    | nil => exact fun _ h => nomatch h
    | cons x xs =>
      intro c hc
      rcases List.mem_cons.mp hc with rfl | hc
      · exact List.length_take_le n _
      · exact ih c hc

/-- Every piece but the last is a whole one. -/
theorem length_of_mem_dropLast_chunks {n : Nat} (hn : 0 < n) (xs : List α) :
    ∀ c ∈ (chunks n xs).dropLast, c.length = n := by
  induction xs using chunks_induction hn with
  | nil => exact fun _ h => nomatch h
  | step xs hx ih =>
    rw [chunks_of_ne_nil hn hx]
    intro c hc
    by_cases hrest : chunks n (xs.drop n) = []
    · rw [hrest] at hc
      exact nomatch hc
    · rw [List.dropLast_cons_of_ne_nil hrest] at hc
      rcases List.mem_cons.mp hc with rfl | hc
      · -- something is left after the first piece
        have hlen : xs.drop n ≠ [] := fun h => hrest ((chunks_eq_nil hn).mpr h)
        rw [ne_eq, List.drop_eq_nil_iff, not_le] at hlen
        rw [List.length_take]
        omega
      · exact ih c hc

theorem ne_nil_of_mem_chunks {n : Nat} (hn : 0 < n) (xs : List α) : ∀ c ∈ chunks n xs, c ≠ [] := by
  induction xs using chunks_induction hn with
  | nil => exact fun _ h => nomatch h
  | step xs hx ih =>
    rw [chunks_of_ne_nil hn hx]
    intro c hc
    rcases List.mem_cons.mp hc with rfl | hc
    · rw [ne_eq, List.take_eq_nil_iff, not_or]
      exact ⟨Nat.ne_of_gt hn, hx⟩
    · exact ih c hc

/-- `k` pieces cover a list exactly when it ends before the `k`-th boundary. -/
theorem length_chunks_le {n : Nat} (hn : 0 < n) {k : Nat} {xs : List α} :
    (chunks n xs).length ≤ k ↔ xs.length ≤ k * n := by
  rw [← Nat.not_lt, lt_length_chunks hn, Nat.not_lt]

/-- Pieces as long as the pieces of some list are the pieces of their own
concatenation. -/
theorem chunks_flatten_of_lengths {β : Type} {n : Nat} (hn : 0 < n) {xs : List α}
    {yss : List (List β)} (h : yss.map List.length = (chunks n xs).map List.length) :
    chunks n yss.flatten = yss := by
  induction xs using chunks_induction hn generalizing yss with
  | nil =>
    obtain rfl : yss = [] := List.map_eq_nil_iff.mp h
    rfl
  | step xs hx ih =>
    rw [chunks_of_ne_nil hn hx, List.map_cons] at h
    cases yss with
    | nil => exact nomatch h
    | cons ys rest =>
      obtain ⟨hys, hrest⟩ := List.cons.inj h
      have hpos : 0 < xs.length := List.length_pos_iff.mpr hx
      rw [List.length_take] at hys
      have hne : (ys :: rest).flatten ≠ [] := by
        rw [← List.length_pos_iff, List.flatten_cons, List.length_append]
        omega
      -- the first piece is full, or there is no other
      have hcut : (ys :: rest).flatten.take n = ys ∧ (ys :: rest).flatten.drop n = rest.flatten := by
        by_cases hfull : n ≤ xs.length
        · rw [Nat.min_eq_left hfull] at hys
          exact ⟨List.take_left' hys, List.drop_left' hys⟩
        · have hnil : xs.drop n = [] := List.drop_eq_nil_of_le (by omega)
          rw [hnil, chunks_nil] at hrest
          obtain rfl : rest = [] := List.map_eq_nil_iff.mp hrest
          rw [List.flatten_cons, List.flatten_nil, List.append_nil]
          exact ⟨List.take_of_length_le (by omega), List.drop_eq_nil_of_le (by omega)⟩
      rw [chunks_of_ne_nil hn hne, hcut.1, hcut.2, ih hrest]

example : chunks 2 [1, 2, 3, 4, 5] = [[1, 2], [3, 4], [5]] := by decide

end CeStorage.Lib
