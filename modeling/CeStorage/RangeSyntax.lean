import CeStorage.Lib.Checked
import CeStorage.Lib.Scan
import CeStorage.Range

/-!
# The syntax of ranges (`range.rs`)

What a `Range` header asks for, and what `parse_range` takes it to ask for. The
numbers go through `str::parse::<u64>`, which also takes a plus sign and refuses
what does not fit: so a satisfiable range is resolved as HTTP does if and only
if it has a plus sign exactly when one of its numbers does not fit
(`parse_range_iff`). No subtraction underflows on the way.
-/

namespace CeStorage

open Lib

/-- A range as a request means it, whatever the size of the numbers. -/
inductive RangeRequest where
  | window (first last : Nat)
  | «from» (first : Nat)
  | suffix (length : Nat)

namespace RangeRequest

/-- The inclusive window of an object of that size, if the range is satisfiable. -/
def resolve (totalSize : Nat) : RangeRequest → Option (Nat × Nat)
  | window first last =>
    if first < totalSize ∧ first ≤ last then some (first, min last (totalSize - 1)) else none
  | «from» first => if first < totalSize then some (first, totalSize - 1) else none
  | suffix length =>
    if 0 < length ∧ 0 < totalSize then some (totalSize - min length totalSize, totalSize - 1)
    else none

/-- Its numbers fit into 64 bits. -/
def Fits : RangeRequest → Prop
  | window first last => first < 2 ^ 64 ∧ last < 2 ^ 64
  | «from» first => first < 2 ^ 64
  | suffix length => length < 2 ^ 64

/-- The two ends of the range, with its numbers written in the given way. -/
def Ends (writes : String → Nat → Prop) (a b : String) : RangeRequest → Prop
  | window first last => writes a first ∧ writes b last
  | «from» first => writes a first ∧ b = ""
  | suffix length => a = "" ∧ writes b length

end RangeRequest

/-- White space as `str::trim` has it. -/
def White (cs : List Char) : Prop := ∀ c ∈ cs, Str.isWhitespace c = true

/-- The header is `bytes=a-b`, with white space around it and around the two ends. -/
structure Spells (header a b : String) : Prop where
  spelled : ∃ w₀ w₁ w₂ w₃ w₄, White w₀ ∧ White w₁ ∧ White w₂ ∧ White w₃ ∧ White w₄ ∧
    header.toList = w₀ ++ "bytes=".toList ++ (w₁ ++ a.toList ++ w₂) ++ ['-']
      ++ (w₃ ++ b.toList ++ w₄)

/-- The header is a range, with its numbers written in the given way. -/
def Asks (writes : String → Nat → Prop) (header : String) (req : RangeRequest) : Prop :=
  ∃ a b, Spells header a b ∧ req.Ends writes a b

/-! ## The ends of a header -/

/-- What `parseRange` splits a header into before it reads any number. -/
def rangeEnds (header : String) : Option (String × String) :=
  (Str.stripPrefix (Str.trim header) "bytes=").bind fun spec =>
    if Str.containsChar spec ',' then none
    else (Str.splitOnce '-' spec).map fun p => (Str.trim p.1, Str.trim p.2)

theorem parseRange_eq_ok {header : String} {totalSize : Nat} {p : Nat × Nat} :
    parseRange header totalSize = .ok p ↔ ∃ a b, rangeEnds header = some (a, b) ∧
      totalSize ≠ 0 ∧ resolveRange a b totalSize = .ok p ∧ p.1 ≤ p.2 ∧ p.1 < totalSize := by
  unfold parseRange rangeEnds
  cases Str.stripPrefix (Str.trim header) "bytes=" with
  | none => exact iff_of_false (fun h => nomatch h) fun ⟨_, _, h, _⟩ => nomatch h
  | some spec =>
    rw [Option.bind_some]
    dsimp only
    split
    · exact iff_of_false (fun h => nomatch h) fun ⟨_, _, h, _⟩ => nomatch h
    cases Str.splitOnce '-' spec with
    | none => exact iff_of_false (fun h => nomatch h) fun ⟨_, _, h, _⟩ => nomatch h
    | some q =>
      dsimp only
      rw [Option.map_some]
      constructor
      · intro h
        split at h
        next => cases h
        next hsize =>
          split at h
          next => cases h
          next start stop hresolve =>
            split at h
            next => cases h
            next hbounds =>
              cases h
              exact ⟨_, _, rfl, hsize, hresolve, by omega, by omega⟩
      · rintro ⟨a, b, hab, hsize, hresolve, hle, hlt⟩
        obtain ⟨rfl, rfl⟩ := Prod.mk.inj (Option.some.inj hab)
        obtain ⟨start, stop⟩ := p
        rw [if_neg hsize, hresolve]
        dsimp only at hle hlt ⊢
        rw [if_neg (by omega)]

/-- What a header is split into spells it. -/
theorem spells_of_ends {header a b : String} (h : rangeEnds header = some (a, b)) :
    Spells header a b := by
  unfold rangeEnds at h
  obtain ⟨spec, hspec, h⟩ := Option.bind_eq_some_iff.mp h
  split at h
  next => cases h
  next =>
    obtain ⟨⟨x, y⟩, hsplit, hxy⟩ := Option.map_eq_some_iff.mp h
    obtain ⟨rfl, rfl⟩ := Prod.mk.inj hxy
    have hprefix := Str.stripPrefix_eq_some.mp hspec
    have hdash : spec.toList = x.toList ++ ['-'] ++ y.toList := by
      unfold Str.splitOnce at hsplit
      obtain ⟨⟨l, r⟩, hfind, hlr⟩ := Option.map_eq_some_iff.mp hsplit
      cases hlr
      rw [String.toList_ofList, String.toList_ofList]
      exact (Str.findSub_eq_some.mp hfind).1
    obtain ⟨w₀, w₅, hheader, hw₀, hw₅, -⟩ := Str.exists_trimMatches Str.isWhitespace header
    obtain ⟨w₁, w₂, hx, hw₁, hw₂, -⟩ := Str.exists_trimMatches Str.isWhitespace x
    obtain ⟨w₃, w₄, hy, hw₃, hw₄, -⟩ := Str.exists_trimMatches Str.isWhitespace y
    refine ⟨w₀, w₁, w₂, w₃, w₄ ++ w₅, hw₀, hw₁, hw₂, hw₃, List.forall_mem_append.mpr ⟨hw₄, hw₅⟩, ?_⟩
    rw [hheader, ← Str.trim, hprefix, hdash, hx, hy]
    simp only [List.append_assoc]
    rfl

/-- The characters of a number: no white space, dash or comma. -/
def Numeric (s : String) : Prop := ∀ c ∈ s.toList, Str.IsDigit c ∨ c = '+'

theorem numeric_empty : Numeric "" := fun _ hc => absurd hc List.not_mem_nil

theorem Numeric.spec {s : String} (h : Numeric s) {c : Char} (hc : c ∈ s.toList) :
    Str.isWhitespace c = false ∧ c ≠ '-' ∧ c ≠ ',' := by
  rcases h c hc with hd | rfl
  · refine ⟨Str.not_isWhitespace_of_isDigit hd, ?_, ?_⟩
    · rintro rfl
      exact absurd hd (by decide)
    · rintro rfl
      exact absurd hd (by decide)
  · decide

theorem numeric_of_signed {s : String} {n : Nat} (h : Str.Signed s n) : Numeric s := by
  rcases h with h | ⟨t, rfl, h⟩
  · exact fun c hc => .inl (h.digits c hc)
  · intro c hc
    rw [String.toList_append] at hc
    rcases List.mem_append.mp hc with hc | hc
    · exact .inr (List.mem_singleton.mp hc)
    · exact .inl (h.digits c hc)

theorem White.notMem {w : List Char} (hw : White w) : '-' ∉ w ∧ ',' ∉ w :=
  ⟨fun h => absurd (hw _ h) (by decide), fun h => absurd (hw _ h) (by decide)⟩

theorem trim_numeric {s : String} {v v' : List Char} (hs : Numeric s) (hv : White v)
    (hv' : White v') : Str.trim (String.ofList (v ++ s.toList ++ v')) = s := by
  have hbare : Str.Bare Str.isWhitespace s.toList :=
    Str.bare_of_forall fun c hc => (hs.spec hc).1
  rw [Str.trim, Str.trimMatches_append String.toList_ofList hv hbare hv', String.ofList_toList]

/-- White space after an empty end goes with the white space around the header. -/
theorem exists_last_end {b : String} (hb : Numeric b) {w₃ w₄ : List Char} (hw₃ : White w₃)
    (hw₄ : White w₄) : ∃ w w₅, White w ∧ White w₅ ∧
      w₃ ++ b.toList ++ w₄ = w ++ b.toList ++ w₅ ∧
      ∀ c ∈ (['-'] ++ (w ++ b.toList)).getLast?, Str.isWhitespace c = false := by
  by_cases hempty : b.toList = []
  · refine ⟨[], w₃ ++ w₄, List.forall_mem_nil _, List.forall_mem_append.mpr ⟨hw₃, hw₄⟩, ?_, ?_⟩
    · rw [hempty, List.append_nil, List.nil_append, List.nil_append]
    · intro c hc
      rw [hempty] at hc
      obtain rfl : '-' = c := Option.some.inj hc
      decide
  · refine ⟨w₃, w₄, hw₃, hw₄, rfl, ?_⟩
    intro c hc
    rw [List.getLast?_append_of_ne_nil _ (List.append_ne_nil_of_right_ne_nil _ hempty),
      List.getLast?_append_of_ne_nil _ hempty] at hc
    exact (hb.spec (List.mem_of_mem_getLast? hc)).1

/-- What is left of a header when the white space around it is gone. -/
theorem exists_trim_header {header a b : String} (h : Spells header a b) (hb : Numeric b) :
    ∃ w₁ w₂ w, White w₁ ∧ White w₂ ∧ White w ∧ Str.trim header = String.ofList
      ("bytes=".toList ++ ((w₁ ++ a.toList ++ w₂) ++ ['-'] ++ (w ++ b.toList))) := by
  obtain ⟨w₀, w₁, w₂, w₃, w₄, hw₀, hw₁, hw₂, hw₃, hw₄, hheader⟩ := h.spelled
  obtain ⟨w, w₅, hw, hw₅, hend, hlast⟩ := exists_last_end hb hw₃ hw₄
  refine ⟨w₁, w₂, w, hw₁, hw₂, hw, Str.trimMatches_append (a := w₀) (b := w₅) ?_ hw₀ ⟨?_, ?_⟩ hw₅⟩
  · rw [hheader, List.append_assoc _ ['-'], List.append_assoc w₀, List.append_assoc w₀, hend]
    simp only [List.append_assoc]
  · intro c hc
    obtain rfl : 'b' = c := Option.some.inj hc
    decide
  · have hshape : "bytes=".toList ++ ((w₁ ++ a.toList ++ w₂) ++ ['-'] ++ (w ++ b.toList))
        = "bytes=".toList ++ (w₁ ++ a.toList ++ w₂) ++ (['-'] ++ (w ++ b.toList)) := by
      simp only [List.append_assoc]
    rw [hshape, List.getLast?_append_of_ne_nil _
      (List.append_ne_nil_of_left_ne_nil (List.cons_ne_nil '-' []) _)]
    exact hlast

/-- A header is split into the ends that it spells, if they are numbers or empty. -/
theorem ends_of_spells {header a b : String} (h : Spells header a b) (ha : Numeric a)
    (hb : Numeric b) : rangeEnds header = some (a, b) := by
  obtain ⟨w₁, w₂, w, hw₁, hw₂, hw, htrim⟩ := exists_trim_header h hb
  have hdash : '-' ∉ w₁ ++ a.toList ++ w₂ := by
    simp only [List.mem_append, not_or]
    exact ⟨⟨hw₁.notMem.1, fun h => (ha.spec h).2.1 rfl⟩, hw₂.notMem.1⟩
  have hcomma : ',' ∉ (w₁ ++ a.toList ++ w₂) ++ ['-'] ++ (w ++ b.toList) := by
    simp only [List.mem_append, not_or]
    exact ⟨⟨⟨⟨hw₁.notMem.2, fun h => (ha.spec h).2.2 rfl⟩, hw₂.notMem.2⟩, by decide⟩,
      hw.notMem.2, fun h => (hb.spec h).2.2 rfl⟩
  have hspec : ∀ cs, (String.ofList ("bytes=".toList ++ cs)).toList
      = "bytes=".toList ++ (String.ofList cs).toList := by
    intro cs
    have hcs : (String.ofList cs).toList = cs := String.toList_ofList
    rw [hcs]
    exact String.toList_ofList
  unfold rangeEnds
  rw [htrim, Str.stripPrefix_eq_some.mpr (hspec _), Option.bind_some, if_neg, Str.splitOnce,
    String.toList_ofList, List.append_assoc _ ['-'], List.singleton_append,
    Str.findSub_of_notMem hdash]
  · have htrimmed := trim_numeric hb hw (List.forall_mem_nil _)
    rw [List.append_nil] at htrimmed
    show some (Str.trim (String.ofList (w₁ ++ a.toList ++ w₂)),
      Str.trim (String.ofList (w ++ b.toList))) = some (a, b)
    rw [trim_numeric ha hw₁ hw₂, htrimmed]
  · unfold Str.containsChar
    rw [String.toList_ofList, List.contains_iff_mem]
    exact hcomma

/-! ## The window -/

section
variable {a b : String} {totalSize : Nat} {p : Nat × Nat} {req req' : RangeRequest}

theorem parseU64_cases (s : String) :
    (∃ n, Str.parseU64 s = some n ∧ Str.Signed s n ∧ n < 2 ^ 64) ∨
      Str.parseU64 s = none ∧ ∀ n, Str.Signed s n → 2 ^ 64 ≤ n := by
  cases h : Str.parseU64 s with
  | some n => exact .inl ⟨n, rfl, Str.parseUnsigned_eq_some.mp h⟩
  | none =>
    refine .inr ⟨rfl, fun n hn => ?_⟩
    by_contra hlt
    have hsome := Str.parseUnsigned_eq_some.mpr ⟨hn, Nat.not_le.mp hlt⟩
    exact nomatch h.symm.trans hsome

/-- Ends that are resolved to a satisfiable window are those of a request for it. -/
theorem exists_request (h : resolveRange a b totalSize = .ok p)
    (hle : p.1 ≤ p.2) (hlt : p.1 < totalSize) :
    ∃ req : RangeRequest, req.Ends Str.Signed a b ∧ req.Fits ∧ req.resolve totalSize = some p := by
  unfold resolveRange at h
  split at h
  next ha =>
    rcases parseU64_cases b with ⟨n, hn, hsigned, hfits⟩ | ⟨hnone, -⟩
    · rw [hn] at h
      dsimp only at h
      split at h
      next => cases h
      next hpos =>
        cases h
        exact ⟨.suffix n, ⟨ha, hsigned⟩, hfits, if_pos (by omega)⟩
    · rw [hnone] at h
      cases h
  next ha =>
    rcases parseU64_cases a with ⟨m, hm, hsigned, hfits⟩ | ⟨hnone, -⟩
    · rw [hm] at h
      dsimp only at h
      split at h
      next hb =>
        cases h
        exact ⟨.from m, ⟨hsigned, hb⟩, hfits, if_pos hlt⟩
      next hb =>
        rcases parseU64_cases b with ⟨n, hn, hsigned', hfits'⟩ | ⟨hnone, -⟩
        · rw [hn] at h
          cases h
          exact ⟨.window m n, ⟨hsigned, hsigned'⟩, ⟨hfits, hfits'⟩,
            if_pos ⟨hlt, hle.trans (Nat.min_le_left _ _)⟩⟩
        · rw [hnone] at h
          cases h
    · rw [hnone] at h
      split at h
      next => cases h
      next => cases h

/-- The ends of a request that is satisfiable and whose numbers fit are resolved to its window. -/
theorem resolveRange_of_request (hends : req.Ends Str.Signed a b) (hfits : req.Fits)
    (hresolve : req.resolve totalSize = some p) :
    totalSize ≠ 0 ∧ resolveRange a b totalSize = .ok p ∧ p.1 ≤ p.2 ∧ p.1 < totalSize := by
  unfold resolveRange
  cases req with
  | suffix n =>
    obtain ⟨rfl, hb⟩ := hends
    obtain ⟨hpos, hp⟩ := Option.ite_none_right_eq_some.mp hresolve
    obtain rfl := Option.some.inj hp
    rw [if_pos rfl, Str.parseU64, Str.parseUnsigned_eq_some.mpr ⟨hb, hfits⟩]
    dsimp only
    rw [if_neg (by omega)]
    exact ⟨by omega, rfl, by omega, by omega⟩
  | «from» m =>
    obtain ⟨ha, rfl⟩ := hends
    obtain ⟨hlt, hp⟩ := Option.ite_none_right_eq_some.mp hresolve
    obtain rfl := Option.some.inj hp
    rw [if_neg ha.ne_empty, if_pos rfl, Str.parseU64, Str.parseUnsigned_eq_some.mpr ⟨ha, hfits⟩]
    exact ⟨by omega, rfl, by omega, hlt⟩
  | window m n =>
    obtain ⟨ha, hb⟩ := hends
    obtain ⟨hlt, hp⟩ := Option.ite_none_right_eq_some.mp hresolve
    obtain rfl := Option.some.inj hp
    rw [if_neg ha.ne_empty, if_neg hb.ne_empty, Str.parseU64,
      Str.parseUnsigned_eq_some.mpr ⟨ha, hfits.1⟩, Str.parseUnsigned_eq_some.mpr ⟨hb, hfits.2⟩]
    exact ⟨by omega, rfl, by omega, hlt.1⟩

/-- The ends are resolved to a satisfiable window if they are those of a request that is
satisfiable and whose numbers fit. -/
theorem resolveRange_eq_ok : totalSize ≠ 0 ∧ resolveRange a b totalSize = .ok p ∧ p.1 ≤ p.2 ∧
    p.1 < totalSize ↔ ∃ req : RangeRequest, req.Ends Str.Signed a b ∧ req.Fits ∧
      req.resolve totalSize = some p := by
  constructor
  · rintro ⟨-, h, hle, hlt⟩
    exact exists_request h hle hlt
  · rintro ⟨req, hends, hfits, hresolve⟩
    exact resolveRange_of_request hends hfits hresolve

theorem RangeRequest.Ends.numeric (h : req.Ends Str.Signed a b) : Numeric a ∧ Numeric b := by
  cases req with
  | window m n => exact ⟨numeric_of_signed h.1, numeric_of_signed h.2⟩
  | «from» m =>
    obtain ⟨ha, rfl⟩ := h
    exact ⟨numeric_of_signed ha, numeric_empty⟩
  | suffix n =>
    obtain ⟨rfl, hb⟩ := h
    exact ⟨numeric_empty, numeric_of_signed hb⟩

theorem RangeRequest.Ends.unique (h : req.Ends Str.Signed a b) (h' : req'.Ends Str.Signed a b) :
    req = req' := by
  cases req with
  | window m n =>
    cases req' with
    | window m' n' => rw [h.1.unique h'.1, h.2.unique h'.2]
    | «from» m' => exact absurd h'.2 h.2.ne_empty
    | suffix n' => exact absurd h'.1 h.1.ne_empty
  | «from» m =>
    cases req' with
    | window m' n' => exact absurd h.2 h'.2.ne_empty
    | «from» m' => rw [h.1.unique h'.1]
    | suffix n' => exact absurd h'.1 h.1.ne_empty
  | suffix n =>
    cases req' with
    | window m' n' => exact absurd h.1 h'.1.ne_empty
    | «from» m' => exact absurd h.1 h'.1.ne_empty
    | suffix n' => rw [h.2.unique h'.2]

theorem RangeRequest.Ends.signed (h : req.Ends Str.Decimal a b) : req.Ends Str.Signed a b := by
  cases req with
  | window m n => exact ⟨.inl h.1, .inl h.2⟩
  | «from» m => exact ⟨.inl h.1, h.2⟩
  | suffix n => exact ⟨h.1, .inl h.2⟩

end

section
variable {header : String} {totalSize : Nat} {p : Nat × Nat} {req req' : RangeRequest}

/-- A header asks for one range, if for any. -/
theorem Asks.unique (h : Asks Str.Signed header req) (h' : Asks Str.Signed header req') :
    req = req' := by
  obtain ⟨a, b, hspells, hends⟩ := h
  obtain ⟨a', b', hspells', hends'⟩ := h'
  have heq := (ends_of_spells hspells hends.numeric.1 hends.numeric.2).symm.trans
    (ends_of_spells hspells' hends'.numeric.1 hends'.numeric.2)
  obtain ⟨rfl, rfl⟩ := Prod.mk.inj (Option.some.inj heq)
  exact hends.unique hends'

theorem Asks.signed (h : Asks Str.Decimal header req) : Asks Str.Signed header req := by
  obtain ⟨a, b, hspells, hends⟩ := h
  exact ⟨a, b, hspells, hends.signed⟩

/-- What `parse_range` accepts: it lets plus signs through, and no number that does not fit. -/
theorem parseRange_iff_signed : parseRange header totalSize = .ok p ↔
    ∃ req : RangeRequest, Asks Str.Signed header req ∧ req.Fits ∧
      req.resolve totalSize = some p := by
  rw [parseRange_eq_ok]
  constructor
  · rintro ⟨a, b, hab, hresolve⟩
    obtain ⟨req, hends, hfits, hp⟩ := resolveRange_eq_ok.mp hresolve
    exact ⟨req, ⟨a, b, spells_of_ends hab, hends⟩, hfits, hp⟩
  · rintro ⟨req, ⟨a, b, hspells, hends⟩, hfits, hp⟩
    exact ⟨a, b, ends_of_spells hspells hends.numeric.1 hends.numeric.2,
      resolveRange_eq_ok.mpr ⟨req, hends, hfits, hp⟩⟩

end

/-! ## Underflow -/

/-- `resolveRange` with every subtraction checked. -/
def resolveRangeChecked (a b : String) (totalSize : Nat) : Option (Except String (Nat × Nat)) :=
  if a = "" then
    match Str.parseU64 b with
    | none => some (.error "bad suffix length")
    | some n =>
      if n = 0 then some (.error "range not satisfiable: zero-length suffix")
      else do
        let start ← Checked.sub totalSize (min n totalSize)
        let stop ← Checked.sub totalSize 1
        return .ok (start, stop)
  else if b = "" then
    match Str.parseU64 a with
    | none => some (.error "bad range start")
    | some start => do
      let stop ← Checked.sub totalSize 1
      return .ok (start, stop)
  else
    match Str.parseU64 a with
    | none => some (.error "bad range start")
    | some start =>
      match Str.parseU64 b with
      | none => some (.error "bad range end")
      | some stop => do
        let last ← Checked.sub totalSize 1
        return .ok (start, min stop last)

/-- `parseRange` with every subtraction checked. -/
def parseRangeChecked (header : String) (totalSize : Nat) :
    Option (Except String (Nat × Nat)) :=
  match Str.stripPrefix (Str.trim header) "bytes=" with
  | none => some (.error "range must start with 'bytes='")
  | some spec =>
    if Str.containsChar spec ',' then some (.error "multiple ranges are not supported")
    else
      match Str.splitOnce '-' spec with
      | none => some (.error s!"malformed range: {header}")
      | some (a, b) =>
        if totalSize = 0 then some (.error "range not satisfiable: empty object")
        else do
          match ← resolveRangeChecked (Str.trim a) (Str.trim b) totalSize with
          | .error e => return .error e
          | .ok (start, stop) =>
            if stop < start ∨ totalSize ≤ start then
              return .error s!"range not satisfiable: start={start} end={stop} size={totalSize}"
            else return .ok (start, stop)

theorem resolveRangeChecked_eq (a b : String) {totalSize : Nat} (h : totalSize ≠ 0) :
    resolveRangeChecked a b totalSize = some (resolveRange a b totalSize) := by
  have hone : Checked.sub totalSize 1 = some (totalSize - 1) := Checked.sub_eq (by omega)
  have hmin : ∀ n, Checked.sub totalSize (min n totalSize)
      = some (totalSize - min n totalSize) := fun n => Checked.sub_eq (Nat.min_le_right _ _)
  unfold resolveRangeChecked resolveRange
  split
  · cases Str.parseU64 b with
    | none => rfl
    | some n =>
      dsimp only
      split
      · rfl
      · rw [hmin, hone]
        rfl
  · split
    · cases Str.parseU64 a with
      | none => rfl
      | some start =>
        dsimp only
        rw [hone]
        rfl
    · cases Str.parseU64 a with
      | none => rfl
      | some start =>
        cases Str.parseU64 b with
        | none => rfl
        | some stop =>
          dsimp only
          rw [hone]
          rfl

/-- No subtraction of `parse_range` underflows. -/
theorem parseRangeChecked_eq (header : String) (totalSize : Nat) :
    parseRangeChecked header totalSize = some (parseRange header totalSize) := by
  unfold parseRangeChecked parseRange
  cases Str.stripPrefix (Str.trim header) "bytes=" with
  | none => rfl
  | some spec =>
    dsimp only
    split
    · rfl
    cases Str.splitOnce '-' spec with
    | none => rfl
    | some q =>
      dsimp only
      split
      · rfl
      next hsize =>
        rw [resolveRangeChecked_eq _ _ hsize]
        cases resolveRange (Str.trim q.1) (Str.trim q.2) totalSize with
        | error e => rfl
        | ok window =>
          show (if _ then _ else _) = some (if _ then _ else _)
          split
          · rfl
          · rfl

/-! ## What is accepted -/

/-- The header is resolved as HTTP resolves it, without underflow. -/
structure ResolvedAsHttp (header : String) (totalSize : Nat) : Prop where
  exact : ∀ p, parseRange header totalSize = .ok p ↔
    ∃ req : RangeRequest, Asks Str.Decimal header req ∧ req.resolve totalSize = some p
  total : parseRangeChecked header totalSize = some (parseRange header totalSize)

/-- A header is resolved as HTTP resolves it if and only if, where it asks for a satisfiable
range apart from plus signs before its numbers, it has such a sign exactly when one of the
numbers does not fit into 64 bits. -/
theorem parse_range_iff (header : String) (totalSize : Nat) :
    ResolvedAsHttp header totalSize ↔
      ∀ req : RangeRequest, Asks Str.Signed header req → (req.resolve totalSize).isSome →
        (Asks Str.Decimal header req ↔ req.Fits) := by
  constructor
  · intro h req hasks hsome
    obtain ⟨p, hp⟩ := Option.isSome_iff_exists.mp hsome
    constructor
    · intro hdecimal
      obtain ⟨req', hasks', hfits, -⟩ := parseRange_iff_signed.mp
        ((h.exact p).mpr ⟨req, hdecimal, hp⟩)
      rwa [hasks.unique hasks']
    · intro hfits
      obtain ⟨req', hdecimal, -⟩ := (h.exact p).mp
        (parseRange_iff_signed.mpr ⟨req, hasks, hfits, hp⟩)
      rwa [hasks.unique hdecimal.signed]
  · refine fun h => ⟨fun p => ?_, parseRangeChecked_eq header totalSize⟩
    rw [parseRange_iff_signed]
    constructor
    · rintro ⟨req, hasks, hfits, hp⟩
      exact ⟨req, (h req hasks (by rw [hp]; rfl)).mpr hfits, hp⟩
    · rintro ⟨req, hdecimal, hp⟩
      exact ⟨req, hdecimal.signed, (h req hdecimal.signed (by rw [hp]; rfl)).mp hdecimal, hp⟩

/-! Plus signs are let through. -/
example : parseRange "bytes=+1-2" 10 = .ok (1, 2) := by decide +kernel

/-- An end that lies far beyond the object is not clamped, as nearer ones are, but refused. -/
theorem large_end_refused : ¬∀ header totalSize, ResolvedAsHttp header totalSize := by
  intro h
  have hdigits : "18446744073709551616".toList.all (fun c => decide (Str.IsDigit c)) = true := by
    decide +kernel
  have hlarge : Str.Decimal "18446744073709551616" (2 ^ 64) :=
    ⟨by decide, fun c hc => of_decide_eq_true (List.all_eq_true.mp hdigits c hc),
      by decide +kernel⟩
  have hzero : Str.Decimal "0" 0 :=
    ⟨by decide, fun c hc => by rw [List.mem_singleton.mp hc]; decide, rfl⟩
  have hasks : Asks Str.Decimal "bytes=0-18446744073709551616" (.window 0 (2 ^ 64)) :=
    ⟨_, _, ⟨[], [], [], [], [], List.forall_mem_nil _, List.forall_mem_nil _,
      List.forall_mem_nil _, List.forall_mem_nil _, List.forall_mem_nil _, rfl⟩, hzero, hlarge⟩
  have hok := ((h "bytes=0-18446744073709551616" 10).exact (0, 9)).mpr ⟨_, hasks, rfl⟩
  have herror : parseRange "bytes=0-18446744073709551616" 10 = .error "bad range end" := by
    decide +kernel
  exact nomatch herror.symm.trans hok

end CeStorage
