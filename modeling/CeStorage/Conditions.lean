import CeStorage.Gateway.ReadVerbs

/-!
# The precedence of conditional headers (`store.rs`)

`ReadHeaders` are the four headers of a conditional read, with the values that
HTTP gives them, and `ReadHeaders.outcome` is what HTTP makes of them: `If-Match`
goes before `If-Unmodified-Since`, and `If-None-Match` before `If-Modified-Since`.
`check_read` has every header that is present count. `check_read_iff` says when
the two come to the same.
-/

namespace CeStorage

open Lib

/-- The text of an entity tag, which has no quote in it. -/
def TagText : Type := { s : String // '"' ∉ s.toList }

/-- The value of `If-Match` or `If-None-Match`: `*`, or one entity tag. -/
inductive TagValue where
  | any
  | tag (weak : Bool) (text : TagText)

namespace TagValue

/-- The value as it stands in the header. -/
def header : TagValue → String
  | any => "*"
  | tag true text => "W/\"" ++ text.1 ++ "\""
  | tag false text => "\"" ++ text.1 ++ "\""

/-- Strong comparison, which `If-Match` uses: a weak tag matches nothing. -/
def StrongMatch (etag : TagText) : TagValue → Prop
  | any => True
  | tag weak text => weak = false ∧ text.1 = etag.1

/-- Weak comparison, which `If-None-Match` uses. -/
def WeakMatch (etag : TagText) : TagValue → Prop
  | any => True
  | tag _ text => text.1 = etag.1

/-- The weak tag of the empty text, of which trimming leaves `W/`, for an object
whose etag that is. -/
def Remnant (etag : TagText) : TagValue → Prop
  | any => False
  | tag weak text => weak = true ∧ text.1 = "" ∧ etag.1 = "W/"

instance (etag : TagText) (v : TagValue) : Decidable (v.StrongMatch etag) :=
  match v with
  | any => isTrue trivial
  | tag weak text => inferInstanceAs (Decidable (weak = false ∧ text.1 = etag.1))

instance (etag : TagText) (v : TagValue) : Decidable (v.WeakMatch etag) :=
  match v with
  | any => isTrue trivial
  | tag _ text => inferInstanceAs (Decidable (text.1 = etag.1))

instance (etag : TagText) (v : TagValue) : Decidable (v.Remnant etag) :=
  match v with
  | any => isFalse id
  | tag weak text => inferInstanceAs (Decidable (weak = true ∧ text.1 = "" ∧ etag.1 = "W/"))

theorem weakMatch_of_strongMatch {etag : TagText} {v : TagValue} (h : v.StrongMatch etag) :
    v.WeakMatch etag := by
  cases v with
  | any => trivial
  | tag weak text => exact h.2

end TagValue

/-- The conditional headers of a read; the times are unix seconds. -/
structure ReadHeaders where
  ifMatch : Option TagValue
  ifNoneMatch : Option TagValue
  ifModifiedSince : Option Nat
  ifUnmodifiedSince : Option Nat

namespace ReadHeaders

/-- The headers as the code receives them. -/
def preconditions (h : ReadHeaders) : Preconditions where
  ifMatch := h.ifMatch.map TagValue.header
  ifNoneMatch := h.ifNoneMatch.map TagValue.header
  ifModifiedSince := h.ifModifiedSince
  ifUnmodifiedSince := h.ifUnmodifiedSince

/-- `If-Unmodified-Since` fails. -/
def ModifiedAfter (h : ReadHeaders) (lastModified : Nat) : Prop :=
  h.ifUnmodifiedSince.any fun s => s < lastModified

/-- `If-Modified-Since` fails. -/
def UnchangedSince (h : ReadHeaders) (lastModified : Nat) : Prop :=
  h.ifModifiedSince.any fun s => lastModified ≤ s

/-- What is a 412: `If-Match` fails, or in its absence `If-Unmodified-Since`. -/
def Refused (h : ReadHeaders) (etag : TagText) (lastModified : Nat) : Prop :=
  match h.ifMatch with
  | some v => ¬v.StrongMatch etag
  | none => h.ModifiedAfter lastModified

/-- What is a 304: `If-None-Match` fails, or in its absence `If-Modified-Since`. -/
def Unchanged (h : ReadHeaders) (etag : TagText) (lastModified : Nat) : Prop :=
  match h.ifNoneMatch with
  | some v => v.WeakMatch etag
  | none => h.UnchangedSince lastModified

instance (h : ReadHeaders) (t : Nat) : Decidable (h.ModifiedAfter t) :=
  inferInstanceAs (Decidable (_ = true))

instance (h : ReadHeaders) (t : Nat) : Decidable (h.UnchangedSince t) :=
  inferInstanceAs (Decidable (_ = true))

instance (h : ReadHeaders) (etag : TagText) (t : Nat) : Decidable (h.Refused etag t) := by
  unfold Refused
  split <;> infer_instance

instance (h : ReadHeaders) (etag : TagText) (t : Nat) : Decidable (h.Unchanged etag t) := by
  unfold Unchanged
  split <;> infer_instance

/-- RFC 7232, section 6, for a GET or HEAD of an object that exists. -/
def outcome (h : ReadHeaders) (etag : TagText) (lastModified : Nat) : Outcome :=
  if h.Refused etag lastModified then .preconditionFailed
  else if h.Unchanged etag lastModified then .notModified
  else .proceed

end ReadHeaders

/-- The outcome of a check. -/
def checkOutcome : Except StorageError Unit → Outcome
  | .ok () => .proceed
  | .error e => (storageErr e).outcome

/-! ## What the code compares -/

theorem dropWhile_quote {cs : List Char} (h : '"' ∉ cs) : cs.dropWhile (· == '"') = cs := by
  cases cs with
  | nil => rfl
  | cons c cs =>
    rw [List.mem_cons, not_or] at h
    exact List.dropWhile_cons_of_neg (by simpa using Ne.symm h.1)

/-- Trimming a text that ends in one quote. -/
theorem trimEnd_quote {cs : List Char} (h : '"' ∉ cs) :
    ((cs ++ ['"']).reverse.dropWhile (· == '"')).reverse = cs := by
  rw [List.reverse_append, List.reverse_singleton, List.singleton_append,
    List.dropWhile_cons_of_pos (by rfl), dropWhile_quote (by rwa [List.mem_reverse]),
    List.reverse_reverse]

theorem toList_unquote (m : String) : (unquote m).toList
    = ((m.toList.dropWhile (· == '"')).reverse.dropWhile (· == '"')).reverse := by
  unfold unquote Str.trimMatches Str.trimEndMatches Str.trimStartMatches
  rw [String.toList_ofList, String.toList_ofList]

/-- The quotes of a strong tag are trimmed. -/
theorem unquote_strong (text : TagText) : unquote ("\"" ++ text.1 ++ "\"") = text.1 := by
  rw [← String.toList_inj, toList_unquote, String.toList_append, String.toList_append]
  show (((text.1.toList ++ ['"']).dropWhile _).reverse.dropWhile _).reverse = _
  cases htext : text.1.toList with
  | nil => rfl
  | cons c cs =>
    have hno := text.2
    rw [htext] at hno
    rw [List.cons_append, List.dropWhile_cons_of_neg, ← List.cons_append, trimEnd_quote hno]
    rw [List.mem_cons, not_or] at hno
    simpa using Ne.symm hno.1

/-- What trimming leaves of a weak tag is no etag, except of the empty text. -/
theorem unquote_weak {text etag : TagText} :
    unquote ("W/\"" ++ text.1 ++ "\"") = etag.1 ↔ text.1 = "" ∧ etag.1 = "W/" := by
  have htrim : (unquote ("W/\"" ++ text.1 ++ "\"")).toList
      = ((['W', '/', '"'] ++ text.1.toList).reverse.dropWhile (· == '"')).reverse := by
    rw [toList_unquote, String.toList_append, String.toList_append]
    show (((['W', '/', '"'] ++ text.1.toList ++ ['"']).reverse).dropWhile _).reverse = _
    rw [List.reverse_append, List.reverse_singleton, List.singleton_append,
      List.dropWhile_cons_of_pos (by rfl)]
  rw [← String.toList_inj, htrim]
  rcases List.eq_nil_or_concat text.1.toList with hnil | ⟨cs, c, hlast⟩
  · have hempty : text.1 = "" := String.toList_inj.mp hnil
    rw [hnil, and_iff_right hempty]
    exact ⟨fun h => String.toList_inj.mp h.symm, fun h => by rw [h]; rfl⟩
  · -- a quote stays in the middle
    have hno := text.2
    rw [hlast, List.concat_eq_append, List.mem_append, not_or, List.mem_singleton] at hno
    refine iff_of_false (fun h => etag.2 ?_) fun h => ?_
    · rw [← h, hlast, List.concat_eq_append, ← List.append_assoc, List.reverse_append,
        List.reverse_singleton, List.singleton_append,
        List.dropWhile_cons_of_neg (by simpa using Ne.symm hno.2)]
      simp
    · rw [← String.toList_inj, hlast] at h
      simp at h

namespace TagValue

/-- What the code takes for a match. -/
theorem trimmed_iff {etag : TagText} {v : TagValue} :
    v.header = "*" ∨ unquote v.header = etag.1 ↔ v.StrongMatch etag ∨ v.Remnant etag := by
  cases v with
  | any => exact iff_of_true (.inl rfl) (.inl trivial)
  | tag weak text =>
    have hstar : (tag weak text).header ≠ "*" := by
      intro h
      have hlist := congrArg String.toList h
      cases weak <;> simp [header, String.toList_append] at hlist
    rw [or_iff_right hstar]
    unfold StrongMatch Remnant
    cases weak with
    | false =>
      unfold header
      rw [unquote_strong]
      simp
    | true =>
      unfold header
      rw [unquote_weak]
      simp

end TagValue

/-! ## Agreement -/

theorem TagValue.not_weakMatch_of_remnant {etag : TagText} {v : TagValue} (h : v.Remnant etag) :
    ¬v.WeakMatch etag := by
  cases v with
  | any => exact h.elim
  | tag weak text =>
    intro hw
    have heq : text.1 = etag.1 := hw
    rw [h.2.1, h.2.2] at heq
    exact absurd heq (by decide)

/-- Two decisions between the three outcomes, each by two conditions. -/
theorem outcome_eq_iff {P Q P' Q' : Prop} [Decidable P] [Decidable Q] [Decidable P']
    [Decidable Q'] :
    (if P then Outcome.preconditionFailed else if Q then .notModified else .proceed)
        = (if P' then .preconditionFailed else if Q' then .notModified else .proceed) ↔
      (P ↔ P') ∧ (¬P' → (Q ↔ Q')) := by
  split_ifs <;> simp_all

namespace ReadHeaders

/-- Nothing that comes second in the precedence decides, and no weak tag does. -/
structure InOrder (h : ReadHeaders) (etag : TagText) (lastModified : Nat) : Prop where
  /-- Where `If-Match` holds, `If-Unmodified-Since` does not fail. -/
  unmodified : ∀ v, h.ifMatch = some v → v.StrongMatch etag → ¬h.ModifiedAfter lastModified
  remnant : ∀ v, h.ifMatch = some v → v.Remnant etag → h.ModifiedAfter lastModified
  /-- Where `If-None-Match` holds, `If-Modified-Since` does not fail. -/
  modified : ¬h.Refused etag lastModified → ∀ v, h.ifNoneMatch = some v → ¬v.WeakMatch etag →
    ¬v.Remnant etag ∧ ¬h.UnchangedSince lastModified
  /-- Where `If-None-Match` fails by a weak tag, `If-Modified-Since` fails too. -/
  weak : ¬h.Refused etag lastModified → ∀ v, h.ifNoneMatch = some v → v.WeakMatch etag →
    v.StrongMatch etag ∨ h.UnchangedSince lastModified

/-- The outcome of the code: every header that is present counts. -/
theorem checkRead_outcome (h : ReadHeaders) (etag : TagText) (t : Nat) :
    checkOutcome (h.preconditions.checkRead etag.1 t)
      = if h.ifMatch.any (fun v => ¬(v.StrongMatch etag ∨ v.Remnant etag)) ∨ h.ModifiedAfter t
          then .preconditionFailed
        else if h.ifNoneMatch.any (fun v => v.StrongMatch etag ∨ v.Remnant etag) ∨
          h.UnchangedSince t then .notModified
        else .proceed := by
  have hmatch : h.preconditions.ifMatch.any (fun m => m != "*" && unquote m != etag.1)
      = h.ifMatch.any fun v => ¬(v.StrongMatch etag ∨ v.Remnant etag) := by
    unfold preconditions
    rw [Option.any_map]
    refine congrArg (h.ifMatch.any ·) (funext fun v => ?_)
    rw [Bool.eq_iff_iff, decide_eq_true_iff, ← TagValue.trimmed_iff]
    simp
  have hnone : h.preconditions.ifNoneMatch.any (fun m => m == "*" || unquote m == etag.1)
      = h.ifNoneMatch.any fun v => v.StrongMatch etag ∨ v.Remnant etag := by
    unfold preconditions
    rw [Option.any_map]
    refine congrArg (h.ifNoneMatch.any ·) (funext fun v => ?_)
    rw [Bool.eq_iff_iff, decide_eq_true_iff, ← TagValue.trimmed_iff]
    simp
  unfold Preconditions.checkRead
  rw [hmatch, hnone]
  unfold ModifiedAfter UnchangedSince
  split_ifs <;> simp_all [preconditions, checkOutcome] <;> rfl

section
variable {h : ReadHeaders} {etag : TagText} {t : Nat}

theorem refused_iff :
    (h.ifMatch.any (fun v => ¬(v.StrongMatch etag ∨ v.Remnant etag)) ∨ h.ModifiedAfter t ↔
      h.Refused etag t) ↔
    ∀ v, h.ifMatch = some v →
      (v.StrongMatch etag → ¬h.ModifiedAfter t) ∧ (v.Remnant etag → h.ModifiedAfter t) := by
  unfold Refused
  cases h.ifMatch with
  | none => simp
  | some v =>
    have hdisjoint : v.Remnant etag → ¬v.StrongMatch etag := fun hr hs =>
      TagValue.not_weakMatch_of_remnant hr (TagValue.weakMatch_of_strongMatch hs)
    simp only [Option.any_some, decide_eq_true_iff, Option.some.injEq, forall_eq']
    tauto

theorem unchanged_iff :
    (h.ifNoneMatch.any (fun v => v.StrongMatch etag ∨ v.Remnant etag) ∨ h.UnchangedSince t ↔
      h.Unchanged etag t) ↔
    ∀ v, h.ifNoneMatch = some v →
      (¬v.WeakMatch etag → ¬v.Remnant etag ∧ ¬h.UnchangedSince t) ∧
      (v.WeakMatch etag → v.StrongMatch etag ∨ h.UnchangedSince t) := by
  unfold Unchanged
  cases h.ifNoneMatch with
  | none => simp
  | some v =>
    have hweak : v.StrongMatch etag → v.WeakMatch etag := TagValue.weakMatch_of_strongMatch
    have hremnant : v.Remnant etag → ¬v.WeakMatch etag := TagValue.not_weakMatch_of_remnant
    simp only [Option.any_some, decide_eq_true_iff, Option.some.injEq, forall_eq']
    tauto

end

/-- The code and HTTP agree if and only if nothing that comes second decides. -/
theorem check_read_iff (h : ReadHeaders) (etag : TagText) (lastModified : Nat) :
    checkOutcome (h.preconditions.checkRead etag.1 lastModified) = h.outcome etag lastModified ↔
      h.InOrder etag lastModified := by
  rw [checkRead_outcome]
  unfold outcome
  rw [outcome_eq_iff, refused_iff, unchanged_iff]
  constructor
  · rintro ⟨hfirst, hsecond⟩
    exact ⟨fun v hv => (hfirst v hv).1, fun v hv => (hfirst v hv).2,
      fun hr v hv => (hsecond hr v hv).1, fun hr v hv => (hsecond hr v hv).2⟩
  · intro hin
    exact ⟨fun v hv => ⟨hin.unmodified v hv, hin.remnant v hv⟩,
      fun hr v hv => ⟨hin.modified hr v hv, hin.weak hr v hv⟩⟩

/-! ### One object -/

private def currentTag : TagText := ⟨"two", by decide⟩

private def staleTag : TagText := ⟨"one", by decide⟩

/-- An object rewritten within the second of a client's copy: the tag differs, the
time does not, and the client is told that nothing changed. -/
theorem rewritten_not_modified : ¬∀ (h : ReadHeaders) (etag : TagText) (lastModified : Nat),
    checkOutcome (h.preconditions.checkRead etag.1 lastModified)
      = h.outcome etag lastModified := by
  intro h
  let headers : ReadHeaders := ⟨none, some (.tag false staleTag), some 7, none⟩
  have hcode : checkOutcome (headers.preconditions.checkRead currentTag.1 7) = .notModified := rfl
  have hhttp : headers.outcome currentTag 7 = .proceed := by decide
  have hagree := h headers currentTag 7
  rw [hcode, hhttp] at hagree
  exact nomatch hagree

end ReadHeaders

end CeStorage
