import CeStorage.Lib.Maps
import CeStorage.Lib.Scan

/-!
# JSON trees, and decoders for them

What a JSON text denotes, with decoders in the manner of serde's: a structure is
read field by field, whatever the order of the fields and whatever other fields
there are, and a field that is given twice is refused. An array of the fields is
read as well, in the order of their declaration.

A *shape* says which trees are a value. `Reads` says that a decoder takes every
tree of a shape for the value that it is, and `Writes` that an encoder writes a
tree of the shape; a decoder that reads what an encoder writes undoes it
(`Reads.roundTrip`).
-/

namespace CeStorage.Lib

open Std (ExtTreeMap)

inductive Json where
  | null
  | bool (b : Bool)
  /-- An unsigned integer. -/
  | unsigned (n : Nat)
  /-- Any other number, as it is written. -/
  | number (text : String)
  | string (s : String)
  | array (items : List Json)
  /-- The fields in the order of the text. -/
  | object (fields : List (String × Json))

namespace Json

variable {α β κ : Type} [Ord κ] [Std.TransOrd κ] [Std.LawfulEqOrd κ] [DecidableEq κ]

/-! ## Decoders -/

def asBool : Json → Option Bool
  | bool b => some b
  | _ => none

def asString : Json → Option String
  | string s => some s
  | _ => none

/-- An unsigned integer of a type with values below `bound`. -/
def asUnsigned (bound : Nat) : Json → Option Nat
  | unsigned n => if n < bound then some n else none
  | _ => none

/-- `Option<T>`. -/
def asOption (decode : Json → Option α) : Json → Option (Option α)
  | null => some none
  | j => (decode j).map some

/-- `Vec<T>`. -/
def asList (decode : Json → Option α) : Json → Option (List α)
  | array items => items.mapM decode
  | _ => none

/-- A map: of two fields with one key the later one counts. -/
def asMap (readKey : String → Option κ) (decode : Json → Option β) :
    Json → Option (ExtTreeMap κ β)
  | object fields => fields.foldlM (fun m p => do
      let k ← readKey p.1
      let v ← decode p.2
      return m.insert k v) ∅
  | _ => none

/-- An integer key, as JSON writes integers: without a sign, and without zeros in front. -/
def readUnsignedKey (bound : Nat) (s : String) : Option Nat :=
  (Str.parseUnsigned bound s).filter fun n => toString n = s

/-- A field without a default. -/
def required (fields : List (String × Json)) (name : String) (decode : Json → Option α) :
    Option α :=
  match fields.filter fun p => p.1 = name with
  | [p] => decode p.2
  | _ => none

/-- A field with a default. -/
def defaulted (fields : List (String × Json)) (name : String) (decode : Json → Option α)
    (default : α) : Option α :=
  match fields.filter fun p => p.1 = name with
  | [] => some default
  | [p] => decode p.2
  | _ => none

/-- The fields of a structure: those of an object, or the items of an array, which are
the fields in the order in which they are declared. -/
def structFields (names : List String) : Json → Option (List (String × Json))
  | object fields => some fields
  | array items => if items.length ≤ names.length then some (names.zip items) else none
  | _ => none

/-- A structure whose fields have those names. -/
def asStruct (names : List String) (decode : List (String × Json) → Option α) (j : Json) :
    Option α :=
  (structFields names j).bind decode

@[simp] theorem asStruct_object (names : List String) (decode : List (String × Json) → Option α)
    (fields : List (String × Json)) : asStruct names decode (object fields) = decode fields := rfl

/-- What is read from an object only, as a variant of an untagged enumeration is. -/
def asObject (decode : List (String × Json) → Option α) : Json → Option α
  | object fields => decode fields
  | _ => none

/-! ## Shapes -/

/-- The decoder takes every tree of the shape for the value that it is. -/
def Reads (decode : Json → Option α) (S : Json → α → Prop) : Prop :=
  ∀ j a, S j a → decode j = some a

/-- The encoder writes a tree of the shape for every value that fits. -/
def Writes (encode : α → Json) (Fits : α → Prop) (S : Json → α → Prop) : Prop :=
  ∀ a, Fits a → S (encode a) a

theorem Reads.roundTrip {decode : Json → Option α} {encode : α → Json} {Fits : α → Prop}
    {S : Json → α → Prop} (hr : Reads decode S) (hw : Writes encode Fits S) {a : α}
    (h : Fits a) : decode (encode a) = some a :=
  hr _ _ (hw a h)

def BoolShape (j : Json) (b : Bool) : Prop := j = bool b

def StringShape (j : Json) (s : String) : Prop := j = string s

def UnsignedShape (bound : Nat) (j : Json) (n : Nat) : Prop := j = unsigned n ∧ n < bound

/-- `null`, or a tree of the shape. -/
def OptionShape (S : Json → α → Prop) (j : Json) : Option α → Prop
  | none => j = null
  | some a => j ≠ null ∧ S j a

def ListShape (S : Json → α → Prop) (j : Json) (as : List α) : Prop :=
  ∃ items, j = array items ∧ List.Forall₂ S items as

/-- The name of a field is the key. -/
def StringKey (name key : String) : Prop := name = key

/-- The name of a field is an integer key, as JSON writes it. -/
def UnsignedKey (bound : Nat) (name : String) (n : Nat) : Prop := name = toString n ∧ n < bound

/-- The fields of a map, each with its key once. -/
structure MapFields (K : String → κ → Prop) (S : Json → β → Prop) (fields : List (String × Json))
    (m : ExtTreeMap κ β) : Prop where
  nodup : (fields.map (·.1)).Nodup
  bound : ∀ p ∈ fields, ∃ k v, K p.1 k ∧ m[k]? = some v ∧ S p.2 v
  covered : ∀ k v, m[k]? = some v → ∃ p ∈ fields, K p.1 k

def MapShape (K : String → κ → Prop) (S : Json → β → Prop) (j : Json) (m : ExtTreeMap κ β) :
    Prop :=
  ∃ fields, j = object fields ∧ MapFields K S fields m

/-- There is one field of that name, with that value. -/
def Has (fields : List (String × Json)) (name : String) (S : Json → α → Prop) (a : α) : Prop :=
  ∃ j, fields.filter (fun p => p.1 = name) = [(name, j)] ∧ S j a

def Lacks (fields : List (String × Json)) (name : String) : Prop := ∀ p ∈ fields, p.1 ≠ name

/-- There is one field of that name with that value, or none where the value is the default. -/
def HasOr (fields : List (String × Json)) (name : String) (S : Json → α → Prop) (default a : α) :
    Prop :=
  Has fields name S a ∨ Lacks fields name ∧ a = default

/-! ## Reading -/

section
variable {S : Json → α → Prop} {decode : Json → Option α} {fields : List (String × Json)}
  {name : String} {a d : α}

theorem reads_bool : Reads asBool BoolShape := by
  rintro j b rfl
  rfl

theorem reads_string : Reads asString StringShape := by
  rintro j s rfl
  rfl

theorem reads_unsigned (bound : Nat) : Reads (asUnsigned bound) (UnsignedShape bound) := by
  rintro j n ⟨rfl, h⟩
  exact if_pos h

theorem Reads.option (h : Reads decode S) : Reads (asOption decode) (OptionShape S) := by
  intro j a ha
  cases a with
  | none =>
    obtain rfl : j = null := ha
    rfl
  | some a =>
    obtain ⟨hnull, hS⟩ := ha
    unfold asOption
    split
    · exact absurd rfl hnull
    · rw [h _ _ hS]
      rfl

theorem Reads.list (h : Reads decode S) : Reads (asList decode) (ListShape S) := by
  rintro j as ⟨items, rfl, hall⟩
  unfold asList
  induction hall with
  | nil => rfl
  | cons ha _ ih =>
    dsimp only at ih ⊢
    rw [List.mapM_cons, h _ _ ha, ih]
    rfl

theorem required_eq (hr : Reads decode S) (h : Has fields name S a) :
    required fields name decode = some a := by
  obtain ⟨j, hj, hS⟩ := h
  unfold required
  rw [hj]
  exact hr _ _ hS

theorem required_lacks (h : Lacks fields name) : required fields name decode = none := by
  have hnone : fields.filter (fun p => p.1 = name) = [] :=
    List.filter_eq_nil_iff.mpr fun p hp heq => h p hp (of_decide_eq_true heq)
  unfold required
  rw [hnone]

theorem defaulted_eq (hr : Reads decode S) (h : HasOr fields name S d a) :
    defaulted fields name decode d = some a := by
  unfold defaulted
  rcases h with ⟨j, hj, hS⟩ | ⟨hlacks, rfl⟩
  · rw [hj]
    exact hr _ _ hS
  · have hnone : fields.filter (fun p => p.1 = name) = [] :=
      List.filter_eq_nil_iff.mpr fun p hp heq => hlacks p hp (of_decide_eq_true heq)
    rw [hnone]

end

section
variable {S : Json → β → Prop} {decode : Json → Option β} {K : String → κ → Prop}
  {readKey : String → Option κ}

theorem reads_stringKey (name key : String) (h : StringKey name key) : some name = some key :=
  congrArg some h

theorem reads_unsignedKey {bound : Nat} (name : String) (n : Nat) (h : UnsignedKey bound name n) :
    readUnsignedKey bound name = some n := by
  obtain ⟨rfl, hn⟩ := h
  have hread : Str.parseUnsigned bound (toString n) = some n := Str.parseUnsigned_toDigits 0 hn
  unfold readUnsignedKey
  rw [hread]
  exact if_pos (decide_eq_true rfl)

/-- Reading the fields of a map one after the other: the bindings of those read so far. -/
theorem foldlM_fields (hkey : ∀ s k, K s k → readKey s = some k) (hr : Reads decode S)
    {m : ExtTreeMap κ β} {fields : List (String × Json)}
    (h : ∀ p ∈ fields, ∃ k v, K p.1 k ∧ m[k]? = some v ∧ S p.2 v)
    (acc : ExtTreeMap κ β) : ∃ m' : ExtTreeMap κ β, fields.foldlM (fun m p => do
        let k ← readKey p.1
        let v ← decode p.2
        return m.insert k v) acc = some m' ∧
      ∀ k, ((∃ p ∈ fields, K p.1 k) → m'[k]? = m[k]?) ∧
        ((∀ p ∈ fields, ¬ K p.1 k) → m'[k]? = acc[k]?) := by
  induction fields generalizing acc with
  | nil =>
    refine ⟨acc, rfl, fun k => ⟨?_, fun _ => rfl⟩⟩
    rintro ⟨p, hp, -⟩
    exact absurd hp List.not_mem_nil
  | cons p fields ih =>
    rw [List.forall_mem_cons] at h
    obtain ⟨⟨k₀, v, hk, hm, hS⟩, hrest⟩ := h
    obtain ⟨m', hfold, hlookup⟩ := ih hrest (acc.insert k₀ v)
    refine ⟨m', ?_, fun k => ⟨?_, ?_⟩⟩
    · rw [List.foldlM_cons, hkey _ _ hk, hr _ _ hS]
      exact hfold
    · -- the key is in the rest, or it is the first one only
      rintro ⟨q, hq, hqk⟩
      by_cases hin : ∃ p ∈ fields, K p.1 k
      · exact (hlookup k).1 hin
      · have hout : ∀ p ∈ fields, ¬ K p.1 k := fun p hp hpk => hin ⟨p, hp, hpk⟩
        obtain rfl : q = p := (List.mem_cons.mp hq).resolve_right fun hq => hout q hq hqk
        have hsame : some k₀ = some k := (hkey _ _ hk).symm.trans (hkey _ _ hqk)
        rw [(hlookup k).2 hout, get_insert, if_pos (Option.some.inj hsame),
          ← Option.some.inj hsame, hm]
    · intro hnone
      rw [List.forall_mem_cons] at hnone
      have hne : k₀ ≠ k := by
        rintro rfl
        exact hnone.1 hk
      rw [(hlookup k).2 hnone.2, get_insert, if_neg hne]

theorem Reads.map (hkey : ∀ s k, K s k → readKey s = some k) (hr : Reads decode S) :
    Reads (asMap readKey decode) (MapShape K S) := by
  rintro j m ⟨fields, rfl, hfields⟩
  obtain ⟨m', hfold, hlookup⟩ := foldlM_fields hkey hr hfields.bound ∅
  have hm : m' = m := by
    refine ExtTreeMap.ext_getElem? fun k => ?_
    by_cases hin : ∃ p ∈ fields, K p.1 k
    · exact (hlookup k).1 hin
    · rw [(hlookup k).2 fun p hp hpk => hin ⟨p, hp, hpk⟩, ExtTreeMap.getElem?_empty]
      cases hk : m[k]? with
      | none => rfl
      | some v => exact absurd (hfields.covered k v hk) hin
  rw [← hm]
  exact hfold

end

/-! ## Writing -/

def ofList (encode : α → Json) (as : List α) : Json := array (as.map encode)

def ofMap (showKey : κ → String) (encode : β → Json) (m : ExtTreeMap κ β) : Json :=
  object (m.toList.map fun p => (showKey p.1, encode p.2))

section
variable {S : Json → α → Prop} {encode : α → Json} {Fits : α → Prop}

theorem Writes.list (h : Writes encode Fits S) :
    Writes (ofList encode) (fun as => ∀ a ∈ as, Fits a) (ListShape S) := by
  intro as hfits
  refine ⟨_, rfl, ?_⟩
  induction as with
  | nil => exact .nil
  | cons a as ih =>
    rw [List.forall_mem_cons] at hfits
    exact .cons (h a hfits.1) (ih hfits.2)

end

omit [Std.LawfulEqOrd κ] [DecidableEq κ] in
theorem mapFields_nil {K : String → κ → Prop} {S : Json → β → Prop} : MapFields K S [] ∅ :=
  ⟨.nil, nofun, fun k v h => by simp at h⟩

/-- One more field, with a key that no other field has. -/
theorem MapFields.cons {K : String → κ → Prop} {S : Json → β → Prop}
    {fields : List (String × Json)} {m : ExtTreeMap κ β} {name : String} {j : Json} {k : κ} {v : β}
    (h : MapFields K S fields m) (hname : name ∉ fields.map (·.1)) (hk : m[k]? = none)
    (hK : K name k) (hS : S j v) : MapFields K S ((name, j) :: fields) (m.insert k v) := by
  refine ⟨List.nodup_cons.mpr ⟨hname, h.nodup⟩, ?_, ?_⟩
  · intro p hp
    rcases List.mem_cons.mp hp with rfl | hp
    · exact ⟨k, v, hK, get_insert_self, hS⟩
    · obtain ⟨k', v', hK', hm, hS'⟩ := h.bound p hp
      have hne : k ≠ k' := by
        rintro rfl
        cases hk.symm.trans hm
      exact ⟨k', v', hK', (get_insert_ne hne).trans hm, hS'⟩
  · intro k' v' hm
    by_cases heq : k = k'
    · exact ⟨(name, j), List.mem_cons_self, heq ▸ hK⟩
    · rw [get_insert_ne heq] at hm
      obtain ⟨p, hp, hpK⟩ := h.covered k' v' hm
      exact ⟨p, List.mem_cons_of_mem _ hp, hpK⟩

omit [DecidableEq κ] in
/-- A map whose keys and values all fit is written as the fields of that map. -/
theorem Writes.map {S : Json → β → Prop} {encode : β → Json} {Fits : β → Prop}
    {K : String → κ → Prop} {showKey : κ → String} (hinj : Function.Injective showKey)
    (h : Writes encode Fits S) {m : ExtTreeMap κ β}
    (hfits : ∀ (k : κ) (v : β), m[k]? = some v → K (showKey k) k ∧ Fits v) :
    MapShape K S (ofMap showKey encode m) m := by
  have hmem : ∀ k v, (k, v) ∈ m.toList ↔ m[k]? = some v := fun k v =>
    ExtTreeMap.mem_toList_iff_getElem?_eq_some
  refine ⟨_, rfl, ?_, ?_, ?_⟩
  · rw [List.map_map]
    have hdistinct := ExtTreeMap.distinct_keys_toList (t := m)
    refine List.pairwise_map.mpr (hdistinct.imp fun {a b} hab heq => hab ?_)
    rw [Std.LawfulEqOrd.compare_eq_iff_eq]
    exact hinj heq
  · intro p hp
    obtain ⟨⟨k, v⟩, hkv, rfl⟩ := List.mem_map.mp hp
    obtain ⟨hk, hv⟩ := hfits k v ((hmem k v).mp hkv)
    exact ⟨k, v, hk, (hmem k v).mp hkv, h v hv⟩
  · intro k v hk
    exact ⟨_, List.mem_map_of_mem ((hmem k v).mpr hk), (hfits k v hk).1⟩

/-! ## What is taken fits -/

/-- The decoder takes nothing but values that fit. -/
def Takes (decode : Json → Option α) (Fits : α → Prop) : Prop := ∀ j a, decode j = some a → Fits a

section
variable {decode : Json → Option α} {Fits : α → Prop} {fields : List (String × Json)}
  {name : String} {a d : α}

theorem Takes.mono {Fits' : α → Prop} (h : Takes decode Fits) (hfits : ∀ a, Fits a → Fits' a) :
    Takes decode Fits' :=
  fun j a ha => hfits a (h j a ha)

theorem takes_struct {names : List String} {decode : List (String × Json) → Option α}
    (h : ∀ fields a, decode fields = some a → Fits a) : Takes (asStruct names decode) Fits := by
  intro j a ha
  obtain ⟨fields, -, hdecode⟩ := Option.bind_eq_some_iff.mp ha
  exact h fields a hdecode

theorem takes_object {decode : List (String × Json) → Option α}
    (h : ∀ fields a, decode fields = some a → Fits a) : Takes (asObject decode) Fits := by
  intro j a ha
  unfold asObject at ha
  split at ha
  · exact h _ a ha
  · cases ha

theorem takes_unsigned (bound : Nat) : Takes (asUnsigned bound) (· < bound) := by
  intro j n h
  unfold asUnsigned at h
  split at h
  · split at h
    next hn =>
      cases h
      exact hn
    next => exact nomatch h
  · exact nomatch h

theorem Takes.list (h : Takes decode Fits) : Takes (asList decode) fun as => ∀ a ∈ as, Fits a := by
  intro j as ht
  unfold asList at ht
  split at ht
  next items =>
    induction items generalizing as with
    | nil =>
      cases ht
      exact fun _ ha => nomatch ha
    | cons item items ih =>
      rw [List.mapM_cons] at ht
      obtain ⟨a, ha, ht⟩ := Option.bind_eq_some_iff.mp ht
      obtain ⟨rest, hrest, ht⟩ := Option.bind_eq_some_iff.mp ht
      cases ht
      exact List.forall_mem_cons.mpr ⟨h item a ha, ih rest hrest⟩
  next => exact nomatch ht

theorem Takes.required (h : Takes decode Fits) (hr : required fields name decode = some a) :
    Fits a := by
  unfold Json.required at hr
  split at hr
  · exact h _ a hr
  · exact nomatch hr

theorem Takes.defaulted (h : Takes decode Fits) (hd : Fits d)
    (hr : defaulted fields name decode d = some a) : Fits a := by
  unfold Json.defaulted at hr
  split at hr
  · cases hr
    exact hd
  · exact h _ a hr
  · exact nomatch hr

end

section
variable {decode : Json → Option β} {Fits : β → Prop} {readKey : String → Option κ}
  {FitsKey : κ → Prop}

/-- A map read on top of one that fits. -/
theorem foldlM_takes (hkey : ∀ s k, readKey s = some k → FitsKey k) (h : Takes decode Fits)
    {fields : List (String × Json)} {acc m : ExtTreeMap κ β}
    (hacc : ∀ (k : κ) (v : β), acc[k]? = some v → FitsKey k ∧ Fits v)
    (hm : fields.foldlM (fun m p => do
        let k ← readKey p.1
        let v ← decode p.2
        return m.insert k v) acc = some m) :
    ∀ (k : κ) (v : β), m[k]? = some v → FitsKey k ∧ Fits v := by
  induction fields generalizing acc with
  | nil =>
    cases hm
    exact hacc
  | cons p fields ih =>
    rw [List.foldlM_cons] at hm
    obtain ⟨acc', hstep, hm⟩ := Option.bind_eq_some_iff.mp hm
    obtain ⟨k, hk, hstep⟩ := Option.bind_eq_some_iff.mp hstep
    obtain ⟨v, hv, hstep⟩ := Option.bind_eq_some_iff.mp hstep
    cases hstep
    refine ih ?_ hm
    intro k' v' hk'
    rw [get_insert] at hk'
    by_cases heq : k = k'
    · subst heq
      rw [if_pos rfl] at hk'
      cases hk'
      exact ⟨hkey p.1 k hk, h p.2 v hv⟩
    · rw [if_neg heq] at hk'
      exact hacc k' v' hk'

/-- The keys and values of a map that is taken fit. -/
theorem Takes.map (hkey : ∀ s k, readKey s = some k → FitsKey k) (h : Takes decode Fits) :
    Takes (asMap readKey decode)
      fun m => ∀ (k : κ) (v : β), m[k]? = some v → FitsKey k ∧ Fits v := by
  intro j m ht
  unfold asMap at ht
  split at ht
  next fields =>
    refine foldlM_takes hkey h ?_ ht
    intro k v hk
    rw [ExtTreeMap.getElem?_empty] at hk
    exact nomatch hk
  next => exact nomatch ht

end

theorem takes_unsignedKey {bound n : Nat} {s : String} (h : readUnsignedKey bound s = some n) :
    n < bound := by
  obtain ⟨hparse, -⟩ := Option.filter_eq_some_iff.mp h
  exact (Str.parseUnsigned_eq_some.mp hparse).2

end Json

end CeStorage.Lib
