import CeStorage.Gateway.Escape
import CeStorage.Gateway.Handlers

/-!
# List documents (`gateway.rs`)

`list_objects` writes a page as XML, field by field, with the strings escaped. A
client that reads the document with an XML reader gets the page back, whatever
the keys, prefixes, etags and tokens are (`read_listBody`): no key can close the
element that it stands in, or open another.
-/

namespace CeStorage

open Lib
open Markup (Element Piece)

/-! ## Reading a listing -/

/-- What a client reads of a listing. -/
structure Listing where
  name : String
  keyPrefix : String
  maxKeys : Nat
  keyCount : Nat
  isTruncated : Bool
  delimiter : Option String
  nextContinuation : Option String
  /-- Keys, each with its time of modification, its size and its etag. -/
  contents : List (String × Nat × Nat × String)
  commonPrefixes : List String
  deriving DecidableEq

/-- The listing that a page is of. -/
def ListPage.listing (page : ListPage) (bucket keyPrefix : String) (delimiter : Option String) :
    Listing where
  name := bucket
  keyPrefix := keyPrefix
  maxKeys := page.maxKeys
  keyCount := page.keyCount
  isTruncated := page.isTruncated
  delimiter := delimiter
  nextContinuation := page.nextContinuation
  contents := page.keys.map fun p => (p.1, p.2.lastModified, p.2.size, p.2.etag)
  commonPrefixes := page.commonPrefixes

namespace Listing

/-- The elements of that name in an element. -/
def named (e : Element) (name : String) : List Element :=
  e.children.filter fun x => x.name = name.toList

/-- The text of the one element of that name. -/
def only (e : Element) (name : String) : Option String :=
  match named e name with
  | [x] => some (String.ofList x.text)
  | _ => none

/-- The text of the element of that name, if there is one. -/
def optional (e : Element) (name : String) : Option (Option String) :=
  match named e name with
  | [] => some none
  | [x] => some (some (String.ofList x.text))
  | _ => none

def readNumber (s : String) : Option Nat := if s = "" then none else Str.digits 0 s.toList

def readFlag (s : String) : Option Bool :=
  if s = "true" then some true else if s = "false" then some false else none

/-- The text between double quotes. -/
def readQuoted (s : String) : Option String :=
  match s.toList with
  | '"' :: cs => if cs.getLast? = some '"' then some (String.ofList cs.dropLast) else none
  | _ => none

def readEntry (e : Element) : Option (String × Nat × Nat × String) := do
  let key ← only e "Key"
  let lastModified ← (only e "LastModified").bind readNumber
  let size ← (only e "Size").bind readNumber
  let etag ← (only e "ETag").bind readQuoted
  return (key, lastModified, size, etag)

def readElement (root : Element) : Option Listing := do
  let name ← only root "Name"
  let keyPrefix ← only root "Prefix"
  let maxKeys ← (only root "MaxKeys").bind readNumber
  let keyCount ← (only root "KeyCount").bind readNumber
  let isTruncated ← (only root "IsTruncated").bind readFlag
  let delimiter ← optional root "Delimiter"
  let nextContinuation ← optional root "NextContinuationToken"
  let contents ← (named root "Contents").mapM readEntry
  let commonPrefixes ← (named root "CommonPrefixes").mapM fun e => only e "Prefix"
  return { name, keyPrefix, maxKeys, keyCount, isTruncated, delimiter, nextContinuation, contents
           commonPrefixes }

/-- Read a listing. -/
def read (doc : String) : Option Listing := do
  let root ← Markup.read doc.toList
  if root.name = "ListBucketResult".toList then readElement root else none

end Listing

/-! ## The document in pieces -/

/-- The pieces of an element whose text is escaped. -/
def textPieces (name text : String) : List Piece := Markup.leaf name.toList (xmlEscape text).toList

/-- The pieces of an element whose text needs no escaping. -/
def rawPieces (name text : String) : List Piece := Markup.leaf name.toList text.toList

def entryPieces (p : String × ObjectMeta) : List Piece :=
  Markup.node "Contents".toList (textPieces "Key" p.1
    ++ (rawPieces "LastModified" (toString p.2.lastModified)
      ++ (rawPieces "Size" (toString p.2.size)
      ++ rawPieces "ETag" ("\"" ++ xmlEscape p.2.etag ++ "\""))))

def prefixPieces (cp : String) : List Piece :=
  Markup.node "CommonPrefixes".toList (textPieces "Prefix" cp)

def listPieces (bucket keyPrefix : String) (delimiter : Option String) (page : ListPage) :
    List Piece :=
  ("?xml version=\"1.0\" encoding=\"UTF-8\"?".toList, [])
    :: Markup.node "ListBucketResult".toList
      (textPieces "Name" bucket ++ (textPieces "Prefix" keyPrefix
        ++ (rawPieces "MaxKeys" (toString page.maxKeys)
        ++ (rawPieces "KeyCount" (toString page.keyCount)
        ++ (rawPieces "IsTruncated" (toString page.isTruncated)
        ++ (delimiter.toList.flatMap (textPieces "Delimiter")
        ++ (page.nextContinuation.toList.flatMap (textPieces "NextContinuationToken")
        ++ (page.keys.flatMap entryPieces ++ page.commonPrefixes.flatMap prefixPieces))))))))

theorem written_append (ps qs : List Piece) :
    Markup.written (ps ++ qs) = Markup.written ps ++ Markup.written qs := List.flatMap_append

theorem written_node (name : List Char) (inner : List Piece) :
    Markup.written (Markup.node name inner) = '<' :: (name ++ '>' :: (Markup.written inner
      ++ '<' :: ('/' :: name ++ ['>']))) := by
  unfold Markup.node
  rw [Markup.written, List.flatMap_cons, ← Markup.written, written_append]
  simp [Markup.written]

theorem written_text (name text : String) : Markup.written (textPieces name text)
    = ("<" ++ name ++ ">" ++ xmlEscape text ++ "</" ++ name ++ ">").toList := by
  simp [Markup.written, textPieces, Markup.leaf, String.toList_append]

theorem written_raw (name text : String) : Markup.written (rawPieces name text)
    = ("<" ++ name ++ ">" ++ text ++ "</" ++ name ++ ">").toList := by
  simp [Markup.written, rawPieces, Markup.leaf, String.toList_append]

theorem toList_join_map {α : Type} {f : α → String} {g : α → List Piece}
    (h : ∀ a, (f a).toList = Markup.written (g a)) (as : List α) :
    (String.join (as.map f)).toList = Markup.written (as.flatMap g) := by
  induction as with
  | nil => rfl
  | cons a as ih =>
    rw [List.map_cons, String.join_cons, String.toList_append, h, ih, List.flatMap_cons,
      written_append]

theorem toList_entry (p : String × ObjectMeta) :
    (s!"<Contents><Key>{xmlEscape p.1}</Key><LastModified>{p.2.lastModified}</LastModified><Size>{p.2.size}</Size><ETag>\"{xmlEscape p.2.etag}\"</ETag></Contents>").toList
      = Markup.written (entryPieces p) := by
  unfold entryPieces
  rw [written_node, written_append, written_append, written_append, written_text, written_raw,
    written_raw, written_raw]
  simp [String.toList_append, toString]

theorem toList_prefix (cp : String) :
    (s!"<CommonPrefixes><Prefix>{xmlEscape cp}</Prefix></CommonPrefixes>").toList
      = Markup.written (prefixPieces cp) := by
  unfold prefixPieces
  rw [written_node, written_text]
  simp [String.toList_append, toString]

/-- The document is the text of its pieces. -/
theorem toList_listBody (bucket keyPrefix : String) (delimiter : Option String) (page : ListPage) :
    (Gateway.listBody bucket keyPrefix delimiter page).toList
      = Markup.written (listPieces bucket keyPrefix delimiter page) := by
  unfold Gateway.listBody listPieces
  rw [Markup.written, List.flatMap_cons, ← Markup.written, written_node]
  simp only [written_append, written_text, written_raw, String.toList_append,
    toList_join_map toList_entry, toList_join_map toList_prefix]
  simp only [toString, String.reduceToList, List.cons_append, List.nil_append, List.append_assoc,
    Nat.toList_repr, List.cons.injEq, List.append_cancel_left_eq, true_and]
  -- the two elements that may be left out
  refine congrArg₂ (· ++ ·) ?_ (congrArg (· ++ _) ?_)
  · cases delimiter with
    | none => rfl
    | some d =>
      rw [Option.toList_some, List.flatMap_singleton, written_text]
      simp [String.toList_append]
  · cases page.nextContinuation with
    | none => rfl
    | some tok =>
      rw [Option.toList_some, List.flatMap_singleton, written_text]
      simp [String.toList_append]

/-! ## The document read -/

/-- An element with text in it. -/
def textElement (name text : String) : Element := ⟨name.toList, text.toList, []⟩

def entryElement (p : String × ObjectMeta) : Element :=
  ⟨"Contents".toList, [], [textElement "Key" p.1,
    textElement "LastModified" (toString p.2.lastModified),
    textElement "Size" (toString p.2.size), textElement "ETag" ("\"" ++ p.2.etag ++ "\"")]⟩

def prefixElement (cp : String) : Element :=
  ⟨"CommonPrefixes".toList, [], [textElement "Prefix" cp]⟩

/-- The element that a list document is. -/
def listElement (bucket keyPrefix : String) (delimiter : Option String) (page : ListPage) :
    Element :=
  ⟨"ListBucketResult".toList, [], [textElement "Name" bucket, textElement "Prefix" keyPrefix,
      textElement "MaxKeys" (toString page.maxKeys),
      textElement "KeyCount" (toString page.keyCount),
      textElement "IsTruncated" (toString page.isTruncated)]
    ++ (delimiter.toList.map (textElement "Delimiter")
    ++ (page.nextContinuation.toList.map (textElement "NextContinuationToken")
    ++ (page.keys.map entryElement ++ page.commonPrefixes.map prefixElement)))⟩

theorem writes_text {name : String} (hname : Markup.Name name.toList) (text : String) :
    Markup.Writes (textPieces name text) [textElement name text] := by
  refine Markup.writes_leaf hname ?_
  have h := decode_xmlEscape text []
  rwa [List.append_nil, Markup.decode, Option.map_some, List.append_nil] at h

theorem writes_raw {name text : String} (hname : Markup.Name name.toList) (h : '&' ∉ text.toList) :
    Markup.Writes (rawPieces name text) [textElement name text] :=
  Markup.writes_leaf hname (Markup.decode_plain h)

/-- An etag is escaped, and the quotes around it are not. -/
theorem writes_etag (etag : String) : Markup.Writes
    (rawPieces "ETag" ("\"" ++ xmlEscape etag ++ "\""))
      [textElement "ETag" ("\"" ++ etag ++ "\"")] := by
  refine Markup.writes_leaf (by decide) ?_
  rw [String.toList_append, String.toList_append, String.toList_append, String.toList_append]
  show Markup.decode ('"' :: ((xmlEscape etag).toList ++ ['"'])) = _
  rw [Markup.decode_cons (by decide), decode_xmlEscape]
  rfl

/-- Numbers and flags need no escaping. -/
theorem number_plain (n : Nat) : '&' ∉ (toString n).toList ∧ '<' ∉ (toString n).toList := by
  rw [Nat.toString_eq_repr, Nat.toList_repr]
  constructor
  · exact fun h => absurd (Str.isDigit_of_mem_toDigits h) (by decide)
  · exact fun h => absurd (Str.isDigit_of_mem_toDigits h) (by decide)

theorem flag_plain (b : Bool) : '&' ∉ (toString b).toList ∧ '<' ∉ (toString b).toList := by
  cases b with
  | false => decide
  | true => decide

theorem writes_entry (p : String × ObjectMeta) :
    Markup.Writes (entryPieces p) [entryElement p] := by
  refine Markup.Writes.node (by decide) ?_
  exact (writes_text (by decide) _).append ((writes_raw (by decide) (number_plain _).1).append
    ((writes_raw (by decide) (number_plain _).1).append (writes_etag _)))

theorem writes_prefix (cp : String) : Markup.Writes (prefixPieces cp) [prefixElement cp] :=
  Markup.Writes.node (by decide) (writes_text (by decide) _)

theorem writes_list (bucket keyPrefix : String) (delimiter : Option String) (page : ListPage) :
    Markup.Writes (listPieces bucket keyPrefix delimiter page)
      [listElement bucket keyPrefix delimiter page] := by
  have hdeclaration :
      Markup.Writes [("?xml version=\"1.0\" encoding=\"UTF-8\"?".toList, [])] [] := by
    rintro ⟨name, text, children⟩ rest
    rfl
  have hnumber : ∀ {name : String}, Markup.Name name.toList → ∀ n : Nat,
      Markup.Writes (rawPieces name (toString n)) [textElement name (toString n)] :=
    fun hname n => writes_raw hname (number_plain n).1
  refine hdeclaration.append (Markup.Writes.node (by decide) ?_)
  refine (writes_text (by decide) _).append ((writes_text (by decide) _).append
    ((hnumber (by decide) _).append ((hnumber (by decide) _).append
    ((writes_raw (by decide) (flag_plain _).1).append ?_))))
  exact (Markup.writes_flatMap (writes_text (by decide)) _).append
    ((Markup.writes_flatMap (writes_text (by decide)) _).append
    ((Markup.writes_flatMap writes_entry _).append (Markup.writes_flatMap writes_prefix _)))

/-! ### Where the pieces may be cut -/

theorem clean_text {name : String} (hname : '<' ∉ name.toList ∧ '>' ∉ name.toList) (text : String) :
    ∀ piece ∈ textPieces name text, piece.Clean :=
  Markup.clean_leaf hname (lt_notMem_xmlEscape text)

theorem clean_raw {name text : String} (hname : '<' ∉ name.toList ∧ '>' ∉ name.toList)
    (htext : '<' ∉ text.toList) : ∀ piece ∈ rawPieces name text, piece.Clean :=
  Markup.clean_leaf hname htext

theorem forall_mem_flatMap {α : Type} {f : α → List Piece} {P : Piece → Prop}
    (h : ∀ a, ∀ piece ∈ f a, P piece) (as : List α) : ∀ piece ∈ as.flatMap f, P piece := by
  intro piece hp
  obtain ⟨a, -, ha⟩ := List.mem_flatMap.mp hp
  exact h a piece ha

theorem clean_entry (p : String × ObjectMeta) : ∀ piece ∈ entryPieces p, piece.Clean := by
  have hetag : '<' ∉ ("\"" ++ xmlEscape p.2.etag ++ "\"").toList := by
    rw [String.toList_append, String.toList_append, List.mem_append, List.mem_append]
    rintro ((h | h) | h)
    · exact absurd h (by decide)
    · exact lt_notMem_xmlEscape _ h
    · exact absurd h (by decide)
  refine Markup.clean_node (by decide) ?_
  rw [List.forall_mem_append, List.forall_mem_append, List.forall_mem_append]
  exact ⟨clean_text (by decide) _, clean_raw (by decide) (number_plain _).2,
    clean_raw (by decide) (number_plain _).2, clean_raw (by decide) hetag⟩

theorem clean_prefix (cp : String) : ∀ piece ∈ prefixPieces cp, piece.Clean :=
  Markup.clean_node (by decide) (clean_text (by decide) cp)

theorem clean_list (bucket keyPrefix : String) (delimiter : Option String) (page : ListPage) :
    ∀ piece ∈ listPieces bucket keyPrefix delimiter page, piece.Clean := by
  unfold listPieces
  rw [List.forall_mem_cons]
  refine ⟨⟨by decide, List.not_mem_nil⟩, Markup.clean_node (by decide) ?_⟩
  simp only [List.forall_mem_append]
  exact ⟨clean_text (by decide) _, clean_text (by decide) _,
    clean_raw (by decide) (number_plain _).2, clean_raw (by decide) (number_plain _).2,
    clean_raw (by decide) (flag_plain _).2, forall_mem_flatMap (clean_text (by decide)) _,
    forall_mem_flatMap (clean_text (by decide)) _, forall_mem_flatMap clean_entry _,
    forall_mem_flatMap clean_prefix _⟩

/-! ## The listing read -/

namespace Listing

variable {bucket keyPrefix : String} {delimiter : Option String} {page : ListPage}

theorem readNumber_toString (n : Nat) : readNumber (toString n) = some n := by
  rw [Nat.toString_eq_repr]
  unfold readNumber
  rw [if_neg Nat.repr_ne_empty, Nat.toList_repr,
    Str.digits_eq_some fun _ h => Str.isDigit_of_mem_toDigits h, Nat.ofDigitChars_ten_toDigits]

theorem readFlag_toString (b : Bool) : readFlag (toString b) = some b := by
  cases b with
  | false => decide
  | true => decide

theorem readQuoted_quoted (s : String) : readQuoted ("\"" ++ s ++ "\"") = some s := by
  have hs : ("\"" ++ s ++ "\"").toList = '"' :: (s.toList ++ ['"']) := by
    rw [String.toList_append, String.toList_append]
    rfl
  unfold readQuoted
  rw [hs]
  show (if (s.toList ++ ['"']).getLast? = some '"' then _ else _) = _
  rw [List.getLast?_concat, if_pos rfl, List.dropLast_concat, String.ofList_toList]

theorem only_text {e : Element} {name : String} (text : String)
    (h : named e name = [textElement name text]) :
    only e name = some text := by
  unfold only
  rw [h]
  exact congrArg some String.ofList_toList

theorem optional_text {e : Element} {name : String} {text : Option String}
    (h : named e name = text.toList.map (textElement name)) : optional e name = some text := by
  unfold optional
  rw [h]
  cases text with
  | none => rfl
  | some s => exact congrArg (some ∘ some) String.ofList_toList

theorem filter_map_named {α : Type} (tag : String) {f : α → Element}
    (h : ∀ a, (f a).name = tag.toList) (name : String) (as : List α) :
    (as.map f).filter (fun x => x.name = name.toList) = if tag = name then as.map f else [] := by
  split
  next heq =>
    refine List.filter_eq_self.mpr fun x hx => decide_eq_true ?_
    obtain ⟨a, -, rfl⟩ := List.mem_map.mp hx
    rw [h, heq]
  next hne =>
    refine List.filter_eq_nil_iff.mpr fun x hx hname => hne ?_
    obtain ⟨a, -, rfl⟩ := List.mem_map.mp hx
    exact String.toList_inj.mp ((h a).symm.trans (of_decide_eq_true hname))

/-- The elements of a list document, by their names. -/
theorem named_listElement (name : String) : named (listElement bucket keyPrefix delimiter page) name
    = [textElement "Name" bucket, textElement "Prefix" keyPrefix,
        textElement "MaxKeys" (toString page.maxKeys),
        textElement "KeyCount" (toString page.keyCount),
        textElement "IsTruncated" (toString page.isTruncated)].filter
          (fun x => x.name = name.toList)
      ++ ((if "Delimiter" = name then delimiter.toList.map (textElement "Delimiter") else [])
      ++ ((if "NextContinuationToken" = name
        then page.nextContinuation.toList.map (textElement "NextContinuationToken") else [])
      ++ ((if "Contents" = name then page.keys.map entryElement else [])
      ++ if "CommonPrefixes" = name then page.commonPrefixes.map prefixElement else []))) := by
  unfold named listElement
  rw [List.filter_append, List.filter_append, List.filter_append, List.filter_append,
    filter_map_named "Delimiter" fun _ => rfl,
    filter_map_named "NextContinuationToken" fun _ => rfl,
    filter_map_named "Contents" fun _ => rfl,
    filter_map_named "CommonPrefixes" fun _ => rfl]

theorem mapM_map_some {α β γ : Type} {f : β → Option γ} {g : α → β} {k : α → γ}
    (h : ∀ a, f (g a) = some (k a)) (as : List α) : (as.map g).mapM f = some (as.map k) := by
  induction as with
  | nil => rfl
  | cons a as ih =>
    rw [List.map_cons, List.mapM_cons, h, ih]
    rfl

theorem readEntry_entryElement (p : String × ObjectMeta) : readEntry (entryElement p)
    = some (p.1, p.2.lastModified, p.2.size, p.2.etag) := by
  unfold readEntry
  rw [only_text p.1 rfl, only_text (toString p.2.lastModified) rfl,
    only_text (toString p.2.size) rfl, only_text ("\"" ++ p.2.etag ++ "\"") rfl,
    Option.bind_some, Option.bind_some, Option.bind_some, readNumber_toString, readNumber_toString,
    readQuoted_quoted]
  rfl

/-- The client reads the page that the element was written for. -/
theorem readElement_listElement : readElement (listElement bucket keyPrefix delimiter page)
    = some (page.listing bucket keyPrefix delimiter) := by
  have field : ∀ {name : String} (text : String), [textElement "Name" bucket,
        textElement "Prefix" keyPrefix, textElement "MaxKeys" (toString page.maxKeys),
        textElement "KeyCount" (toString page.keyCount),
        textElement "IsTruncated" (toString page.isTruncated)].filter
          (fun x => x.name = name.toList) = [textElement name text] →
      name ∉ ["Delimiter", "NextContinuationToken", "Contents", "CommonPrefixes"] →
      only (listElement bucket keyPrefix delimiter page) name = some text := by
    intro name text h hname
    simp only [List.mem_cons, List.not_mem_nil, or_false, not_or] at hname
    refine only_text text ?_
    rw [named_listElement, h, if_neg (Ne.symm hname.1), if_neg (Ne.symm hname.2.1),
      if_neg (Ne.symm hname.2.2.1), if_neg (Ne.symm hname.2.2.2)]
    rfl
  have hdelimiter : optional (listElement bucket keyPrefix delimiter page) "Delimiter"
      = some delimiter := by
    refine optional_text ?_
    rw [named_listElement, if_pos rfl, if_neg (by decide), if_neg (by decide), if_neg (by decide)]
    exact List.append_nil _
  have htoken : optional (listElement bucket keyPrefix delimiter page) "NextContinuationToken"
      = some page.nextContinuation := by
    refine optional_text ?_
    rw [named_listElement, if_neg (by decide), if_pos rfl, if_neg (by decide), if_neg (by decide)]
    exact List.append_nil _
  have hcontents : named (listElement bucket keyPrefix delimiter page) "Contents"
      = page.keys.map entryElement := by
    rw [named_listElement, if_neg (by decide), if_neg (by decide), if_pos rfl, if_neg (by decide)]
    exact List.append_nil _
  have hprefixes : named (listElement bucket keyPrefix delimiter page) "CommonPrefixes"
      = page.commonPrefixes.map prefixElement := by
    rw [named_listElement, if_neg (by decide), if_neg (by decide), if_neg (by decide), if_pos rfl]
    rfl
  have hinner : (page.commonPrefixes.map prefixElement).mapM (fun e => only e "Prefix")
      = some page.commonPrefixes := by
    have h := mapM_map_some (f := fun e => only e "Prefix") (g := prefixElement)
      (k := fun cp => cp) (fun cp => only_text cp rfl) page.commonPrefixes
    rwa [List.map_id'] at h
  unfold readElement
  rw [field bucket rfl (by decide), field keyPrefix rfl (by decide),
    field (toString page.maxKeys) rfl (by decide), field (toString page.keyCount) rfl (by decide),
    field (toString page.isTruncated) rfl (by decide), hdelimiter, htoken, hcontents, hprefixes,
    mapM_map_some readEntry_entryElement, hinner, Option.bind_some, Option.bind_some,
    Option.bind_some, readNumber_toString, readNumber_toString, readFlag_toString]
  rfl

end Listing

/-- Whatever the names in it, a list document is read as the page that was listed. -/
theorem read_listBody (bucket keyPrefix : String) (delimiter : Option String) (page : ListPage) :
    Listing.read (Gateway.listBody bucket keyPrefix delimiter page)
      = some (page.listing bucket keyPrefix delimiter) := by
  unfold Listing.read
  rw [toList_listBody, Markup.read_written (clean_list bucket keyPrefix delimiter page)
    (writes_list bucket keyPrefix delimiter page)]
  show (if "ListBucketResult".toList = "ListBucketResult".toList then _ else none) = _
  rw [if_pos rfl]
  exact Listing.readElement_listElement

/-! A key that would close its element and open another is still one key. -/
example : (Markup.read ("<a><b>" ++ xmlEscape "x</b><b>" ++ "</b></a>").toList).map
    (fun e => e.children.map (·.text)) = some ["x</b><b>".toList] := by decide +kernel

end CeStorage
