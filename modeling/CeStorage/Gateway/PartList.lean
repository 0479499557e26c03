import CeStorage.Gateway.Http
import CeStorage.Lib.Scan

/-!
# Part lists (`gateway.rs`)

The document with which a client completes a multipart upload, in every way of
writing it: white space, attributes and white space within the tags, either
order of the two fields, and quotes around the etag. `parse_complete_parts`
looks for the three tags of a part letter by letter and decodes nothing, so it
reads the list that was written if and only if the tags of every part are
written without anything in them and no quote is an entity
(`parseCompleteParts_iff`).
-/

namespace CeStorage

open Lib

/-- White space of a document. -/
structure Blank where
  text : List Char
  white : ∀ c ∈ text, c ∈ [' ', '\t', '\n', '\r']

/-- An attribute, with the white space before it. -/
structure XmlAttribute where
  before : Blank
  apart : before.text ≠ []
  name : List Char
  named : name ≠ [] ∧ ∀ c ∈ name, c ∉ ['<', '>', '=', '/', '&', '"', '\x27', ' ', '\t', '\n', '\r']
  beforeEq : Blank
  afterEq : Blank
  /-- The value stands in single quotes. -/
  single : Bool
  value : List Char
  closed : (if single then '\x27' else '"') ∉ value
  escaped : '<' ∉ value

def XmlAttribute.text (a : XmlAttribute) : List Char :=
  let quote := if a.single then '\x27' else '"'
  a.before.text ++ a.name ++ a.beforeEq.text ++ ['='] ++ a.afterEq.text ++ [quote] ++ a.value
    ++ [quote]

/-- How an element's two tags are written. -/
structure TagPair where
  attributes : List XmlAttribute
  /-- White space before the `>` of the start tag, and of the end tag. -/
  startSpace : Blank
  stopSpace : Blank

namespace TagPair

/-- What stands in the start tag after its name. -/
def rest (t : TagPair) : List Char := t.attributes.flatMap (·.text) ++ t.startSpace.text

/-- Nothing stands in either tag but its name. -/
structure Plain (t : TagPair) : Prop where
  attributes : t.attributes = []
  startSpace : t.startSpace.text = []
  stopSpace : t.stopSpace.text = []

/-- The element with a body. -/
def wrap (t : TagPair) (name : String) (body : List Char) : List Char :=
  Str.tag name.toList t.rest ++ (body ++ Str.tag ('/' :: name.toList) t.stopSpace.text)

end TagPair

/-- How the quotes around an etag are written. -/
inductive Quoting where
  | unquoted
  | literal
  | entity
  deriving DecidableEq

def Quoting.mark : Quoting → List Char
  | unquoted => []
  | literal => ['"']
  | entity => "&quot;".toList

/-- A part that the client lists, and how it writes it. -/
structure PartElement where
  number : Nat
  number_lt : number < 2 ^ 32
  etag : String
  hex : ∀ c ∈ etag.toList, (Str.hexDigit c).isSome
  /-- Zeros before the number. -/
  zeros : Nat
  quoting : Quoting
  etagFirst : Bool
  tags : TagPair
  numberTags : TagPair
  etagTags : TagPair
  beforeNumber : Blank
  afterNumber : Blank
  beforeEtag : Blank
  afterEtag : Blank
  lead : Blank
  middle : Blank
  trail : Blank
  /-- White space after the part. -/
  after : Blank

namespace PartElement

def numberElement (p : PartElement) : List Char :=
  p.numberTags.wrap "PartNumber" (p.beforeNumber.text
    ++ (List.replicate p.zeros '0' ++ Nat.toDigits 10 p.number) ++ p.afterNumber.text)

def etagElement (p : PartElement) : List Char :=
  p.etagTags.wrap "ETag" (p.beforeEtag.text
    ++ (p.quoting.mark ++ p.etag.toList ++ p.quoting.mark) ++ p.afterEtag.text)

/-- The fields between the tags of the part. -/
def content (p : PartElement) : List Char :=
  p.lead.text
    ++ (if p.etagFirst then p.etagElement ++ (p.middle.text ++ p.numberElement)
      else p.numberElement ++ (p.middle.text ++ p.etagElement))
    ++ p.trail.text

def text (p : PartElement) : List Char := p.tags.wrap "Part" p.content ++ p.after.text

/-- The tags of the part hold nothing but their names, and its etag stands in no
entities. -/
structure Plain (p : PartElement) : Prop where
  tags : p.tags.Plain
  numberTags : p.numberTags.Plain
  etagTags : p.etagTags.Plain
  quoting : p.quoting ≠ .entity

end PartElement

/-- A `CompleteMultipartUpload` document. -/
structure CompletionDocument where
  /-- Of the XML declaration; without any the document has none. -/
  declaration : List XmlAttribute
  head : Blank
  root : TagPair
  lead : Blank
  parts : List PartElement
  trail : Blank

namespace CompletionDocument

/-- The list that the document is of. -/
def list (doc : CompletionDocument) : List (Nat × String) :=
  doc.parts.map fun p => (p.number, p.etag)

def declarationText (doc : CompletionDocument) : List Char :=
  if doc.declaration = [] then []
  else Str.tag "?xml".toList (doc.declaration.flatMap (·.text) ++ ['?'])

def chars (doc : CompletionDocument) : List Char :=
  doc.declarationText ++ doc.head.text
    ++ doc.root.wrap "CompleteMultipartUpload" (doc.lead.text ++ doc.parts.flatMap (·.text))
    ++ doc.trail.text

def text (doc : CompletionDocument) : String := String.ofList doc.chars

end CompletionDocument

/-! ## What stands in a document -/

theorem Blank.lt_notMem (b : Blank) : '<' ∉ b.text := fun h => absurd (b.white _ h) (by decide)

theorem Blank.isWhitespace (b : Blank) : ∀ c ∈ b.text, Str.isWhitespace c = true := by
  intro c hc
  have hwhite : [' ', '\t', '\n', '\r'].all Str.isWhitespace = true := by decide
  exact List.all_eq_true.mp hwhite c (b.white c hc)

theorem Blank.tagRest (b : Blank) : Str.TagRest b.text where
  lt := b.lt_notMem
  apart := fun c hc => b.isWhitespace c (List.mem_of_mem_head? hc)

theorem XmlAttribute.lt_notMem (a : XmlAttribute) : '<' ∉ a.text := by
  have hname : '<' ∉ a.name := fun h => a.named.2 _ h (by decide)
  have hquote : '<' ≠ (if a.single then '\x27' else '"') := by
    split
    · decide
    · decide
  have heq : '<' ≠ '=' := by decide
  unfold XmlAttribute.text
  simp only [List.mem_append, List.mem_singleton, not_or]
  exact ⟨⟨⟨⟨⟨⟨⟨a.before.lt_notMem, hname⟩, a.beforeEq.lt_notMem⟩, heq⟩, a.afterEq.lt_notMem⟩,
    hquote⟩, a.escaped⟩, hquote⟩

/-- A tag may end after its attributes in any text that may stand there alone. -/
theorem tagRest_attributes (attributes : List XmlAttribute) {cs : List Char} (hlt : '<' ∉ cs)
    (hcs : attributes = [] → ∀ c ∈ cs.head?, Str.isWhitespace c = true) :
    Str.TagRest (attributes.flatMap (·.text) ++ cs) where
  lt := by
    rw [List.mem_append, List.mem_flatMap]
    rintro (⟨a, -, ha⟩ | h)
    · exact a.lt_notMem ha
    · exact hlt h
  apart := by
    cases attributes with
    | nil => exact hcs rfl
    | cons a attributes =>
      intro c hc
      obtain ⟨b, bs, hb⟩ := List.exists_cons_of_ne_nil a.apart
      have hhead : ((a :: attributes).flatMap (·.text) ++ cs).head? = some b := by
        rw [List.flatMap_cons]
        unfold XmlAttribute.text
        rw [hb]
        rfl
      rw [hhead] at hc
      obtain rfl := Option.some.inj hc
      exact a.before.isWhitespace b (by rw [hb]; exact List.mem_cons_self)

theorem TagPair.tagRest (t : TagPair) : Str.TagRest t.rest :=
  tagRest_attributes t.attributes t.startSpace.lt_notMem fun _ => t.startSpace.tagRest.apart

theorem TagPair.plain_iff {t : TagPair} : t.Plain ↔ t.rest = [] ∧ t.stopSpace.text = [] := by
  unfold TagPair.rest
  rw [List.append_eq_nil_iff, List.flatMap_eq_nil_iff]
  constructor
  · rintro ⟨ha, hs, he⟩
    refine ⟨⟨fun a hmem => ?_, hs⟩, he⟩
    rw [ha] at hmem
    exact absurd hmem List.not_mem_nil
  · rintro ⟨⟨ha, hs⟩, he⟩
    refine ⟨?_, hs, he⟩
    -- an attribute is not the empty text
    rw [List.eq_nil_iff_forall_not_mem]
    intro a hmem
    have htext := ha a hmem
    unfold XmlAttribute.text at htext
    simp at htext

/-! ## How often a tag occurs -/

/-- How many of an element's tags are the tag of that name with nothing else in it. -/
def TagPair.tally (t : TagPair) (name : String) (n : List Char) : Nat :=
  (if n = name.toList ∧ t.rest = [] then 1 else 0)
    + if n = '/' :: name.toList ∧ t.stopSpace.text = [] then 1 else 0

theorem TagPair.tally_other {n : List Char} {name : String}
    (h : n ≠ name.toList ∧ n ≠ '/' :: name.toList) (t : TagPair) : t.tally name n = 0 := by
  unfold TagPair.tally
  rw [if_neg fun he => h.1 he.1, if_neg fun he => h.2 he.1]

theorem TagPair.plain_of_tally {t : TagPair} {name : String} (hstart : 1 ≤ t.tally name name.toList)
    (hstop : 1 ≤ t.tally name ('/' :: name.toList)) : t.Plain := by
  have hne : name.toList ≠ '/' :: name.toList := fun h => by
    have := congrArg List.length h
    rw [List.length_cons] at this
    omega
  unfold TagPair.tally at hstart hstop
  rw [if_neg fun h : _ ∧ _ => hne h.1, Nat.add_zero] at hstart
  rw [if_neg fun h : _ ∧ _ => hne h.1.symm, Nat.zero_add] at hstop
  refine TagPair.plain_iff.mpr ⟨?_, ?_⟩
  · by_contra hrest
    rw [if_neg fun h => hrest h.2] at hstart
    omega
  · by_contra hspace
    rw [if_neg fun h => hspace h.2] at hstop
    omega

section
variable {n : List Char} {name : String} {body cs : List Char} {p : PartElement}

theorem occurs_wrap (hn : Str.TagName n) (hname : Str.TagName name.toList) (t : TagPair) :
    Str.occurs (Str.tag n []) (t.wrap name body ++ cs)
      = (if n = name.toList ∧ t.rest = [] then 1 else 0) + Str.occurs (Str.tag n [])
          (body ++ (Str.tag ('/' :: name.toList) t.stopSpace.text ++ cs)) := by
  unfold TagPair.wrap
  rw [List.append_assoc, Str.occurs_tag hn hname t.tagRest, List.append_assoc]

theorem occurs_stop (hn : Str.TagName n) (hname : Str.TagName name.toList) (t : TagPair) :
    Str.occurs (Str.tag n []) (Str.tag ('/' :: name.toList) t.stopSpace.text ++ cs)
      = (if n = '/' :: name.toList ∧ t.stopSpace.text = [] then 1 else 0)
        + Str.occurs (Str.tag n []) cs := by
  refine Str.occurs_tag hn ?_ t.stopSpace.tagRest cs
  rw [Str.tagName_iff] at hname ⊢
  exact List.forall_mem_cons.mpr ⟨by decide, hname⟩

theorem occurs_leaf (hn : Str.TagName n) (hname : Str.TagName name.toList) (t : TagPair)
    (hbody : '<' ∉ body) : Str.occurs (Str.tag n []) (t.wrap name body ++ cs)
      = t.tally name n + Str.occurs (Str.tag n []) cs := by
  rw [occurs_wrap hn hname, Str.occurs_text hbody, occurs_stop hn hname, ← Nat.add_assoc]
  rfl

theorem PartElement.digits_lt (p : PartElement) :
    '<' ∉ p.beforeNumber.text ++ (List.replicate p.zeros '0' ++ Nat.toDigits 10 p.number)
      ++ p.afterNumber.text := by
  simp only [List.mem_append, not_or]
  refine ⟨⟨p.beforeNumber.lt_notMem, fun h => ?_, fun h => ?_⟩, p.afterNumber.lt_notMem⟩
  · exact absurd (List.eq_of_mem_replicate h) (by decide)
  · exact absurd (Str.isDigit_of_mem_toDigits h) (by decide)

theorem Quoting.lt_notMem (q : Quoting) : '<' ∉ q.mark := by
  cases q with
  | unquoted => decide
  | literal => decide
  | entity => decide

theorem PartElement.etag_lt (p : PartElement) :
    '<' ∉ p.beforeEtag.text ++ (p.quoting.mark ++ p.etag.toList ++ p.quoting.mark)
      ++ p.afterEtag.text := by
  simp only [List.mem_append, not_or]
  exact ⟨⟨p.beforeEtag.lt_notMem, ⟨p.quoting.lt_notMem, fun h => absurd (p.hex _ h) (by decide)⟩,
    p.quoting.lt_notMem⟩, p.afterEtag.lt_notMem⟩

theorem occurs_content (hn : Str.TagName n) : Str.occurs (Str.tag n []) (p.content ++ cs)
    = p.numberTags.tally "PartNumber" n + p.etagTags.tally "ETag" n
      + Str.occurs (Str.tag n []) cs := by
  have hnumber : ∀ cs, Str.occurs (Str.tag n []) (p.numberElement ++ cs)
      = p.numberTags.tally "PartNumber" n + Str.occurs (Str.tag n []) cs := fun cs =>
    occurs_leaf hn (by decide) p.numberTags p.digits_lt
  have hetag : ∀ cs, Str.occurs (Str.tag n []) (p.etagElement ++ cs)
      = p.etagTags.tally "ETag" n + Str.occurs (Str.tag n []) cs := fun cs =>
    occurs_leaf hn (by decide) p.etagTags p.etag_lt
  unfold PartElement.content
  rw [List.append_assoc, List.append_assoc, Str.occurs_text p.lead.lt_notMem]
  split
  · rw [List.append_assoc, List.append_assoc, hetag, Str.occurs_text p.middle.lt_notMem, hnumber,
      Str.occurs_text p.trail.lt_notMem]
    omega
  · rw [List.append_assoc, List.append_assoc, hnumber, Str.occurs_text p.middle.lt_notMem, hetag,
      Str.occurs_text p.trail.lt_notMem]
    omega

/-- The fields have no `Part` tag. -/
theorem tally_fields (hn : n ∈ ["Part".toList, "/Part".toList]) (t : TagPair) :
    t.tally "PartNumber" n = 0 ∧ t.tally "ETag" n = 0 := by
  have hnames : ∀ name ∈ ["PartNumber", "ETag"], ∀ n ∈ ["Part".toList, "/Part".toList],
      n ≠ name.toList ∧ n ≠ '/' :: name.toList := by decide
  exact ⟨t.tally_other (hnames _ (by decide) n hn), t.tally_other (hnames _ (by decide) n hn)⟩

theorem tagName_part (hn : n ∈ ["Part".toList, "/Part".toList]) : Str.TagName n := by
  have hnames : ∀ n ∈ ["Part".toList, "/Part".toList], Str.TagName n := by decide
  exact hnames n hn

theorem occurs_content_part (hn : n ∈ ["Part".toList, "/Part".toList]) :
    Str.occurs (Str.tag n []) (p.content ++ cs) = Str.occurs (Str.tag n []) cs := by
  rw [occurs_content (tagName_part hn), (tally_fields hn _).1, (tally_fields hn _).2, Nat.zero_add]

/-- Of the tags of a part only its own is a `Part` tag. -/
theorem occurs_part (hn : n ∈ ["Part".toList, "/Part".toList]) :
    Str.occurs (Str.tag n []) (p.text ++ cs)
      = p.tags.tally "Part" n + Str.occurs (Str.tag n []) cs := by
  unfold PartElement.text
  rw [List.append_assoc, occurs_wrap (tagName_part hn) (by decide), occurs_content_part hn,
    occurs_stop (tagName_part hn) (by decide), Str.occurs_text p.after.lt_notMem]
  unfold TagPair.tally
  omega

theorem occurs_parts (hn : n ∈ ["Part".toList, "/Part".toList]) (ps : List PartElement) :
    Str.occurs (Str.tag n []) (ps.flatMap (·.text) ++ cs)
      = (ps.map fun p => p.tags.tally "Part" n).sum + Str.occurs (Str.tag n []) cs := by
  induction ps with
  | nil => simp
  | cons p ps ih =>
    rw [List.flatMap_cons, List.append_assoc, occurs_part hn, ih, List.map_cons, List.sum_cons,
      Nat.add_assoc]

end

namespace CompletionDocument

/-- What stands before the parts. -/
def front (doc : CompletionDocument) : List Char :=
  doc.declarationText ++ (doc.head.text
    ++ (Str.tag "CompleteMultipartUpload".toList doc.root.rest ++ doc.lead.text))

/-- What stands after them. -/
def back (doc : CompletionDocument) : List Char :=
  Str.tag ('/' :: "CompleteMultipartUpload".toList) doc.root.stopSpace.text ++ doc.trail.text

theorem toList_text (doc : CompletionDocument) : doc.text.toList = doc.chars :=
  String.toList_ofList

theorem chars_eq (doc : CompletionDocument) :
    doc.chars = doc.front ++ (doc.parts.flatMap (·.text) ++ doc.back) := by
  unfold chars front back TagPair.wrap
  simp only [List.append_assoc]

/-- No part tag stands before the parts or after them. -/
theorem occurs_ends {n : List Char} (hn : n ∈ ["Part".toList, "/Part".toList])
    (doc : CompletionDocument) (cs : List Char) :
    Str.occurs (Str.tag n []) (doc.front ++ cs) = Str.occurs (Str.tag n []) cs ∧
      Str.occurs (Str.tag n []) doc.back = 0 := by
  have hname : Str.TagName n ∧ n ≠ "?xml".toList ∧ n ≠ "CompleteMultipartUpload".toList ∧
      n ≠ '/' :: "CompleteMultipartUpload".toList := by
    rcases List.mem_pair.mp hn with rfl | rfl
    · decide
    · decide
  have hdeclaration : ∀ cs, Str.occurs (Str.tag n []) (doc.declarationText ++ cs)
      = Str.occurs (Str.tag n []) cs := by
    intro cs
    unfold declarationText
    split
    · rfl
    next hne =>
      have hmark : '<' ∉ ['?'] := by decide
      have hrest := tagRest_attributes doc.declaration hmark fun h => absurd h hne
      rw [Str.occurs_tag hname.1 (by decide) hrest, if_neg fun h => hname.2.1 h.1, Nat.zero_add]
  constructor
  · unfold front
    rw [List.append_assoc, hdeclaration, List.append_assoc, Str.occurs_text doc.head.lt_notMem,
      List.append_assoc, Str.occurs_tag hname.1 (by decide) doc.root.tagRest,
      if_neg fun h => hname.2.2.1 h.1, Nat.zero_add, Str.occurs_text doc.lead.lt_notMem]
  · unfold back
    rw [Str.occurs_tag hname.1 (by decide) doc.root.stopSpace.tagRest,
      if_neg fun h => hname.2.2.2 h.1, Nat.zero_add, ← List.append_nil doc.trail.text,
      Str.occurs_text doc.trail.lt_notMem]
    rfl

theorem occurs_chars {n : List Char} (hn : n ∈ ["Part".toList, "/Part".toList])
    (doc : CompletionDocument) : Str.occurs (Str.tag n []) doc.chars
      = (doc.parts.map fun p => p.tags.tally "Part" n).sum := by
  rw [chars_eq, (occurs_ends hn doc _).1, occurs_parts hn, (occurs_ends hn doc []).2, Nat.add_zero]

end CompletionDocument

/-! ## The blocks that the scan takes -/

/-- Every block that the scan takes has a start tag and a stop tag of its own. -/
theorem length_between_le {start stop : List Char} (hs : start ≠ []) (ht : stop ≠ []) (fuel : Nat)
    (cs : List Char) : (between start stop fuel cs).length ≤ Str.occurs start cs ∧
      (between start stop fuel cs).length ≤ Str.occurs stop cs := by
  induction fuel generalizing cs with
  | zero => exact ⟨Nat.zero_le _, Nat.zero_le _⟩
  | succ fuel ih =>
    cases hfind : Str.findSub start cs with
    | none =>
      rw [between_nil stop (fuel + 1) hfind]
      exact ⟨Nat.zero_le _, Nat.zero_le _⟩
    | some p =>
      cases hstop : Str.findSub stop p.2 with
      | none =>
        rw [between, hfind]
        dsimp only
        rw [hstop]
        exact ⟨Nat.zero_le _, Nat.zero_le _⟩
      | some q =>
        rw [between_cons fuel hfind hstop, List.length_cons]
        have hcs : cs = p.1 ++ start ++ p.2 := (Str.findSub_eq_some.mp hfind).1
        have hp : p.2 = q.1 ++ stop ++ q.2 := (Str.findSub_eq_some.mp hstop).1
        have hcut : Str.occurs start (p.1 ++ start) + Str.occurs start p.2
            ≤ Str.occurs start cs := by
          rw [hcs]
          exact Str.occurs_append_le
        have hcut' : Str.occurs stop (q.1 ++ stop) + Str.occurs stop q.2
            ≤ Str.occurs stop p.2 := by
          rw [hp]
          exact Str.occurs_append_le
        have hstart : 1 ≤ Str.occurs start (p.1 ++ start) :=
          (Str.occurs_prefix hs List.prefix_rfl).trans Str.occurs_suffix
        have hstop' : 1 ≤ Str.occurs stop (q.1 ++ stop) :=
          (Str.occurs_prefix ht List.prefix_rfl).trans Str.occurs_suffix
        have hrest : Str.occurs start q.2 ≤ Str.occurs start p.2 := by
          rw [hp]
          exact Str.occurs_suffix
        have hrest' : Str.occurs stop p.2 ≤ Str.occurs stop cs := by
          rw [hcs]
          exact Str.occurs_suffix
        have := ih q.2
        omega

theorem TagPair.Plain.wrap_eq {tags : TagPair} (h : tags.Plain) (name : String)
    (body : List Char) : tags.wrap name body
      = Str.tag name.toList [] ++ (body ++ Str.tag ('/' :: name.toList) []) := by
  obtain ⟨hrest, hstop⟩ := TagPair.plain_iff.mp h
  unfold TagPair.wrap
  rw [hrest, hstop]

/-- Where the tags of the parts hold nothing, the blocks are what stands between them. -/
theorem between_parts {ps : List PartElement} (h : ∀ p ∈ ps, p.tags.Plain) {front back : List Char}
    (hfront : ∀ cs, Str.occurs (Str.tag "Part".toList []) (front ++ cs)
      = Str.occurs (Str.tag "Part".toList []) cs)
    (hback : Str.occurs (Str.tag "Part".toList []) back = 0) {fuel : Nat}
    (hfuel : (front ++ (ps.flatMap (·.text) ++ back)).length ≤ fuel) :
    between (Str.tag "Part".toList []) (Str.tag "/Part".toList []) fuel
        (front ++ (ps.flatMap (·.text) ++ back)) = ps.map (·.content) := by
  induction ps generalizing front fuel with
  | nil =>
    refine between_nil _ fuel (Str.findSub_eq_none.mpr ?_)
    rw [← Str.occurs_eq_zero (Str.tag_ne_nil _ _), hfront]
    exact hback
  | cons p ps ih =>
    rw [List.forall_mem_cons] at h
    have htext : front ++ ((p :: ps).flatMap (·.text) ++ back)
        = front ++ Str.tag "Part".toList [] ++ (p.content ++ Str.tag "/Part".toList []
          ++ (p.after.text ++ (ps.flatMap (·.text) ++ back))) := by
      rw [List.flatMap_cons, PartElement.text, h.1.wrap_eq]
      simp only [List.append_assoc]
      rfl
    have hstart : Str.occurs (Str.tag "Part".toList []) front = 0 := by
      rw [← List.append_nil front, hfront]
      rfl
    have hcontent : Str.occurs (Str.tag "/Part".toList []) p.content = 0 := by
      rw [← List.append_nil p.content, occurs_content_part (by decide)]
      rfl
    have hopen := Str.findSub_tag (by decide) hstart (p.content ++ Str.tag "/Part".toList []
      ++ (p.after.text ++ (ps.flatMap (·.text) ++ back)))
    have hclose := Str.findSub_tag (by decide) hcontent
      (p.after.text ++ (ps.flatMap (·.text) ++ back))
    rw [htext] at hfuel ⊢
    cases fuel with
    | zero =>
      rw [List.length_append, List.length_append] at hfuel
      exact absurd hfuel (by unfold Str.tag; simp)
    | succ fuel =>
      rw [between_cons fuel hopen hclose, ih h.2 (Str.occurs_text p.after.lt_notMem), List.map_cons]
      simp only [List.length_append] at hfuel ⊢
      have htag : 0 < (Str.tag "Part".toList []).length := Nat.succ_pos _
      omega

/-! ## The two fields of a part -/

theorem extractTag_eq (s name : String) : extractTag s name
    = ((Str.findSub (Str.tag name.toList []) s.toList).bind fun p =>
        (Str.findSub (Str.tag ('/' :: name.toList) []) p.2).map fun q => String.ofList q.1) := by
  have hstart : (s!"<{name}>").toList = Str.tag name.toList [] := by
    show ("<" ++ name ++ ">").toList = _
    rw [String.toList_append, String.toList_append, List.append_assoc]
    rfl
  have hstop : (s!"</{name}>").toList = Str.tag ('/' :: name.toList) [] := by
    show ("</" ++ name ++ ">").toList = _
    rw [String.toList_append, String.toList_append, List.append_assoc]
    rfl
  unfold extractTag
  rw [hstart, hstop]
  cases Str.findSub (Str.tag name.toList []) s.toList with
  | none => rfl
  | some p =>
    show (Str.findSub _ p.2).bind _ = (Str.findSub _ p.2).map _
    cases Str.findSub (Str.tag ('/' :: name.toList) []) p.2 with
    | none => rfl
    | some q => rfl

/-- A field is read only where both of its tags occur. -/
theorem occurs_of_extractTag {s name : String} (h : (extractTag s name).isSome) :
    1 ≤ Str.occurs (Str.tag name.toList []) s.toList ∧
      1 ≤ Str.occurs (Str.tag ('/' :: name.toList) []) s.toList := by
  rw [extractTag_eq] at h
  cases hstart : Str.findSub (Str.tag name.toList []) s.toList with
  | none =>
    rw [hstart] at h
    exact absurd h Bool.false_ne_true
  | some p =>
    rw [hstart, Option.bind_some, Option.isSome_map, Str.findSub_isSome (Str.tag_ne_nil _ _)] at h
    refine ⟨(Str.findSub_isSome (Str.tag_ne_nil _ _)).mp (by rw [hstart]; rfl), h.trans ?_⟩
    rw [(Str.findSub_eq_some.mp hstart).1]
    exact Str.occurs_suffix

/-- The body of the first element of that name, if nothing stands in its tags. -/
theorem extractTag_wrap {name : String} {tags : TagPair} {a body b : List Char}
    (htags : tags.Plain) (hname : Str.TagName name.toList)
    (ha : Str.occurs (Str.tag name.toList []) a = 0) (hbody : '<' ∉ body) :
    extractTag (String.ofList (a ++ (tags.wrap name body ++ b))) name
      = some (String.ofList body) := by
  have hstop : Str.TagName ('/' :: name.toList) := by
    rw [Str.tagName_iff] at hname ⊢
    exact List.forall_mem_cons.mpr ⟨by decide, hname⟩
  have hnone : Str.occurs (Str.tag ('/' :: name.toList) []) body = 0 := by
    rw [← List.append_nil body, Str.occurs_text hbody]
    rfl
  have htext : a ++ (tags.wrap name body ++ b)
      = a ++ Str.tag name.toList [] ++ (body ++ Str.tag ('/' :: name.toList) [] ++ b) := by
    rw [htags.wrap_eq]
    simp only [List.append_assoc]
  rw [extractTag_eq, String.toList_ofList, htext, Str.findSub_tag hname ha, Option.bind_some,
    Str.findSub_tag hstop hnone, Option.map_some]

namespace PartElement

variable (p : PartElement)

/-- What stands in the content before a field that is read. -/
theorem content_number : ∃ a b, p.content = a ++ (p.numberElement ++ b) ∧
    Str.occurs (Str.tag "PartNumber".toList []) a = 0 := by
  have hetag : p.etagTags.tally "ETag" "PartNumber".toList = 0 :=
    p.etagTags.tally_other (by decide)
  cases hfirst : p.etagFirst with
  | false =>
    refine ⟨p.lead.text, p.middle.text ++ p.etagElement ++ p.trail.text, ?_, ?_⟩
    · unfold content
      rw [hfirst]
      simp
    · rw [← List.append_nil p.lead.text, Str.occurs_text p.lead.lt_notMem]
      rfl
  | true =>
    refine ⟨p.lead.text ++ (p.etagElement ++ p.middle.text), p.trail.text, ?_, ?_⟩
    · unfold content
      rw [hfirst]
      simp
    · unfold etagElement
      rw [Str.occurs_text p.lead.lt_notMem, occurs_leaf (by decide) (by decide) _ p.etag_lt, hetag,
        ← List.append_nil p.middle.text, Str.occurs_text p.middle.lt_notMem]
      rfl

theorem content_etag : ∃ a b, p.content = a ++ (p.etagElement ++ b) ∧
    Str.occurs (Str.tag "ETag".toList []) a = 0 := by
  have hnumber : p.numberTags.tally "PartNumber" "ETag".toList = 0 :=
    p.numberTags.tally_other (by decide)
  cases hfirst : p.etagFirst with
  | true =>
    refine ⟨p.lead.text, p.middle.text ++ p.numberElement ++ p.trail.text, ?_, ?_⟩
    · unfold content
      rw [hfirst]
      simp
    · rw [← List.append_nil p.lead.text, Str.occurs_text p.lead.lt_notMem]
      rfl
  | false =>
    refine ⟨p.lead.text ++ (p.numberElement ++ p.middle.text), p.trail.text, ?_, ?_⟩
    · unfold content
      rw [hfirst]
      simp
    · unfold numberElement
      rw [Str.occurs_text p.lead.lt_notMem, occurs_leaf (by decide) (by decide) _ p.digits_lt,
        hnumber, ← List.append_nil p.middle.text, Str.occurs_text p.middle.lt_notMem]
      rfl

/-- White space around the number is trimmed, and the number is read. -/
theorem parse_number : Str.parseU32 (Str.trim (String.ofList (p.beforeNumber.text
    ++ (List.replicate p.zeros '0' ++ Nat.toDigits 10 p.number) ++ p.afterNumber.text)))
      = some p.number := by
  have hbare : Str.Bare Str.isWhitespace
      (List.replicate p.zeros '0' ++ Nat.toDigits 10 p.number) := by
    refine Str.bare_of_forall fun c hc => Str.not_isWhitespace_of_isDigit ?_
    rcases List.mem_append.mp hc with hc | hc
    · rw [List.eq_of_mem_replicate hc]
      decide
    · exact Str.isDigit_of_mem_toDigits hc
  unfold Str.trim
  rw [Str.trimMatches_append String.toList_ofList p.beforeNumber.isWhitespace hbare
    p.afterNumber.isWhitespace]
  exact Str.parseUnsigned_toDigits p.zeros p.number_lt

/-- What is read of an etag: entities are taken as they stand. -/
def readEtag : String :=
  if p.quoting = .entity then "&quot;" ++ p.etag ++ "&quot;" else p.etag

/-- No character of an etag or of its quotes is white space. -/
theorem quoted_white : ∀ c ∈ p.quoting.mark ++ p.etag.toList ++ p.quoting.mark,
    Str.isWhitespace c = false := by
  have hmark : p.quoting.mark.all (fun c => !Str.isWhitespace c) = true := by
    cases p.quoting with
    | unquoted => rfl
    | literal => rfl
    | entity => rfl
  have hmark' : ∀ c ∈ p.quoting.mark, Str.isWhitespace c = false := fun c hc => by
    simpa using List.all_eq_true.mp hmark c hc
  intro c hc
  rcases List.mem_append.mp hc with hc | hc
  · rcases List.mem_append.mp hc with hc | hc
    · exact hmark' c hc
    · exact (Str.hexDigit_spec (p.hex c hc)).1
  · exact hmark' c hc

theorem parse_etag : Str.trimMatches (· == '"') (Str.trim (String.ofList (p.beforeEtag.text
    ++ (p.quoting.mark ++ p.etag.toList ++ p.quoting.mark) ++ p.afterEtag.text)))
      = p.readEtag := by
  have hetag : ∀ c ∈ p.etag.toList, (c == '"') = false := fun c hc =>
    beq_eq_false_iff_ne.mpr (Str.hexDigit_spec (p.hex c hc)).2
  unfold Str.trim
  rw [Str.trimMatches_append String.toList_ofList p.beforeEtag.isWhitespace
    (Str.bare_of_forall p.quoted_white) p.afterEtag.isWhitespace]
  unfold readEtag
  cases hquoting : p.quoting with
  | unquoted =>
    rw [if_neg (by decide), Str.trimMatches_append (a := []) (b := []) (by simp [Quoting.mark])
      (by simp) (Str.bare_of_forall hetag) (by simp), String.ofList_toList]
  | literal =>
    rw [if_neg (by decide), Str.trimMatches_append (a := ['"']) (b := ['"'])
      (by simp [Quoting.mark]) (by simp) (Str.bare_of_forall hetag) (by simp),
      String.ofList_toList]
  | entity =>
    -- neither end of the text is a quote
    have hbare : Str.Bare (· == '"') ("&quot;".toList ++ p.etag.toList ++ "&quot;".toList) := by
      constructor
      · intro c hc
        obtain rfl : '&' = c := Option.some.inj hc
        rfl
      · intro c hc
        rw [List.getLast?_append] at hc
        obtain rfl : ';' = c := Option.some.inj hc
        rfl
    rw [if_pos rfl, Str.trimMatches_append (a := []) (b := []) (by simp [Quoting.mark])
      (by simp) hbare (by simp), ← String.toList_inj]
    simp only [String.toList_ofList, String.toList_append]

/-- Which parts are read, and as what. -/
theorem parsePart_content (hnumber : p.numberTags.Plain) (hetag : p.etagTags.Plain) :
    parsePart (String.ofList p.content) = some (p.number, p.readEtag) := by
  obtain ⟨a, b, hcontent, ha⟩ := p.content_number
  obtain ⟨a', b', hcontent', ha'⟩ := p.content_etag
  have h₁ := extractTag_wrap (b := b) hnumber (by decide) ha p.digits_lt
  have h₂ := extractTag_wrap (b := b') hetag (by decide) ha' p.etag_lt
  rw [← numberElement, ← hcontent] at h₁
  rw [← etagElement, ← hcontent'] at h₂
  unfold parsePart
  rw [h₁, h₂, Option.bind_some, p.parse_number]
  show some (p.number, Str.trimMatches (· == '"') (Str.trim (String.ofList _))) = _
  rw [p.parse_etag]

/-- A part is read only if the tags of its fields hold nothing. -/
theorem plain_of_parsePart (h : (parsePart (String.ofList p.content)).isSome) :
    p.numberTags.Plain ∧ p.etagTags.Plain := by
  have hfields : (extractTag (String.ofList p.content) "PartNumber").isSome ∧
      (extractTag (String.ofList p.content) "ETag").isSome := by
    unfold parsePart at h
    cases hn : extractTag (String.ofList p.content) "PartNumber" with
    | none =>
      rw [hn] at h
      exact absurd h Bool.false_ne_true
    | some s =>
      cases he : extractTag (String.ofList p.content) "ETag" with
      | some e => exact ⟨rfl, rfl⟩
      | none =>
        rw [hn, he] at h
        cases hp : Str.parseU32 (Str.trim s) with
        | none =>
          rw [Option.bind_some, hp] at h
          exact absurd h Bool.false_ne_true
        | some n =>
          rw [Option.bind_some, hp] at h
          exact absurd h Bool.false_ne_true
  have hcount : ∀ n, Str.TagName n → Str.occurs (Str.tag n []) (String.ofList p.content).toList
      = p.numberTags.tally "PartNumber" n + p.etagTags.tally "ETag" n := by
    intro n hn
    rw [String.toList_ofList, ← List.append_nil p.content, occurs_content hn]
    rfl
  have hnumber := occurs_of_extractTag hfields.1
  have hetag := occurs_of_extractTag hfields.2
  constructor
  · have hstart := hnumber.1.trans_eq (hcount "PartNumber".toList (by decide))
    have hstop := hnumber.2.trans_eq (hcount "/PartNumber".toList (by decide))
    rw [p.etagTags.tally_other (by decide), Nat.add_zero] at hstart hstop
    exact TagPair.plain_of_tally hstart hstop
  · have hstart := hetag.1.trans_eq (hcount "ETag".toList (by decide))
    have hstop := hetag.2.trans_eq (hcount "/ETag".toList (by decide))
    rw [p.numberTags.tally_other (by decide), Nat.zero_add] at hstart hstop
    exact TagPair.plain_of_tally hstart hstop

end PartElement

/-! ## What is read of a document -/

namespace CompletionDocument

variable {doc : CompletionDocument}

/-- Where the tags of the parts hold nothing, every part is read on its own. -/
theorem parseCompleteParts_of_tags (h : ∀ p ∈ doc.parts, p.tags.Plain) :
    parseCompleteParts doc.text
      = doc.parts.filterMap fun p => parsePart (String.ofList p.content) := by
  have hblocks : allBetween "<Part>" "</Part>" doc.text
      = (doc.parts.map (·.content)).map String.ofList := by
    unfold allBetween
    rw [toList_text, chars_eq]
    refine congrArg _ (between_parts h (fun cs => ?_) ?_ (Nat.le_refl _))
    · exact (occurs_ends (by decide) doc cs).1
    · exact (occurs_ends (by decide) doc []).2
  unfold parseCompleteParts
  rw [hblocks, List.map_map, List.filterMap_map]
  rfl

theorem one_le_of_length_le_sum {α : Type} {f : α → Nat} {xs : List α} (hle : ∀ x ∈ xs, f x ≤ 1)
    (hsum : xs.length ≤ (xs.map f).sum) : ∀ x ∈ xs, 1 ≤ f x := by
  induction xs with
  | nil => exact fun x hx => absurd hx List.not_mem_nil
  | cons y ys ih =>
    rw [List.forall_mem_cons] at hle ⊢
    rw [List.map_cons, List.sum_cons, List.length_cons] at hsum
    have hrest : (ys.map f).sum ≤ ys.length := by
      have := List.sum_le_card_nsmul (ys.map f) 1 (by simpa using hle.2)
      simpa using this
    exact ⟨by omega, ih hle.2 (by omega)⟩

/-- No more parts are read than have a start tag, or a stop tag, that holds nothing. -/
theorem length_parseCompleteParts_le {n : List Char} (hn : n ∈ ["Part".toList, "/Part".toList]) :
    (parseCompleteParts doc.text).length
      ≤ (doc.parts.map fun p => p.tags.tally "Part" n).sum := by
  have hlen := length_between_le (Str.tag_ne_nil "Part".toList [])
    (Str.tag_ne_nil "/Part".toList [])
    doc.text.toList.length doc.text.toList
  have hread : (parseCompleteParts doc.text).length ≤ (between (Str.tag "Part".toList [])
      (Str.tag "/Part".toList []) doc.text.toList.length doc.text.toList).length := by
    unfold parseCompleteParts allBetween
    exact (List.length_filterMap_le _ _).trans (List.length_map _).le
  rw [← occurs_chars hn]
  rw [toList_text] at hlen hread
  rcases List.mem_pair.mp hn with rfl | rfl
  · exact hread.trans hlen.1
  · exact hread.trans hlen.2

/-- As many parts are read as are listed only if all their tags hold nothing. -/
theorem plain_of_length (h : (parseCompleteParts doc.text).length = doc.parts.length) :
    ∀ p ∈ doc.parts, p.tags.Plain ∧ p.numberTags.Plain ∧ p.etagTags.Plain := by
  have hone : ∀ n ∈ ["Part".toList, "/Part".toList], ∀ p ∈ doc.parts,
      1 ≤ p.tags.tally "Part" n := by
    intro n hn
    refine one_le_of_length_le_sum (fun p _ => ?_) (h ▸ length_parseCompleteParts_le hn)
    unfold TagPair.tally
    rcases List.mem_pair.mp hn with rfl | rfl
    · rw [if_neg (c := _ = '/' :: _ ∧ _) fun he => absurd he.1 (by decide)]
      split <;> omega
    · rw [if_neg (c := _ = "Part".toList ∧ _) fun he => absurd he.1 (by decide)]
      split <;> omega
  have htags : ∀ p ∈ doc.parts, p.tags.Plain := fun p hp =>
    TagPair.plain_of_tally (hone _ (by decide) p hp) (hone _ (by decide) p hp)
  rw [parseCompleteParts_of_tags htags, List.length_filterMap_eq_countP, List.countP_eq_length] at h
  intro p hp
  exact ⟨htags p hp, p.plain_of_parsePart (h p hp)⟩

/-- What is read where the tags of the parts hold nothing but their names. -/
theorem parseCompleteParts_of_plain
    (h : ∀ p ∈ doc.parts, p.tags.Plain ∧ p.numberTags.Plain ∧ p.etagTags.Plain) :
    parseCompleteParts doc.text = doc.parts.map fun p => (p.number, p.readEtag) := by
  rw [parseCompleteParts_of_tags fun p hp => (h p hp).1, ← List.filterMap_eq_map]
  refine List.filterMap_congr fun p hp => ?_
  rw [p.parsePart_content (h p hp).2.1 (h p hp).2.2]
  rfl

/-- The list that a document is of is read from it if and only if the tags of its parts hold
nothing but their names and no etag stands in entities. -/
theorem parseCompleteParts_iff (doc : CompletionDocument) :
    parseCompleteParts doc.text = doc.list ↔ ∀ p ∈ doc.parts, p.Plain := by
  constructor
  · intro h
    have hlength : (parseCompleteParts doc.text).length = doc.parts.length := by
      rw [h]
      exact List.length_map _
    have hplain := plain_of_length hlength
    rw [parseCompleteParts_of_plain hplain] at h
    intro p hp
    obtain ⟨htags, hnumber, hetag⟩ := hplain p hp
    refine ⟨htags, hnumber, hetag, fun hentity => ?_⟩
    -- in entities the etag is read longer than it is
    have hread := (Prod.mk.inj (List.map_inj_left.mp h p hp)).2
    unfold PartElement.readEtag at hread
    rw [if_pos hentity] at hread
    have hlen := congrArg String.length hread
    rw [String.length_append, String.length_append] at hlen
    have hmark : "&quot;".length = 6 := rfl
    omega
  · intro h
    rw [parseCompleteParts_of_plain fun p hp => ⟨(h p hp).tags, (h p hp).numberTags,
      (h p hp).etagTags⟩]
    refine List.map_congr_left fun p hp => ?_
    unfold PartElement.readEtag
    rw [if_neg (h p hp).quoting]

/-! ### An attribute -/

private def noBlank : Blank := ⟨[], by simp⟩

private def oneBlank : Blank := ⟨[' '], by simp⟩

private def plainTags : TagPair := ⟨[], noBlank, noBlank⟩

/-- The attribute `id="1"`. -/
private def idAttribute : XmlAttribute where
  before := oneBlank
  apart := List.cons_ne_nil _ _
  name := ['i', 'd']
  named := by simp
  beforeEq := noBlank
  afterEq := noBlank
  single := false
  value := ['1']
  closed := by decide
  escaped := by decide

private def written (number : Nat) (h : number < 2 ^ 32) (tags : TagPair) : PartElement where
  number := number
  number_lt := h
  etag := "ab"
  hex := by
    have h : "ab".toList.all (fun c => (Str.hexDigit c).isSome) = true := by decide
    exact List.all_eq_true.mp h
  zeros := 0
  quoting := .literal
  etagFirst := false
  tags := tags
  numberTags := plainTags
  etagTags := plainTags
  beforeNumber := noBlank
  afterNumber := noBlank
  beforeEtag := noBlank
  afterEtag := noBlank
  lead := noBlank
  middle := noBlank
  trail := noBlank
  after := noBlank

/-- Two parts, the first of which is written with an attribute. -/
private def attributed : CompletionDocument where
  declaration := []
  head := noBlank
  root := plainTags
  lead := noBlank
  parts := [written 1 (by decide) ⟨[idAttribute], noBlank, noBlank⟩,
    written 2 (by decide) plainTags]
  trail := noBlank

example : attributed.text = "<CompleteMultipartUpload><Part id=\"1\"><PartNumber>1</PartNumber>"
    ++ "<ETag>\"ab\"</ETag></Part><Part><PartNumber>2</PartNumber><ETag>\"ab\"</ETag></Part>"
    ++ "</CompleteMultipartUpload>" := by decide +kernel

/-- The part with the attribute is left out, and the upload completes without it. -/
theorem attribute_drops_part : parseCompleteParts attributed.text = [(2, "ab")] ∧
    ¬∀ doc : CompletionDocument, parseCompleteParts doc.text = doc.list := by
  have hread : parseCompleteParts attributed.text = [(2, "ab")] := by decide +kernel
  refine ⟨hread, fun h => ?_⟩
  rw [h attributed] at hread
  exact absurd hread (by decide)

end CompletionDocument

end CeStorage
