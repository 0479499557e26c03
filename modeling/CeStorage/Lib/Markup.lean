import CeStorage.Lib.Scan

/-!
# Reading marked-up documents

A reader that knows nothing of the documents it reads: it cuts a text at its
tags, decodes the predefined entities in what stands between them, and nests the
elements. `Writes` says of a list of tags, each with the text after it, which
elements it writes; what is written element by element is read as the element
that it is (`read_written`).
-/

namespace CeStorage.Lib.Markup

/-- A tag without its brackets, and the text up to the next tag. -/
abbrev Piece := List Char × List Char

/-- A document cut at its tags. -/
def cut (doc : List Char) : Option (List Piece) :=
  match Str.split (· == '<') doc with
  | [] :: pieces => pieces.mapM (Str.findSub ['>'])
  | _ => none

/-- Replace the predefined entities. -/
def decode : List Char → Option (List Char)
  | [] => some []
  | '&' :: 'a' :: 'm' :: 'p' :: ';' :: cs => (decode cs).map ('&' :: ·)
  | '&' :: 'l' :: 't' :: ';' :: cs => (decode cs).map ('<' :: ·)
  | '&' :: 'g' :: 't' :: ';' :: cs => (decode cs).map ('>' :: ·)
  | '&' :: 'q' :: 'u' :: 'o' :: 't' :: ';' :: cs => (decode cs).map ('"' :: ·)
  | '&' :: 'a' :: 'p' :: 'o' :: 's' :: ';' :: cs => (decode cs).map ('\x27' :: ·)
  | '&' :: _ => none
  | c :: cs => (decode cs).map (c :: ·)

/-- An element: its name, the text directly in it, and the elements in it. -/
structure Element where
  name : List Char
  text : List Char
  children : List Element

/-- The element with more text and more elements in it. -/
def Element.more (e : Element) (text : List Char) (children : List Element) : Element :=
  ⟨e.name, e.text ++ text, e.children ++ children⟩

/-- Read one tag, and the text after it, with the elements that are open, the innermost first. -/
def step (stack : List Element) (piece : Piece) : Option (List Element) := do
  let text ← decode piece.2
  match piece.1 with
  | '/' :: name =>
    match stack with
    | top :: parent :: rest =>
      if top.name = name then some (parent.more text [top] :: rest) else none
    | _ => none
  | '?' :: _ =>
    match stack with
    | top :: rest => some (top.more text [] :: rest)
    | [] => none
  | name => some (⟨name, text, []⟩ :: stack)

/-- Read a document: its one outermost element. -/
def read (doc : List Char) : Option Element := do
  let pieces ← cut doc
  let stack ← pieces.foldlM step [⟨[], [], []⟩]
  match stack with
  | [⟨_, _, [root]⟩] => some root
  | _ => none

theorem decode_cons {c : Char} (h : c ≠ '&') (cs : List Char) :
    decode (c :: cs) = (decode cs).map (c :: ·) := by
  rw [decode]
  all_goals first | exact h | exact fun _ hamp _ => h hamp

theorem decode_plain {cs : List Char} (h : '&' ∉ cs) : decode cs = some cs := by
  induction cs with
  | nil => rfl
  | cons c cs ih =>
    rw [List.mem_cons, not_or] at h
    rw [decode_cons (Ne.symm h.1), ih h.2]
    rfl

/-! ## Documents from their pieces -/

/-- The document with these pieces. -/
def written (pieces : List Piece) : List Char :=
  pieces.flatMap fun piece => '<' :: (piece.1 ++ '>' :: piece.2)

/-- A document that is put together from such a piece is cut there again. -/
structure Piece.Clean (piece : Piece) : Prop where
  tag : '<' ∉ piece.1 ∧ '>' ∉ piece.1
  text : '<' ∉ piece.2

theorem split_notMem {sep : Char} {a : List Char} (h : sep ∉ a) : Str.split (· == sep) a = [a] := by
  induction a with
  | nil => rfl
  | cons c a ih =>
    rw [List.mem_cons, not_or] at h
    obtain ⟨w, ws, hws, hsplit⟩ := Str.split_other (Ne.symm h.1) a
    rw [ih h.2] at hws
    obtain ⟨rfl, rfl⟩ := List.cons.inj hws
    exact hsplit

theorem split_append_sep {sep : Char} {a : List Char} (h : sep ∉ a) (cs : List Char) :
    Str.split (· == sep) (a ++ sep :: cs) = a :: Str.split (· == sep) cs := by
  induction a with
  | nil => exact Str.split_sep sep cs
  | cons c a ih =>
    rw [List.mem_cons, not_or] at h
    obtain ⟨w, ws, hws, hsplit⟩ := Str.split_other (Ne.symm h.1) (a ++ sep :: cs)
    rw [ih h.2] at hws
    obtain ⟨rfl, rfl⟩ := List.cons.inj hws
    exact hsplit

theorem cut_written {pieces : List Piece} (h : ∀ piece ∈ pieces, piece.Clean) :
    cut (written pieces) = some pieces := by
  have hsplit : ∀ a, '<' ∉ a → Str.split (· == '<') (a ++ written pieces)
      = a :: pieces.map fun piece => piece.1 ++ '>' :: piece.2 := by
    induction pieces with
    | nil =>
      intro a ha
      rw [written, List.flatMap_nil, List.append_nil, split_notMem ha]
      rfl
    | cons piece pieces ih =>
      rw [List.forall_mem_cons] at h
      intro a ha
      have hbody : '<' ∉ piece.1 ++ '>' :: piece.2 := by
        rw [List.mem_append, List.mem_cons]
        rintro (hm | hm | hm)
        · exact h.1.tag.1 hm
        · exact absurd hm (by decide)
        · exact h.1.text hm
      have hwritten : written (piece :: pieces)
          = '<' :: (piece.1 ++ '>' :: piece.2 ++ written pieces) := by
        rw [written, List.flatMap_cons]
        rfl
      rw [hwritten, split_append_sep ha, ih h.2 _ hbody]
      rfl
  have hpieces : (pieces.map fun piece => piece.1 ++ '>' :: piece.2).mapM (Str.findSub ['>'])
      = some pieces := by
    clear hsplit
    induction pieces with
    | nil => rfl
    | cons piece pieces ih =>
      rw [List.forall_mem_cons] at h
      rw [List.map_cons, List.mapM_cons, Str.findSub_of_notMem h.1.tag.2, ih h.2]
      rfl
  unfold cut
  have hall := hsplit [] List.not_mem_nil
  rw [List.nil_append] at hall
  rw [hall]
  exact hpieces

/-! ## Elements from their pieces -/

/-- The pieces write the elements, into whatever element is open. -/
def Writes (pieces : List Piece) (elements : List Element) : Prop :=
  ∀ (top : Element) (rest : List Element), pieces.foldlM step (top :: rest)
    = some (top.more [] elements :: rest)

/-- A name that is written in a start tag. -/
def Name (name : List Char) : Prop := name.head? ≠ some '/' ∧ name.head? ≠ some '?'

instance (name : List Char) : Decidable (Name name) := inferInstanceAs (Decidable (_ ∧ _))

theorem Element.more_more (e : Element) (text text' : List Char) (xs ys : List Element) :
    (e.more text xs).more text' ys = e.more (text ++ text') (xs ++ ys) := by
  unfold more
  rw [List.append_assoc, List.append_assoc]

theorem step_start {name text text' : List Char} (hname : Name name)
    (htext : decode text = some text') (stack : List Element) :
    step stack (name, text) = some (⟨name, text', []⟩ :: stack) := by
  unfold step
  dsimp only
  rw [htext]
  show (match name with | '/' :: name => _ | '?' :: _ => _ | name => _) = _
  split
  · exact absurd rfl hname.1
  · exact absurd rfl hname.2
  · rfl

theorem step_stop {name : List Char} (top parent : Element) (h : top.name = name)
    (rest : List Element) :
    step (top :: parent :: rest) ('/' :: name, []) = some (parent.more [] [top] :: rest) := by
  unfold step decode
  exact if_pos h

theorem writes_nil : Writes [] [] := by
  rintro ⟨name, text, children⟩ rest
  rw [List.foldlM_nil, Element.more, List.append_nil, List.append_nil]
  rfl

theorem Writes.append {ps qs : List Piece} {xs ys : List Element} (hp : Writes ps xs)
    (hq : Writes qs ys) : Writes (ps ++ qs) (xs ++ ys) := by
  intro top rest
  rw [List.foldlM_append, hp]
  show qs.foldlM step _ = _
  rw [hq, Element.more_more]
  rfl

/-- The pieces of an element with text in it. -/
def leaf (name text : List Char) : List Piece := [(name, text), ('/' :: name, [])]

/-- The pieces of an element with elements in it. -/
def node (name : List Char) (inner : List Piece) : List Piece :=
  (name, []) :: (inner ++ [('/' :: name, [])])

theorem clean_stop {name : List Char} (hname : '<' ∉ name ∧ '>' ∉ name) :
    Piece.Clean ('/' :: name, []) := by
  refine ⟨?_, List.not_mem_nil⟩
  rw [List.mem_cons, List.mem_cons, not_or, not_or]
  exact ⟨⟨by decide, hname.1⟩, by decide, hname.2⟩

theorem clean_leaf {name text : List Char} (hname : '<' ∉ name ∧ '>' ∉ name) (htext : '<' ∉ text) :
    ∀ piece ∈ leaf name text, piece.Clean := by
  intro piece h
  rcases List.mem_pair.mp h with rfl | rfl
  · exact ⟨hname, htext⟩
  · exact clean_stop hname

theorem clean_node {name : List Char} {inner : List Piece} (hname : '<' ∉ name ∧ '>' ∉ name)
    (h : ∀ piece ∈ inner, piece.Clean) : ∀ piece ∈ node name inner, piece.Clean := by
  unfold node
  rw [List.forall_mem_cons, List.forall_mem_append, List.forall_mem_singleton]
  exact ⟨⟨hname, List.not_mem_nil⟩, h, clean_stop hname⟩

theorem writes_leaf {name text text' : List Char} (hname : Name name)
    (htext : decode text = some text') : Writes (leaf name text) [⟨name, text', []⟩] := by
  intro top rest
  unfold leaf
  rw [List.foldlM_cons, step_start hname htext]
  show [('/' :: name, [])].foldlM step (_ :: _) = _
  rw [List.foldlM_cons, step_stop _ _ rfl]
  rfl

theorem Writes.node {name : List Char} {inner : List Piece} {xs : List Element} (hname : Name name)
    (h : Writes inner xs) : Writes (Markup.node name inner) [⟨name, [], xs⟩] := by
  intro top rest
  unfold Markup.node
  rw [List.foldlM_cons, step_start hname rfl]
  show (inner ++ [('/' :: name, [])]).foldlM step (_ :: _) = _
  have hstop : step ((⟨name, [], []⟩ : Element).more [] xs :: top :: rest) ('/' :: name, [])
      = some (top.more [] [(⟨name, [], []⟩ : Element).more [] xs] :: rest) :=
    step_stop _ _ rfl rest
  rw [List.foldlM_append, h]
  show [('/' :: name, [])].foldlM step (_ :: _) = _
  rw [List.foldlM_cons, hstop]
  rfl

theorem writes_flatMap {α : Type} {f : α → List Piece} {g : α → Element}
    (h : ∀ a, Writes (f a) [g a]) (as : List α) : Writes (as.flatMap f) (as.map g) := by
  induction as with
  | nil => exact writes_nil
  | cons a as ih =>
    rw [List.flatMap_cons, List.map_cons]
    exact (h a).append ih

/-- A document is read as the element that its pieces write. -/
theorem read_written {pieces : List Piece} {root : Element} (hclean : ∀ p ∈ pieces, p.Clean)
    (h : Writes pieces [root]) : read (written pieces) = some root := by
  unfold read
  rw [cut_written hclean]
  show (pieces.foldlM step [⟨[], [], []⟩]).bind _ = _
  rw [h]
  rfl

end CeStorage.Lib.Markup
