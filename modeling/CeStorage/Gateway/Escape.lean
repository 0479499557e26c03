import CeStorage.Gateway.Http
import CeStorage.Lib.Markup

/-!
# Escaping (`gateway.rs`)

`xml_escape` makes four replacements, one after the other. They come to one
replacement for each character, which leaves no `<` and is undone by a reader
that decodes the predefined entities (`decode_xmlEscape`).
-/

namespace CeStorage

open Lib

/-- What `xmlEscape` makes of one character. -/
def escapeChar (c : Char) : List Char :=
  if c = '&' then "&amp;".toList
  else if c = '<' then "&lt;".toList
  else if c = '>' then "&gt;".toList
  else if c = '"' then "&quot;".toList
  else [c]

/-- No character of the text is one that is escaped. -/
def PlainText (s : String) : Prop := ∀ c ∈ s.toList, c ∉ ['&', '<', '>', '"']

instance (s : String) : Decidable (PlainText s) :=
  inferInstanceAs (Decidable (∀ c ∈ s.toList, c ∉ ['&', '<', '>', '"']))

theorem toList_replaceChar (c : Char) (r s : String) :
    (Str.replaceChar c r s).toList = s.toList.flatMap fun x => if x = c then r.toList else [x] :=
  String.toList_ofList

/-- The four replacements come to one, character by character: what one puts in,
the later ones leave alone. -/
theorem toList_xmlEscape (s : String) : (xmlEscape s).toList = s.toList.flatMap escapeChar := by
  unfold xmlEscape
  rw [toList_replaceChar, toList_replaceChar, toList_replaceChar, toList_replaceChar,
    List.flatMap_assoc, List.flatMap_assoc, List.flatMap_assoc]
  refine congrArg (s.toList.flatMap ·) (funext fun c => ?_)
  unfold escapeChar
  split
  · rfl
  · rw [List.flatMap_singleton]
    split
    · rfl
    · rw [List.flatMap_singleton]
      split
      · rfl
      · rw [List.flatMap_singleton]

theorem lt_notMem_escapeChar (c : Char) : '<' ∉ escapeChar c := by
  unfold escapeChar
  split
  · decide
  · split
    · decide
    next h =>
      split
      · decide
      · split
        · decide
        · rw [List.mem_singleton]
          exact Ne.symm h

theorem lt_notMem_xmlEscape (s : String) : '<' ∉ (xmlEscape s).toList := by
  rw [toList_xmlEscape, List.mem_flatMap]
  rintro ⟨c, -, hc⟩
  exact lt_notMem_escapeChar c hc

/-- Escaping makes a character longer or leaves it as it is. -/
theorem escapeChar_length (c : Char) :
    1 < (escapeChar c).length ∧ c ∈ ['&', '<', '>', '"'] ∨
      escapeChar c = [c] ∧ c ∉ ['&', '<', '>', '"'] := by
  unfold escapeChar
  grind

theorem length_flatMap_escapeChar (cs : List Char) :
    cs.length ≤ (cs.flatMap escapeChar).length := by
  induction cs with
  | nil => exact Nat.le_refl 0
  | cons c cs ih =>
    rw [List.flatMap_cons, List.length_append, List.length_cons]
    rcases escapeChar_length c with ⟨h, -⟩ | ⟨h, -⟩
    · omega
    · rw [h, List.length_singleton]
      omega

/-- Only a text with nothing to escape is its own escape. -/
theorem xmlEscape_eq_self {s : String} : xmlEscape s = s ↔ PlainText s := by
  rw [← String.toList_inj, toList_xmlEscape]
  unfold PlainText
  induction s.toList with
  | nil => simp
  | cons c cs ih =>
    rw [List.flatMap_cons, List.forall_mem_cons]
    rcases escapeChar_length c with ⟨hlong, hc⟩ | ⟨hsame, hc⟩
    · refine iff_of_false (fun h => ?_) fun h => h.1 hc
      have hlen := congrArg List.length h
      rw [List.length_append, List.length_cons] at hlen
      have := length_flatMap_escapeChar cs
      omega
    · rw [hsame, List.singleton_append, List.cons_inj_right, ih]
      exact (and_iff_right hc).symm

/-! ## Reading it back -/

theorem decode_escapeChar (c : Char) (cs : List Char) :
    Markup.decode (escapeChar c ++ cs) = (Markup.decode cs).map (c :: ·) := by
  unfold escapeChar
  split
  next h => rw [h]; rfl
  next hamp =>
    split
    next h => rw [h]; rfl
    next =>
      split
      next h => rw [h]; rfl
      next =>
        split
        next h => rw [h]; rfl
        next => exact Markup.decode_cons hamp cs

/-- What is escaped is decoded again, in front of any text. -/
theorem decode_xmlEscape (s : String) (cs : List Char) :
    Markup.decode ((xmlEscape s).toList ++ cs) = (Markup.decode cs).map (s.toList ++ ·) := by
  rw [toList_xmlEscape]
  induction s.toList with
  | nil => exact Option.map_id'.symm
  | cons c rest ih =>
    rw [List.flatMap_cons, List.append_assoc, decode_escapeChar, ih, Option.map_map]
    rfl

end CeStorage
