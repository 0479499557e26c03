import CeStorage.Durable
import CeStorage.Gateway.Escape
import CeStorage.Gateway.Writes
import CeStorage.Lib.Utf8

/-!
# Bulk deletes (`gateway.rs`)

`parse_delete_keys` scans a Delete document for its `<Key>` elements and takes
what stands in them as it is. A `DeleteDocument` holds its keys escaped, so what
it reads are the escaped keys (`parseDeleteKeys_text`), and a bulk delete is of
exactly the document's keys when escaping changes none of them
(`bulk_delete_iff`).
-/

namespace CeStorage

open Lib
open Std (ExtTreeMap)

/-! ## Delete documents -/

/-- Text of a document outside its `<Key>` elements. -/
structure Markup where
  text : String
  noKey : ¬ "<Key>".toList <:+: text.toList

/-- An S3 Delete document: its `<Key>` elements, each with the text that follows. -/
structure DeleteDocument where
  head : Markup
  elements : List (String × Markup)

namespace DeleteDocument

/-- The keys that the document lists. -/
def keys (doc : DeleteDocument) : List String := doc.elements.map (·.1)

/-- One element and what follows: the key stands in it escaped. -/
def element (e : String × Markup) : String :=
  "<Key>" ++ xmlEscape e.1 ++ "</Key>" ++ e.2.text

def text (doc : DeleteDocument) : String :=
  doc.head.text ++ String.join (doc.elements.map element)

end DeleteDocument

/-- The scan takes one element whole. -/
theorem between_element {head body : List Char} (hhead : ¬ "<Key>".toList <:+: head)
    (hbody : '<' ∉ body) (rest : List Char) (fuel : Nat) :
    between "<Key>".toList "</Key>".toList (fuel + 1)
        (head ++ "<Key>".toList ++ (body ++ "</Key>".toList ++ rest))
      = body :: between "<Key>".toList "</Key>".toList fuel rest := by
  have hclose : ¬ "</Key>".toList <:+: body :=
    fun h => hbody (h.subset (by decide))
  have hopen : Str.findSub "<Key>".toList (head ++ "<Key>".toList
      ++ (body ++ "</Key>".toList ++ rest)) = some (head, body ++ "</Key>".toList ++ rest) :=
    Str.findSub_skip (c := '<') (by decide) hhead _
  have hend : Str.findSub "</Key>".toList (body ++ "</Key>".toList ++ rest) = some (body, rest) :=
    Str.findSub_skip (c := '<') (by decide) hclose _
  exact between_cons fuel hopen hend

/-- The scan of a document, with as many rounds as it has characters. -/
theorem between_elements (elements : List (String × Markup)) {head : List Char}
    (hhead : ¬ "<Key>".toList <:+: head) {fuel : Nat}
    (hfuel : (head ++ (String.join (elements.map DeleteDocument.element)).toList).length ≤ fuel) :
    between "<Key>".toList "</Key>".toList fuel
        (head ++ (String.join (elements.map DeleteDocument.element)).toList)
      = elements.map fun e => (xmlEscape e.1).toList := by
  induction elements generalizing head fuel with
  | nil => exact between_nil _ fuel (Str.findSub_eq_none.mpr (by simpa [String.join] using hhead))
  | cons e es ih =>
    have htext : head ++ (String.join ((e :: es).map DeleteDocument.element)).toList
        = head ++ "<Key>".toList ++ ((xmlEscape e.1).toList ++ "</Key>".toList
          ++ (e.2.text.toList ++ (String.join (es.map DeleteDocument.element)).toList)) := by
      rw [List.map_cons, String.join_cons]
      unfold DeleteDocument.element
      simp only [String.toList_append, List.append_assoc]
    rw [htext] at hfuel ⊢
    cases fuel with
    | zero => simp at hfuel
    | succ fuel =>
      rw [between_element hhead (lt_notMem_xmlEscape e.1), ih e.2.noKey, List.map_cons]
      simp only [List.length_append] at hfuel ⊢
      have htag : "<Key>".toList.length = 5 := rfl
      omega

/-- The handler reads the keys of a document as they stand in it, escaped. -/
theorem parseDeleteKeys_text {doc : DeleteDocument} (h : doc.elements ≠ []) :
    parseDeleteKeys doc.text = doc.keys.map xmlEscape := by
  have hscan : allBetween "<Key>" "</Key>" doc.text = doc.keys.map xmlEscape := by
    unfold allBetween DeleteDocument.text DeleteDocument.keys
    rw [String.toList_append, between_elements doc.elements doc.head.noKey (Nat.le_refl _),
      List.map_map, List.map_map]
    exact List.map_congr_left fun e _ => String.ofList_toList
  unfold parseDeleteKeys
  rw [if_pos, hscan]
  rw [Option.isSome_iff_ne_none, ne_eq, Str.findSub_eq_none, not_not]
  obtain ⟨e, es, hes⟩ := List.exists_cons_of_ne_nil h
  unfold DeleteDocument.text
  rw [hes, List.map_cons, String.join_cons, DeleteDocument.element]
  refine ⟨doc.head.text.toList, (xmlEscape e.1 ++ "</Key>" ++ e.2.text
    ++ String.join (es.map DeleteDocument.element)).toList, ?_⟩
  simp only [String.toList_append, List.append_assoc]

/-- It reads the document's keys if escaping changed none of them. -/
theorem parseDeleteKeys_iff {doc : DeleteDocument} (h : doc.elements ≠ []) :
    parseDeleteKeys doc.text = doc.keys ↔ ∀ k ∈ doc.keys, PlainText k := by
  rw [parseDeleteKeys_text h]
  conv_lhs => rhs; rw [← List.map_id doc.keys]
  rw [List.map_inj_left]
  exact forall₂_congr fun k _ => xmlEscape_eq_self

/-! ## The request -/

/-- A POST of the document to a bucket, which the gateway lets through. -/
structure BulkRequest (gw : Gateway) (req : HttpRequest) (now : Nat) (b : String)
    (doc : DeleteDocument) : Prop where
  path : req.path = .bucket b
  method : req.method = .post
  query : req.query.contains "delete" = true
  body : req.body = Str.utf8 doc.text
  size : req.body.length ≤ gw.bodyLimit
  authorized : gw.authorize req now ⟨abilityWrite, b, ""⟩ = .ok ()

/-- The answer that reports each of the keys as deleted. -/
def deletedAnswer (keys : List String) : Response :=
  .xml 200 ("<?xml version=\"1.0\" encoding=\"UTF-8\"?><DeleteResult>"
    ++ String.join (keys.map fun k => s!"<Deleted><Key>{xmlEscape k}</Key></Deleted>")
    ++ "</DeleteResult>")

/-- The request deletes the keys of a bucket and nothing else, and says so. -/
structure DeletesExactly (ce : CeRs) (gw : Gateway) (req : HttpRequest) (env : Env) (s : Store)
    (w : World) (i : Index) (b : String) (on : Bool) (keys : List String) : Prop where
  parsed : parseDeleteKeys (Str.fromUtf8Lossy req.body) = keys
  reported : (serve ce gw req env s w).response = deletedAnswer keys
  saved : ∃ j : Index, (serve ce gw req env s w).world.files .index = some (.index j) ∧
    (∀ k ∈ keys, j.history b k = Index.deleteHistory on env.now (i.history b k)) ∧
    ∀ b' k', ¬(b' = b ∧ k' ∈ keys) → j.history b' k' = i.history b' k'

section
variable {ce : CeRs} {gw : Gateway} {req : HttpRequest} {env : Env} {s : Store} {w : World}
  {i : Index} {b : String} {on : Bool} {doc : DeleteDocument}

/-- Deleting some keys of a bucket that is there, on disk that works. -/
theorem deleteObjects_exec {keys : List String} (hlock : env.lock = .ok ())
    (hload : env.loadIndex w = .ok i) (hsave : env.saveFails .index = none)
    (hon : i.isVersioned b = .ok on) :
    (Store.deleteObjects b keys).exec ce env s w
      = ((.ok (keys.map fun k => (k, .ok ())), { s with index := i.deleteAll b env.now keys }),
          w.saved .index s.pid (.index (i.deleteAll b env.now keys))) := by
  obtain ⟨bk, hb, -⟩ := Index.isVersioned_eq_ok.mp hon
  rw [Op.exec_of_lock hlock, exec_deleteObjects]
  unfold Env.transact
  rw [hload]
  dsimp only
  rw [Index.bucket_eq_ok.mpr hb]
  unfold Env.commit
  rw [hsave]
  rfl

/-- The handler, past its checks. -/
theorem bulkDelete_eq (hquery : req.query.contains "delete" = true)
    (hne : parseDeleteKeys (Str.fromUtf8Lossy req.body) ≠ []) :
    ∃ respond, Gateway.bulkDelete b req = .check ⟨abilityWrite, b, ""⟩
        (.call (fun _ => Store.deleteObjects b (parseDeleteKeys (Str.fromUtf8Lossy req.body)))
          respond) ∧
      ∀ keys st, respond (.ok (keys.map fun k => (k, .ok ()))) st = deletedAnswer keys := by
  unfold Gateway.bulkDelete
  dsimp only
  rw [hquery, if_neg (by decide), if_neg (by rwa [List.isEmpty_iff])]
  refine ⟨_, rfl, fun keys st => ?_⟩
  dsimp only
  rw [List.map_map]
  rfl

variable (ce s) in
/-- A bulk delete deletes the keys that it reads. -/
theorem serve_bulkDelete (hreq : BulkRequest gw req env.now b doc)
    (hne : parseDeleteKeys doc.text ≠ []) (hlock : env.lock = .ok ())
    (hload : env.loadIndex w = .ok i) (hsave : env.saveFails .index = none)
    (hon : i.isVersioned b = .ok on) :
    (serve ce gw req env s w).response = deletedAnswer (parseDeleteKeys doc.text) ∧
      (serve ce gw req env s w).world.files .index
        = some (.index (i.deleteAll b env.now (parseDeleteKeys doc.text))) := by
  have htext : Str.fromUtf8Lossy req.body = doc.text := by
    rw [hreq.body, Str.fromUtf8Lossy_utf8]
  obtain ⟨respond, hbulk, hrespond⟩ := bulkDelete_eq (b := b) hreq.query (by rwa [htext])
  rw [htext] at hbulk
  have hroute : gw.route ce req = Gateway.bulkDelete b req := by
    unfold Gateway.route Gateway.withBody
    rw [hreq.path, hreq.method]
    dsimp only
    rw [if_neg (Nat.not_lt.mpr hreq.size)]
  unfold serve
  rw [hroute, hbulk]
  rw [(Gate.run_check hreq.authorized).1, (Gate.run_check hreq.authorized).2]
  show respond ((Store.deleteObjects b _).exec ce env s w).1.1 _ = _ ∧
    ((Store.deleteObjects b _).exec ce env s w).2.files .index = _
  rw [deleteObjects_exec hlock hload hsave hon]
  exact ⟨hrespond _ _, by rw [World.files_saved, Function.update_self]⟩

/-- A bulk delete of a document is of exactly the document's keys if and only if
escaping changes none of them. -/
theorem bulk_delete_iff (hreq : BulkRequest gw req env.now b doc) (hne : doc.elements ≠ [])
    (hlock : env.lock = .ok ()) (hload : env.loadIndex w = .ok i)
    (hsave : env.saveFails .index = none) (hon : i.isVersioned b = .ok on) :
    DeletesExactly ce gw req env s w i b on doc.keys ↔ ∀ k ∈ doc.keys, PlainText k := by
  have htext : Str.fromUtf8Lossy req.body = doc.text := by
    rw [hreq.body, Str.fromUtf8Lossy_utf8]
  rw [← parseDeleteKeys_iff hne]
  constructor
  · intro h
    rw [← htext]
    exact h.parsed
  · intro hparse
    have hkeys : doc.keys ≠ [] := by
      unfold DeleteDocument.keys
      rwa [ne_eq, List.map_eq_nil_iff]
    obtain ⟨hresponse, hfile⟩ := serve_bulkDelete ce s hreq (by rwa [hparse]) hlock hload hsave hon
    rw [hparse] at hresponse hfile
    refine ⟨by rw [htext, hparse], hresponse, _, hfile, fun k hk => ?_, fun b' k' hnot => ?_⟩
    · rw [Index.history_deleteAll _ hon, if_pos hk]
    · by_cases hb : b = b'
      · subst hb
        rw [Index.history_deleteAll _ hon, if_neg fun hk => hnot ⟨rfl, hk⟩]
      · exact Index.history_deleteAll_other _ hb

end

/-! ### Documents with few keys -/

private def objectOpen : Markup := ⟨"<Delete><Object>", by decide⟩

private def objectClose : Markup := ⟨"</Object></Delete>", by decide⟩

private def deleteOne (k : String) : DeleteDocument := ⟨objectOpen, [(k, objectClose)]⟩

private def postDelete (doc : DeleteDocument) : HttpRequest :=
  { method := .post, path := .bucket "photos", headers := []
    query := (∅ : ExtTreeMap _ _).insert "delete" "", body := Str.utf8 doc.text }

private def wideOpen (req : HttpRequest) : Gateway := ⟨none, req.body.length⟩

private def oneInPhotos (k : String) : Index :=
  ((Index.empty.makeBucket "photos" 0).2.put "photos" k (ObjectMeta.new "one" 1 "" 5)).2

private def diskWith (k : String) : World :=
  World.blank.setFile .index (some (.index (oneInPhotos k)))

private def atNoon : Env := Env.calm CeRs.plain 9 "u"

private theorem postDelete_bulk (doc : DeleteDocument) :
    BulkRequest (wideOpen (postDelete doc)) (postDelete doc) atNoon.now "photos" doc where
  path := rfl
  method := rfl
  query := rfl
  body := rfl
  size := Nat.le_refl _
  authorized := rfl

set_option maxRecDepth 8000 in
/-- The document that lists `a&b` deletes `a&amp;b`. -/
theorem escaped_key_not_deleted : ¬∀ (ce : CeRs) (gw : Gateway) (req : HttpRequest) (env : Env)
    (s : Store) (w : World) (i : Index) (b : String) (on : Bool) (doc : DeleteDocument),
      BulkRequest gw req env.now b doc → doc.elements ≠ [] →
      (∀ k ∈ doc.keys, validKey k = .ok ()) → env.lock = .ok () → env.loadIndex w = .ok i →
      env.saveFails .index = none → i.isVersioned b = .ok on →
        DeletesExactly ce gw req env s w i b on doc.keys := by
  intro h
  let doc := deleteOne "a&b"
  have hdeletes := h CeRs.plain (wideOpen (postDelete doc)) (postDelete doc) atNoon (.fresh 1)
    (diskWith "a&b") (oneInPhotos "a&b") "photos" false doc (postDelete_bulk doc)
    (List.cons_ne_nil _ _) (by decide) rfl rfl rfl rfl
  have hparsed := hdeletes.parsed
  rw [(postDelete_bulk doc).body, Str.fromUtf8Lossy_utf8] at hparsed
  have hplain := (parseDeleteKeys_iff (List.cons_ne_nil _ _)).mp hparsed "a&b"
    (List.mem_singleton_self _)
  exact hplain '&' (by decide) (by decide)

/-- `dog` before `cat`, with white space between the elements. -/
private def deleteTwo : DeleteDocument :=
  ⟨objectOpen, [("dog", ⟨"</Object>\n<Object>", by decide⟩), ("cat", objectClose)]⟩

private def threeInPhotos : Index :=
  (((oneInPhotos "cat").put "photos" "dog" (ObjectMeta.new "two" 2 "" 6)).2.put "photos" "owl"
    (ObjectMeta.new "three" 3 "" 7)).2

private def diskWithThree : World := World.blank.setFile .index (some (.index threeInPhotos))

set_option maxRecDepth 8000 in
theorem bulk_delete_two : DeletesExactly CeRs.plain (wideOpen (postDelete deleteTwo))
    (postDelete deleteTwo) atNoon (.fresh 1) diskWithThree threeInPhotos "photos" false
    deleteTwo.keys := by
  refine (bulk_delete_iff (postDelete_bulk deleteTwo) (List.cons_ne_nil _ _)
    rfl rfl rfl rfl).mpr fun k hk => ?_
  rcases List.mem_pair.mp hk with rfl | rfl <;> simp [PlainText]

end CeStorage
