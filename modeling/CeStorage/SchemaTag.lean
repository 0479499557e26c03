import CeStorage.Persisted
import CeStorage.Store.Edits
import CeStorage.Uploads

/-!
# The schema tag of the index file (`index.rs`)

`Index::load` keeps the tag it finds, and every save writes the tag of the index
that was loaded. So the tag of the first file is the tag of all that follow, while
the entries are written in the current shape from the first save on: a store that
starts from a file tagged as older labels the new shape as the old one
(`old_tag_kept`), and a store that starts from any other file never does
(`saves_tagged_iff`).
-/

namespace CeStorage

open Lib Json

variable {ce : CeRs} {file : Option Json} {i : Index} {w₀ w : World}

/-! ## Tags -/

/-- The schema tag of an index file, if it has one. -/
def schemaTag (file : Json) : Option Nat :=
  match ((structFields ["schema", "buckets"] file).getD []).filter fun p => p.1 = "schema" with
  | [(_, unsigned n)] => some n
  | _ => none

/-- What an index file is to `Index::load`. -/
def indexText (file : Json) : Text :=
  match Index.ofJson file with
  | some i => .index i
  | none => .torn

theorem schemaTag_toJson (i : Index) : schemaTag i.toJson = some i.schema := rfl

/-- The schema that is read is the tag, or the current one if there is none. -/
theorem schema_of_tag {f : Json} (h : Index.ofJson f = some i) :
    i.schema = (schemaTag f).getD schemaVersion := by
  obtain ⟨fields, hfields, h⟩ := Option.bind_eq_some_iff.mp h
  obtain ⟨schema, hschema, h⟩ := Option.bind_eq_some_iff.mp h
  obtain ⟨buckets, -, h⟩ := Option.bind_eq_some_iff.mp h
  obtain rfl := Option.some.inj h
  unfold defaulted at hschema
  unfold schemaTag
  rw [hfields, Option.getD_some]
  split at hschema
  next hnone =>
    rw [hnone]
    exact (Option.some.inj hschema).symm
  next p hone =>
    obtain ⟨name, j⟩ := p
    rw [hone]
    cases j with
    | unsigned n =>
      obtain ⟨-, hn⟩ := Option.ite_none_right_eq_some.mp hschema
      exact (Option.some.inj hn).symm
    | null | bool | number | string | array | object =>
      have hnone : none = some schema := hschema
      cases hnone
  next => cases hschema

theorem Index.decode_index {j j' : Index} (h : Index.decode (some (.index j)) = .ok j') :
    j = j' := by
  by_cases hnew : schemaVersion < j.schema
  · cases (if_pos hnew).symm.trans h
  · exact Except.ok.inj ((if_neg hnew).symm.trans h)

/-- An accepted file is missing, or an index with its tag or the current one. -/
theorem accepted_schema (h : Index.decode (file.map indexText) = .ok i) :
    i.schema = (file.bind schemaTag).getD schemaVersion := by
  cases file with
  | none =>
    obtain rfl := Except.ok.inj h
    rfl
  | some f =>
    cases hf : Index.ofJson f with
    | none => simp [indexText, hf, Index.decode] at h
    | some i' =>
      simp only [indexText, hf, Option.map_some] at h
      rw [← Index.decode_index h]
      exact schema_of_tag hf

/-! ## Calls that save -/

namespace Invocation

/-- The world after a call. -/
def after (ce : CeRs) (e : Invocation) (w : World) : World :=
  (e.call.exec ce e.env e.handle w).2

def fire (ce : CeRs) (e : Invocation) (w : World) : Option World := some (e.after ce w)

/-- The call renames a temp file onto the index file, which then holds `j`. -/
structure Saves (ce : CeRs) (e : Invocation) (w : World) (j : Index) : Prop where
  lock : e.env.lock = .ok ()
  rename : ∃ pid, Call.rename .index pid ∈
    ((e.call.op ce e.handle).prog e.handle).trace (perform ce e.env) w
  renamed : e.env.saveFails .index ≠ some .rename
  saved : (e.after ce w).files .index = some (.index j)

end Invocation

/-- The index file can be loaded, and has that schema. -/
def World.Tagged (w : World) (schema : Nat) : Prop :=
  ∃ j, Index.decode (w.files .index) = .ok j ∧ j.schema = schema

theorem World.Tagged.after {schema : Nat} (h : w.Tagged schema) (e : Invocation) :
    (e.after ce w).Tagged schema := by
  obtain ⟨i, hi, hschema⟩ := h
  rcases index_cases ce e.env e.call e.handle w with hsame | ⟨i', j, hi', -, hj, hed⟩
  · exact ⟨i, (congrArg Index.decode hsame).trans hi, hschema⟩
  · obtain rfl := Except.ok.inj (hi'.symm.trans hi)
    exact ⟨j, hj, (Index.schema_edited hed).trans hschema⟩

/-- An index in the file has the schema of the file. -/
theorem World.Tagged.schema_eq {schema : Nat} {j : Index} (h : w.Tagged schema)
    (hj : w.files .index = some (.index j)) : j.schema = schema := by
  obtain ⟨j', hload, hschema⟩ := h
  rw [hj] at hload
  rw [← hschema, ← Index.decode_index hload]

/-- The tag travels through every run. -/
theorem tagged_of_reach {schema : Nat} (h₀ : w₀.Tagged schema)
    (hw : Reach (Invocation.fire ce) (fun _ _ => True) w₀ w) : w.Tagged schema :=
  hw.inv (I := fun w => w.Tagged schema) h₀ fun _ e _ _ h _ hf => Option.some.inj hf ▸ h.after e

/-! ## Which files keep an older tag -/

/-- A store with that index file and nothing else. -/
def World.withIndex (file : Option Text) : World := World.blank.setFile .index file

theorem files_withIndex (file : Option Text) : (World.withIndex file).files .index = file := by
  simp [World.withIndex, World.setFile]

/-- A call that changes nothing, and saves. -/
def resave (ce : CeRs) : Invocation :=
  { handle := Store.fresh 0, env := Env.calm ce 0 "", call := .deleteObjects "" [] }

/-- A call that is made after a step that succeeds. -/
theorem mem_trace_bind {ε α β : Type} {env : Env} {x : Act ε α} {f : α → Act ε β} {s s' : Store}
    {w' : World} {a : α} {c : Call} (hx : exec ce env x s w = ((.ok a, s'), w'))
    (hc : c ∈ (f a s').trace (perform ce env) w') :
    c ∈ ((x >>= f) s).trace (perform ce env) w := by
  have hrun : (x s).run (perform ce env) w = ((.ok a, s'), w') := hx
  rw [Act.bind_apply, Prog.trace_bind, hrun]
  exact List.mem_append_right _ hc

theorem saves_resave {t : Option Text} (h : Index.decode t = .ok i) :
    (resave ce).Saves ce (World.withIndex t) i := by
  have hload : (resave ce).env.loadIndex (World.withIndex t) = .ok i := by
    unfold Env.loadIndex
    rw [files_withIndex]
    exact h
  have hplan : (resave ce).call.plan ce (resave ce).env
      = some fun i => (.save i (.results []), []) := rfl
  have hsaved : ((resave ce).after ce (World.withIndex t)).files .index = some (.index i) := by
    unfold Invocation.after
    rw [StoreCall.exec_eq hplan]
    show ((resave ce).env.transact _ _ _ _).2.files .index = _
    unfold Env.transact
    rw [hload]
    simp [Env.commit, resave, Env.calm]
  have hreload : exec ce (resave ce).env Store.reload (resave ce).handle (World.withIndex t)
      = ((.ok (), { (resave ce).handle with index := i }), World.withIndex t) := by
    unfold Store.reload
    rw [exec_bind, exec_indexLoad, hload]
    rfl
  refine ⟨rfl, ⟨0, ?_⟩, nofun, hsaved⟩
  show _ ∈ Prog.trace _ (Prog.bind _ _) _
  rw [Prog.trace_bind]
  refine List.mem_append_left _ (mem_trace_bind hreload (mem_trace_bind exec_now ?_))
  -- the fifth call of the save
  exact .tail _ (.tail _ (.tail _ (.tail _ (.head _))))

/-- **From an accepted file on, every index file that is saved has the current tag, in
every run of calls, exactly when the file has that tag itself, or none, or is
missing.** -/
theorem saves_tagged_iff (h : Index.decode (file.map indexText) = .ok i) :
    (∀ w₀ : World, w₀.files .index = file.map indexText →
      ∀ w, Reach (Invocation.fire ce) (fun _ _ => True) w₀ w → ∀ (e : Invocation) (j : Index),
        e.Saves ce w j → schemaTag j.toJson = some schemaVersion) ↔
      ∀ f n, file = some f → schemaTag f = some n → n = schemaVersion := by
  have hschema := accepted_schema h
  constructor
  · rintro hall f n rfl hn
    have htag := hall (World.withIndex (some (indexText f))) (files_withIndex _) _ .start
      (resave ce) i (saves_resave h)
    rw [schemaTag_toJson, hschema, Option.bind_some, hn] at htag
    exact Option.some.inj htag
  · intro htag w₀ hw₀ w hw e j hsaves
    have hcurrent : i.schema = schemaVersion := by
      rw [hschema]
      cases htags : file.bind schemaTag with
      | none => rfl
      | some n =>
        obtain ⟨f, hf, hn⟩ := Option.bind_eq_some_iff.mp htags
        exact htag f n hf hn
    have hstart : w₀.Tagged schemaVersion := ⟨i, hw₀ ▸ h, hcurrent⟩
    have hafter : (e.after ce w).Tagged schemaVersion := (tagged_of_reach hstart hw).after e
    rw [schemaTag_toJson, hafter.schema_eq hsaves.saved]

/-- An index file of before versioning, with these tags. -/
def oldFile (tag : List (String × Json)) : Json :=
  object (tag ++ [("buckets", object [("photos", object [("created", unsigned 1),
    ("objects", object [("cat", object [("cid", string "c"), ("size", unsigned 3),
      ("etag", string "c"), ("content_type", string "t"), ("last_modified", unsigned 1)])])])])])

/-- The index it is read as. -/
def oldIndex (tag : List (String × Json)) : Index :=
  (Index.ofJson (oldFile tag)).getD Index.empty

/-- The theorem at a file without a tag: the first save has the current one. -/
theorem saves_tagged_iff_untagged :
    (resave CeRs.plain).Saves CeRs.plain (World.withIndex (some (indexText (oldFile []))))
        (oldIndex []) ∧
      schemaTag (oldIndex []).toJson = some schemaVersion := by
  have hload : Index.decode ((some (oldFile [])).map indexText) = .ok (oldIndex []) := by
    decide +kernel
  have hsaves : (resave CeRs.plain).Saves CeRs.plain _ _ := saves_resave hload
  refine ⟨hsaves, (saves_tagged_iff hload).mpr ?_ _ (files_withIndex _) _ .start _ _ hsaves⟩
  intro f n hf hn
  obtain rfl := Option.some.inj hf
  exact nomatch hn

/-- A file tagged 1 is loaded, and saved again in the current shape, tagged 1. -/
theorem old_tag_kept :
    let tag := [("schema", unsigned 1)]
    let w := World.withIndex (some (indexText (oldFile tag)))
    Index.decode (w.files .index) = .ok (oldIndex tag) ∧
      (resave CeRs.plain).Saves CeRs.plain w (oldIndex tag) ∧
      schemaTag (oldIndex tag).toJson = some 1 ∧ schemaVersion = 2 := by
  have hload : Index.decode (some (indexText (oldFile [("schema", unsigned 1)])))
      = .ok (oldIndex [("schema", unsigned 1)]) := by decide +kernel
  exact ⟨hload, saves_resave hload, rfl, rfl⟩

end CeStorage
