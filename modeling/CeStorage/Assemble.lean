import CeStorage.Store.Outcomes

/-!
# What an assembled manifest describes

`readObject` reads an object back from the blobs: its manifest, then its chunks.
`Stored` (the chunks and the manifest of a byte string are there) is what makes
it return the bytes.

`assembleManifest` splices the chunk lists of parts. Every part but the last is
a whole number of chunks, so splicing the cuts of the parts is cutting their
concatenation (`Lib.chunks_append_flatten`): the manifest of an accepted part
list is the manifest of the bytes the parts were sent, in the listed order, and
storing it stores the object.
-/

namespace CeStorage

open Lib
open Std (ExtTreeMap)

variable {ce : CeRs} {env : Env} {w w' : World} {bytes : Bytes}

/-! ## Reading an object -/

/-- The blobs under a list of CIDs, in order. -/
def World.readChunks (w : World) : List String → Option Bytes
  | [] => some []
  | cid :: rest =>
    match w.blobs cid, w.readChunks rest with
    | some c, some bytes => some (c ++ bytes)
    | _, _ => none

/-- The bytes of the object whose manifest is under `cid`. -/
def CeRs.readObject (ce : CeRs) (w : World) (cid : String) : Option Bytes :=
  match w.blobs cid with
  | none => none
  | some blob =>
    match ce.parseManifest blob with
    | .error _ => none
    | .ok manifest => w.readChunks manifest.chunks

theorem readChunks_map (cs : List Bytes) (h : ∀ c ∈ cs, w.blobs (ce.cid c) = some c) :
    w.readChunks (cs.map ce.cid) = some cs.flatten := by
  induction cs with
  | nil => rfl
  | cons c cs ih =>
    have hc := h c List.mem_cons_self
    have hrest := ih fun d hd => h d (List.mem_cons_of_mem c hd)
    rw [List.map_cons, World.readChunks, hc, hrest]
    rfl

/-- A stored object reads back as its bytes. -/
theorem Stored.read (hce : ce.Lawful) (h : Stored ce w bytes) :
    ce.readObject w (ce.objectCid bytes) = some bytes := by
  unfold CeRs.readObject
  rw [h.manifest]
  dsimp only
  rw [hce.parse_json]
  show w.readChunks ((chunks ce.defaultChunkSize bytes).map ce.cid) = _
  rw [readChunks_map _ h.chunk, chunks_flatten hce.chunk_pos]

/-- Objects with one CID have one content. -/
theorem objectCid_injective (hce : ce.Lawful) : Function.Injective ce.objectCid := by
  intro bytes bytes' h
  have hman := hce.json_injective (hce.cid_injective h)
  have hchunks : (chunks ce.defaultChunkSize bytes).map ce.cid
      = (chunks ce.defaultChunkSize bytes').map ce.cid := congrArg Manifest.chunks hman
  have hcut := (List.map_inj_right fun _ _ h => hce.cid_injective h).mp hchunks
  have hcat := congrArg List.flatten hcut
  rwa [chunks_flatten hce.chunk_pos, chunks_flatten hce.chunk_pos] at hcat

/-! ## Assembling parts -/

/-- The record of a part that was sent `bytes`. -/
def CeRs.partOf (ce : CeRs) (n : Nat) (bytes : Bytes) : Part :=
  newPart (ce.manifestOf bytes ce.defaultChunkSize) n (ce.objectCid bytes) bytes

/-- The parts of an upload are the records of what `sent` says was sent for
them. -/
structure PartsOf (ce : CeRs) (w : World) (sent : Nat → Option Bytes) (u : Upload) : Prop where
  partChunk : u.partChunk = ce.defaultChunkSize
  part : ∀ n p, u.parts[n]? = some p →
    ∃ bytes, sent n = some bytes ∧ p = ce.partOf n bytes ∧ Stored ce w bytes

theorem PartsOf.mono {sent : Nat → Option Bytes} {u : Upload} (h : PartsOf ce w sent u)
    (hg : Grows w w') : PartsOf ce w' sent u where
  partChunk := h.partChunk
  part n p hp := by
    obtain ⟨bytes, hs, hpart, hst⟩ := h.part n p hp
    exact ⟨bytes, hs, hpart, hst.mono hg⟩

/-- One listed part goes on the end of what was spliced so far. -/
theorem assembleParts_cons {u : Upload} {num last total : Nat} {etag : String}
    {rest : List (Nat × String)} {cids : List String} {r : Nat × List String}
    (h : assembleParts u ((num, etag) :: rest) last total cids = .ok r) :
    ∃ p, u.parts[num]? = some p ∧ p.etag = etag ∧ last < num ∧
      (rest ≠ [] → p.size % u.partChunk = 0) ∧
      assembleParts u rest num (total + p.size) (cids ++ p.chunkCids) = .ok r := by
  unfold assembleParts at h
  split at h
  · exact nomatch h
  next hlast =>
    cases hp : u.parts[num]? with
    | none => rw [hp] at h; exact nomatch h
    | some p =>
      rw [hp] at h
      dsimp only at h
      split at h
      · exact nomatch h
      next hetag =>
        split at h
        · exact nomatch h
        next halign =>
          split at h
          · exact nomatch h
          · refine ⟨p, rfl, not_not.mp hetag, by omega, ?_, h⟩
            intro hrest
            by_contra hsize
            exact halign ⟨hrest, hsize⟩

/-- A manifest that is assembled describes what was spliced. -/
theorem assembleManifest_eq_ok {u : Upload} {requested : List (Nat × String)}
    {manifest : Manifest} (h : assembleManifest ce u requested = .ok manifest) :
    ∃ r, assembleParts u requested 0 0 [] = .ok r ∧ manifest =
      { kind := ce.manifestKindV1, chunkSize := u.partChunk, totalSize := r.1, chunks := r.2 } := by
  unfold assembleManifest at h
  split at h
  · exact nomatch h
  split at h
  · exact nomatch h
  cases hparts : assembleParts u requested 0 0 [] with
  | error e => rw [hparts] at h; exact nomatch h
  | ok r =>
    rw [hparts] at h
    cases h
    exact ⟨r, rfl, rfl⟩

/-- The splice of an accepted list is the cut of the concatenation of what was
sent for each listed part. -/
theorem assembleParts_ok (hce : ce.Lawful) {sent : Nat → Option Bytes} {u : Upload}
    (hu : PartsOf ce w sent u) (requested : List (Nat × String)) {last total : Nat}
    {cids : List String} {r : Nat × List String}
    (h : assembleParts u requested last total cids = .ok r) :
    ∃ bss : List Bytes, requested.map (fun p => sent p.1) = bss.map some ∧
      requested.map Prod.snd = bss.map ce.objectCid ∧
      (∀ c ∈ chunks ce.defaultChunkSize bss.flatten, w.blobs (ce.cid c) = some c) ∧
      r.1 = total + bss.flatten.length ∧
      r.2 = cids ++ (chunks ce.defaultChunkSize bss.flatten).map ce.cid := by
  induction requested generalizing last total cids with
  | nil =>
    cases h
    exact ⟨[], rfl, rfl, fun _ h => (nomatch h), rfl, (List.append_nil _).symm⟩
  | cons q rest ih =>
    obtain ⟨num, etag⟩ := q
    obtain ⟨p, hp, hetag, -, halign, htail⟩ := assembleParts_cons h
    obtain ⟨bytes, hsent, rfl, hst⟩ := hu.part num p hp
    obtain ⟨bss, hbss, hetags, hchunks, htotal, hcids⟩ := ih htail
    -- a part that is not the last one ends on a chunk boundary
    have happ := chunks_append_flatten hce.chunk_pos bytes bss fun hbs => by
      have hrest : rest ≠ [] := by
        intro hnil
        rw [hnil] at hbss
        exact hbs (List.map_eq_nil_iff.mp hbss.symm)
      rw [← hu.partChunk]
      exact Nat.dvd_of_mod_eq_zero (halign hrest)
    refine ⟨bytes :: bss, ?_, ?_, ?_, ?_, ?_⟩
    · rw [List.map_cons, List.map_cons, hbss, hsent]
    · rw [List.map_cons, List.map_cons, hetags, ← hetag]
      rfl
    · intro c hc
      rw [List.flatten_cons, happ] at hc
      rcases List.mem_append.mp hc with hc | hc
      · exact hst.chunk c hc
      · exact hchunks c hc
    · rw [htotal, List.flatten_cons, List.length_append]
      show total + bytes.length + _ = _
      omega
    · rw [hcids, List.flatten_cons, happ, List.map_append, List.append_assoc]
      rfl

/-- Each recorded part lists the chunks of what was sent for it, cut at the
upload's own chunk size. -/
structure CutParts (ce : CeRs) (sent : Nat → Bytes) (u : Upload) : Prop where
  chunk_pos : 0 < u.partChunk
  part : ∀ n p, u.parts[n]? = some p →
    p.size = (sent n).length ∧ p.chunkCids = (ce.chunkObject (sent n) u.partChunk).1.chunks

/-- The splice of an accepted list, at any chunk size. -/
theorem assembleParts_splice (hce : ce.Lawful) {sent : Nat → Bytes} {u : Upload}
    (hu : CutParts ce sent u) (requested : List (Nat × String)) {last total : Nat}
    {cids : List String} {r : Nat × List String}
    (h : assembleParts u requested last total cids = .ok r) :
    r.1 = total + (requested.map fun p => sent p.1).flatten.length ∧
      r.2 = cids ++ (chunks u.partChunk (requested.map fun p => sent p.1).flatten).map ce.cid := by
  induction requested generalizing last total cids with
  | nil =>
    cases h
    exact ⟨rfl, (List.append_nil _).symm⟩
  | cons q rest ih =>
    obtain ⟨num, etag⟩ := q
    obtain ⟨p, hp, -, -, halign, htail⟩ := assembleParts_cons h
    obtain ⟨hsize, hcids⟩ := hu.part num p hp
    rw [hce.chunkObject_eq _ _ hu.chunk_pos] at hcids
    obtain ⟨htotal, hsplice⟩ := ih htail
    have happ := chunks_append_flatten hu.chunk_pos (sent num) (rest.map fun p => sent p.1)
      fun hrest => by
        rw [← hsize]
        exact Nat.dvd_of_mod_eq_zero (halign fun hnil => hrest (by rw [hnil]; rfl))
    constructor
    · rw [htotal, hsize, List.map_cons, List.flatten_cons, List.length_append, Nat.add_assoc]
    · rw [hsplice, hcids, List.map_cons, List.flatten_cons, happ, List.map_append,
        List.append_assoc]
      rfl

/-- What `assembleManifest` accepts is the manifest of the concatenation of what
was sent for each listed part, at any chunk size. -/
theorem assembleManifest_splice (hce : ce.Lawful) {sent : Nat → Bytes} {u : Upload}
    (hu : CutParts ce sent u) {requested : List (Nat × String)} {manifest : Manifest}
    (h : assembleManifest ce u requested = .ok manifest) :
    manifest = ce.manifestOf (requested.map fun p => sent p.1).flatten u.partChunk := by
  obtain ⟨r, hparts, rfl⟩ := assembleManifest_eq_ok h
  obtain ⟨htotal, hcids⟩ := assembleParts_splice hce hu requested hparts
  rw [htotal, hcids, Nat.zero_add, List.nil_append]
  rfl

/-- An accepted part list assembles the manifest of the concatenation of what
was sent for each listed part. -/
theorem assembleManifest_ok (hce : ce.Lawful) {sent : Nat → Option Bytes} {u : Upload}
    (hu : PartsOf ce w sent u) {requested : List (Nat × String)} {manifest : Manifest}
    (h : assembleManifest ce u requested = .ok manifest) :
    ∃ bss : List Bytes, requested.map (fun p => sent p.1) = bss.map some ∧
      requested.map Prod.snd = bss.map ce.objectCid ∧
      (∀ c ∈ chunks ce.defaultChunkSize bss.flatten, w.blobs (ce.cid c) = some c) ∧
      manifest = ce.manifestOf bss.flatten ce.defaultChunkSize := by
  obtain ⟨r, hparts, rfl⟩ := assembleManifest_eq_ok h
  obtain ⟨bss, hbss, hetags, hchunks, htotal, hcids⟩ := assembleParts_ok hce hu requested hparts
  refine ⟨bss, hbss, hetags, hchunks, ?_⟩
  rw [htotal, hcids, hu.partChunk, Nat.zero_add, List.nil_append]
  rfl

/-- A completion that gets as far as the index has stored the object: the
concatenation of what was sent for each listed part. -/
theorem Assembled.object (hce : ce.Lawful) (henv : env.Truthful ce) (hw : Addressed ce w)
    {id : String} {parts : List (Nat × String)} {st : MultipartState} {u : Upload}
    {manifest : Manifest} {cid : String} {i j : Index} {sent : Nat → Option Bytes}
    (hass : Assembled ce env id parts w st u manifest cid i j) (hu : PartsOf ce w sent u)
    (hw' : w'.blobs = (w.setBlob cid (ce.manifestJson manifest)).blobs) :
    ∃ bss : List Bytes, parts.map (fun p => sent p.1) = bss.map some ∧
      parts.map Prod.snd = bss.map ce.objectCid ∧
      manifest.totalSize = bss.flatten.length ∧ cid = ce.objectCid bss.flatten ∧
      Stored ce w' bss.flatten := by
  obtain ⟨bss, hbss, hetags, hchunks, rfl⟩ := assembleManifest_ok hce hu hass.assembled
  have hcid : cid = ce.objectCid bss.flatten := henv.putBlob _ _ _ hass.stored
  refine ⟨bss, hbss, hetags, rfl, hcid, ?_⟩
  obtain ⟨-, hgrow⟩ := setBlob_addressed hce hw hcid
  constructor
  · intro c hc
    rw [hw']
    exact hgrow _ _ (hchunks c hc)
  · rw [hw', ← hcid]
    exact Function.update_self _ _ _

end CeStorage
