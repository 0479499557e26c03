import CeStorage.Assemble
import CeStorage.Store.Spec

/-!
# Ranged reads of stored objects

`window full start stop` is the part of a byte string that an accepted range
asks for. `ObjectOf` says how an object comes to be described by a manifest: it
was cut into chunks, or assembled from parts that were. Either way the manifest
lists the chunks of the bytes, so the covering chunks of a window are a run of
pieces and cutting the window out of them is cutting it out of the object
(`Lib.chunks_window`).
-/

namespace CeStorage

open Lib

variable {ce : CeRs} {full : Bytes} {manifest : Manifest} {start stop : Nat}

/-- `full[start..=stop]`. -/
def window (full : Bytes) (start stop : Nat) : Bytes := (full.drop start).take (stop + 1 - start)

/-- The manifest of an object with these bytes. -/
inductive ObjectOf (ce : CeRs) (full : Bytes) : Manifest → Prop where
  | chunked (size : Nat) (hsize : 0 < size) : ObjectOf ce full (ce.chunkObject full size).1
  | assembled (upload : Upload) (requested : List (Nat × String)) (sent : Nat → Bytes)
      (manifest : Manifest) (hparts : CutParts ce sent upload)
      (hman : assembleManifest ce upload requested = .ok manifest)
      (hfull : (requested.map fun p => sent p.1).flatten = full) : ObjectOf ce full manifest

/-- However the object came about, the manifest is that of its bytes. -/
theorem ObjectOf.manifestOf (hce : ce.Lawful) (h : ObjectOf ce full manifest) :
    ∃ size, 0 < size ∧ manifest = ce.manifestOf full size := by
  cases h with
  | chunked size hsize => exact ⟨size, hsize, by rw [hce.chunkObject_eq _ _ hsize]⟩
  | assembled upload requested sent manifest hparts hman hfull =>
    refine ⟨upload.partChunk, hparts.chunk_pos, ?_⟩
    rw [← hfull]
    exact assembleManifest_splice hce hparts hman

/-! ## Parsing, covering, slicing -/

/-- An accepted range lies within the object. -/
theorem parseRange_ok {header : String} {size : Nat}
    (h : parseRange header size = .ok (start, stop)) : start ≤ stop ∧ stop < size := by
  have resolved : ∀ {a b : String} {p : Nat × Nat}, size ≠ 0 →
      resolveRange a b size = .ok p → p.2 < size := by
    intro a b p hsize hp
    unfold resolveRange at hp
    grind
  unfold parseRange at h
  grind

/-- The covering of a window that lies within the object. -/
theorem covering_manifestOf {size : Nat} (hsize : 0 < size) (hle : start ≤ stop)
    (hlt : stop < full.length) :
    covering (ce.manifestOf full size) start stop = .ok
      { start, «end» := stop, length := stop - start + 1
        chunkIndices := List.range' (start / size) (stop / size + 1 - start / size)
        offsetInFirst := start - start / size * size } := by
  have hcount : stop / size < ((chunks size full).map ce.cid).length := by
    rw [List.length_map, lt_length_chunks hsize]
    exact Nat.lt_of_le_of_lt (Nat.div_mul_le_self stop size) hlt
  unfold covering CeRs.manifestOf
  dsimp only
  rw [if_neg (Nat.pos_iff_ne_zero.mp hsize), if_neg (by omega), if_neg (by omega)]

/-- The covering chunks of a window, in order. -/
def coveringChunks (full : Bytes) (size start stop : Nat) : List Bytes :=
  ((chunks size full).drop (start / size)).take (stop / size + 1 - start / size)

theorem mem_coveringChunks {size : Nat} {c : Bytes} (h : c ∈ coveringChunks full size start stop) :
    c ∈ chunks size full :=
  List.mem_of_mem_drop (List.mem_of_mem_take h)

/-- Slicing the covering chunks cuts the window out of the object. -/
theorem slice_coveringChunks {size : Nat} {cov : CoveringRange} (hsize : 0 < size)
    (hle : start ≤ stop) (hlt : stop < full.length) (hlen : full.length < 2 ^ 64)
    (hcov : covering (ce.manifestOf full size) start stop = .ok cov) :
    slice cov (coveringChunks full size start stop).flatten = .ok (window full start stop) := by
  rw [covering_manifestOf hsize hle hlt] at hcov
  cases hcov
  have hfirst : start / size * size ≤ start := Nat.div_mul_le_self start size
  have hdiv : start / size ≤ stop / size := Nat.div_le_div_right hle
  have hlast : stop < (stop / size + 1) * size := Nat.lt_mul_of_div_lt (Nat.lt_succ_self _) hsize
  have hcover : start + (stop - start + 1)
      ≤ (start / size + (stop / size + 1 - start / size)) * size := by
    rw [Nat.add_sub_cancel' (by omega)]
    omega
  have hcut : ∀ len, start + len ≤ (stop / size + 1) * size →
      ((coveringChunks full size start stop).flatten.drop (start - start / size * size)).take len
        = (full.drop start).take len := by
    intro len hl
    refine chunks_window hsize hfirst ?_
    rwa [Nat.add_sub_cancel' (by omega)]
  have hwin := hcut (stop - start + 1) (by omega)
  -- the pieces are long enough: the window cut out of them has its full length
  have hlong := congrArg List.length hwin
  rw [List.length_take, List.length_take, List.length_drop, List.length_drop] at hlong
  unfold slice
  dsimp only
  rw [if_neg (by omega), if_neg (by omega), hwin]
  unfold window
  rw [show stop - start + 1 = stop + 1 - start by omega]

/-- The chunks to fetch are those that overlap the window. -/
theorem mem_chunkIndices {size i : Nat} {cov : CoveringRange} (hsize : 0 < size)
    (hle : start ≤ stop) (hlt : stop < full.length)
    (hcov : covering (ce.manifestOf full size) start stop = .ok cov) :
    i ∈ cov.chunkIndices ↔ i * size ≤ stop ∧ start < (i + 1) * size := by
  rw [covering_manifestOf hsize hle hlt] at hcov
  cases hcov
  have hdiv : start / size ≤ stop / size := Nat.div_le_div_right hle
  dsimp only
  rw [List.mem_range'_1, ← Nat.le_div_iff_mul_le hsize, ← Nat.div_lt_iff_lt_mul hsize]
  omega

/-- Their CIDs are those of the covering chunks. -/
theorem cids_chunkIndices {size : Nat} {cov : CoveringRange} (hsize : 0 < size)
    (hle : start ≤ stop) (hlt : stop < full.length)
    (hcov : covering (ce.manifestOf full size) start stop = .ok cov) :
    (coveringChunks full size start stop).map ce.cid
      = cov.chunkIndices.map fun i => (ce.manifestOf full size).chunks.getD i "" := by
  have hlast : stop / size < (chunks size full).length :=
    (lt_length_chunks hsize).mpr (Nat.lt_of_le_of_lt (Nat.div_mul_le_self stop size) hlt)
  rw [covering_manifestOf hsize hle hlt] at hcov
  cases hcov
  unfold coveringChunks CeRs.manifestOf
  refine List.ext_getElem ?_ ?_
  · simp only [List.length_map, List.length_take, List.length_drop, List.length_range']
    omega
  · intro i h1 h2
    have hi : start / size + i < (chunks size full).length := by
      rw [List.length_map, List.length_range'] at h2
      omega
    simp [List.getD, hi]

/-! ## The program -/

/-- What the answer to the fetch of a manifest is read as. -/
def CeRs.readManifest (ce : CeRs) (served : Except String Bytes) : Except StorageError Manifest :=
  match served with
  | .error e => .error (.backend e)
  | .ok blob =>
    match ce.parseManifest blob with
    | .error e => .error (.backend s!"parsing object manifest: {e}")
    | .ok manifest =>
      if manifest.kind = ce.manifestKindV1 then .ok manifest
      else .error (.backend s!"unsupported manifest kind: {manifest.kind}")

/-- The object in one piece. -/
def Store.fetchWhole (cid : String) : Act StorageError Bytes :=
  Act.blob (c := .getObject cid) rfl fun e => StorageError.backend s!"fetching object: {e}"

/-- The rest of a ranged read, once the manifest is there or not. -/
def Store.serveRange (ce : CeRs) (m : ObjectMeta) (start stop : Nat) :
    Except StorageError Manifest → Act StorageError GetResult
  | .ok manifest => do
    let cov ← Act.lift ((covering manifest start stop).mapError .invalidRange)
    let concat ← Store.fetchChunks ce manifest cov.chunkIndices
    let window ← Act.lift ((slice cov concat).mapError .backend)
    pure (Store.resultFrom m window (some (start, stop)))
  | .error _ => do
    let full ← Store.fetchWhole m.cid
    Act.require (start ≤ stop + 1 ∧ stop < full.length) (.invalidRange "range out of bounds")
    pure (Store.resultFrom m (window full start stop) (some (start, stop)))

/-- A ranged read of an object that is there, for a range that is accepted: one
call for the manifest, and the rest. -/
theorem getObjectRangeOpts_eq {s : Store} {bucket key range : String}
    {versionId : Option String} {m : ObjectMeta}
    (hmeta : s.metaFor bucket key versionId = .ok m)
    (hrange : parseRange range m.size = .ok (start, stop)) :
    Store.getObjectRangeOpts ce bucket key range versionId s
      = .call (.getBlob m.cid) fun served =>
          Store.serveRange ce m start stop (ce.readManifest served) s := by
  have hfetch : Store.attempt ((Store.fetchManifest ce m.cid).mapErr StorageError.backend) s
      = Prog.call (Call.getBlob m.cid) fun served =>
          .ret (.ok (ce.readManifest served), s) := by
    refine congrArg (Prog.call (Call.getBlob m.cid)) (funext ?_)
    intro served
    unfold CeRs.readManifest
    -- `fetch_manifest` after its blob: the parse, then the check of the kind
    rcases served with e | blob
    · rfl
    · show Prog.bind (Prog.bind (Prog.bind ((Act.lift ((ce.parseManifest blob).mapError _) : Act String Manifest) s) _) _) _ = _
      dsimp only
      cases ce.parseManifest blob with
      | error e => rfl
      | ok manifest =>
        show Prog.bind (Prog.bind (Prog.bind (((Act.require (manifest.kind = ce.manifestKindV1) _) : Act String Unit) s) _) _) _ = _
        unfold Act.require
        dsimp only
        split <;> rfl
  unfold Store.getObjectRangeOpts
  rw [Act.self_bind, hmeta, Act.lift_ok_bind, hrange, Except.mapError, Act.lift_ok_bind]
  dsimp only
  rw [Act.bind_apply, hfetch]
  refine congrArg (Prog.call (Call.getBlob m.cid)) (funext ?_)
  intro served
  dsimp only [Prog.bind_ret]
  cases ce.readManifest served <;> rfl

/-- Fetching one more chunk: one call, the check of its hash, and the rest. -/
theorem fetchChunks_cons {chunkCid : String} (i : Nat) (is : List Nat) (s : Store)
    (hcid : manifest.chunks.getD i "" = chunkCid) :
    Store.fetchChunks ce manifest (i :: is) s
      = .call (.getBlob chunkCid) fun served =>
          match served with
          | .error e => .ret (.error (.backend s!"fetching chunk {chunkCid}: {e}"), s)
          | .ok chunk =>
            if ce.cid chunk = chunkCid then
              (Store.fetchChunks ce manifest is s).bind fun r =>
                .ret (r.1.map (chunk ++ ·), r.2)
            else .ret (.error (.backend s!"chunk {chunkCid} failed content verification"), s) := by
  subst hcid
  refine congrArg (Prog.call _) (funext ?_)
  intro served
  rcases served with e | chunk
  · rfl
  · dsimp only
    by_cases hc : ce.cid chunk = manifest.chunks.getD i ""
    · rw [if_pos hc]
      show Prog.bind (Act.require _ _ s) _ = _
      unfold Act.require
      rw [if_pos hc]
      refine congrArg (Store.fetchChunks ce manifest is s).bind (funext fun r => ?_)
      rcases r with ⟨e | rest, s'⟩ <;> rfl
    · rw [if_neg hc]
      show Prog.bind (Act.require _ _ s) _ = _
      unfold Act.require
      rw [if_neg hc]
      rfl

/-- The rest of a ranged read, once the manifest was read and covers the range. -/
theorem serveRange_covered {m : ObjectMeta} {cov : CoveringRange} (s : Store)
    (hcov : covering manifest start stop = .ok cov) :
    Store.serveRange ce m start stop (.ok manifest) s
      = (Store.fetchChunks ce manifest cov.chunkIndices s).bind fun r =>
          .ret (r.1.bind fun concat => ((slice cov concat).mapError .backend).map fun bytes =>
            Store.resultFrom m bytes (some (start, stop)), r.2) := by
  show (Act.lift ((covering manifest start stop).mapError _) >>= _) s = _
  rw [hcov, Except.mapError, Act.lift_ok_bind]
  refine congrArg (Store.fetchChunks ce manifest cov.chunkIndices s).bind (funext fun r => ?_)
  rcases r with ⟨e | concat, s'⟩
  · rfl
  · show Prog.bind (Act.lift ((slice cov concat).mapError _) s') _ = _
    dsimp only [Except.bind]
    cases slice cov concat <;> rfl

theorem serveRange_uncovered {m : ObjectMeta} {err : String} (s : Store)
    (hcov : covering manifest start stop = .error err) :
    Store.serveRange ce m start stop (.ok manifest) s = .ret (.error (.invalidRange err), s) := by
  show (Act.lift ((covering manifest start stop).mapError _) >>= _) s = _
  rw [hcov]
  rfl

/-! ## Against a truthful blob store -/

/-- The blob store answers with the blobs it holds. -/
def Env.Serves (env : Env) (w : World) : Prop :=
  ∀ cid b, w.blobs cid = some b → env.getBlob cid = .ok b

/-- The blob store holds an object: its manifest, and under each CID the manifest
lists a chunk with that CID. -/
structure Holds (ce : CeRs) (w : World) (cid : String) (manifest : Manifest) : Prop where
  described : w.blobs cid = some (ce.manifestJson manifest)
  chunk : ∀ id ∈ manifest.chunks, ∃ c, w.blobs id = some c ∧ ce.cid c = id

/-- A chunk of an object that the blob store holds is served. -/
theorem Holds.served {env : Env} {w : World} {cid : String} {size : Nat} (hce : ce.Lawful)
    (h : Holds ce w cid (ce.manifestOf full size)) (hserves : env.Serves w) {c : Bytes}
    (hc : c ∈ chunks size full) : env.getBlob (ce.cid c) = .ok c := by
  obtain ⟨c', hblob, hcid⟩ := h.chunk (ce.cid c) (List.mem_map_of_mem hc)
  cases hce.cid_injective hcid
  exact hserves _ _ hblob

section
variable {env : Env} {s : Store} {w : World}

/-- Fetching chunks that are served: one call for each, and their bytes. -/
theorem fetchChunks_served {is : List Nat} {cs : List Bytes}
    (hcids : cs.map ce.cid = is.map fun i => manifest.chunks.getD i "")
    (hserved : ∀ c ∈ cs, env.getBlob (ce.cid c) = .ok c) :
    exec ce env (Store.fetchChunks ce manifest is) s w = ((.ok cs.flatten, s), w) ∧
      (Store.fetchChunks ce manifest is s).trace (perform ce env) w
        = is.map fun i => Call.getBlob (manifest.chunks.getD i "") := by
  induction is generalizing cs with
  | nil =>
    cases List.map_eq_nil_iff.mp hcids
    exact ⟨rfl, rfl⟩
  | cons i is ih =>
    -- as many chunks as indices, since the CIDs agree
    obtain ⟨c, cs, rfl⟩ : ∃ c rest, cs = c :: rest := by
      cases cs with
      | nil => exact nomatch hcids
      | cons c rest => exact ⟨c, rest, rfl⟩
    obtain ⟨hc, hrest⟩ := List.cons.inj hcids
    dsimp only at hc
    have hget := hserved c List.mem_cons_self
    rw [hc] at hget
    obtain ⟨hrun, htrace⟩ := ih hrest fun d hd => hserved d (List.mem_cons_of_mem c hd)
    have hanswer : perform ce env (.getBlob (manifest.chunks.getD i "")) w = (.ok c, w) :=
      congrArg (·, w) hget
    unfold exec at hrun ⊢
    rw [fetchChunks_cons _ _ _ rfl]
    constructor
    · rw [Prog.run_call, hanswer]
      dsimp only
      rw [if_pos hc, Prog.run_bind, hrun]
      rfl
    · rw [Prog.trace_call, hanswer]
      dsimp only
      rw [if_pos hc, Prog.trace_bind, htrace]
      exact congrArg _ (List.append_nil _)

/-- The rest of a ranged read, once the manifest was read. -/
theorem serveRange_served {m : ObjectMeta} {cov : CoveringRange} {cs : List Bytes}
    {bytes : Bytes} (hcov : covering manifest start stop = .ok cov)
    (hcids : cs.map ce.cid = cov.chunkIndices.map fun i => manifest.chunks.getD i "")
    (hserved : ∀ c ∈ cs, env.getBlob (ce.cid c) = .ok c)
    (hslice : slice cov cs.flatten = .ok bytes) :
    exec ce env (Store.serveRange ce m start stop (.ok manifest)) s w
        = ((.ok (Store.resultFrom m bytes (some (start, stop))), s), w) ∧
      (Store.serveRange ce m start stop (.ok manifest) s).trace (perform ce env) w
        = cov.chunkIndices.map fun i => Call.getBlob (manifest.chunks.getD i "") := by
  obtain ⟨hrun, htrace⟩ := fetchChunks_served (s := s) (w := w) hcids hserved
  unfold exec at hrun ⊢
  rw [serveRange_covered s hcov]
  constructor
  · rw [Prog.run_bind, hrun]
    dsimp only [Except.bind]
    rw [hslice]
    rfl
  · rw [Prog.trace_bind, hrun, htrace]
    exact List.append_nil _

end

/-- What a put or a completion stores is held. -/
theorem Stored.holds {w : World} (h : Stored ce w full) :
    Holds ce w (ce.objectCid full) (ce.manifestOf full ce.defaultChunkSize) where
  described := h.manifest
  chunk id hid := by
    obtain ⟨c, hc, rfl⟩ := List.mem_map.mp hid
    exact ⟨c, h.chunk c hc, rfl⟩

/-- A stored object reads back as its bytes, whatever its chunk size. -/
theorem Holds.read {w : World} {cid : String} {size : Nat} (hce : ce.Lawful) (hsize : 0 < size)
    (h : Holds ce w cid (ce.manifestOf full size)) : ce.readObject w cid = some full := by
  have hread : w.readChunks ((chunks size full).map ce.cid) = some (chunks size full).flatten := by
    refine readChunks_map _ ?_
    intro c hc
    obtain ⟨c', hblob, hcid⟩ := h.chunk (ce.cid c) (List.mem_map_of_mem hc)
    cases hce.cid_injective hcid
    exact hblob
  unfold CeRs.readObject
  rw [h.described]
  dsimp only
  rw [hce.parse_json]
  refine hread.trans ?_
  rw [chunks_flatten hsize]

/-- A ranged read is a slice of the full one. -/
theorem Store.ranged_slice_of_full (ce : CeRs) (hce : ce.Lawful) (env : Env) (w : World)
    (hserves : env.Serves w) (s : Store) (bucket key range : String)
    (versionId : Option String) (m : ObjectMeta) (manifest : Manifest) (full : Bytes)
    (start stop : Nat) (hobj : ObjectOf ce full manifest) (hlen : full.length < 2 ^ 64)
    (hholds : Holds ce w m.cid manifest) (hsize : m.size = manifest.totalSize)
    (hmeta : s.metaFor bucket key versionId = .ok m)
    (hrange : parseRange range m.size = .ok (start, stop)) :
    ce.readObject w m.cid = some full ∧
      exec ce env (Store.getObjectRangeOpts ce bucket key range versionId) s w
        = ((.ok (Store.resultFrom m (window full start stop) (some (start, stop))), s), w) ∧
      ∃ cov, covering manifest start stop = .ok cov ∧
        (∀ i, i ∈ cov.chunkIndices ↔
          i * manifest.chunkSize ≤ stop ∧ start < (i + 1) * manifest.chunkSize) ∧
        (Store.getObjectRangeOpts ce bucket key range versionId s).trace (perform ce env) w
          = .getBlob m.cid
            :: cov.chunkIndices.map (fun i => Call.getBlob (manifest.chunks.getD i "")) ∧
        ∃ cs : List Bytes, cs.map ce.cid = cov.chunkIndices.map (fun i => manifest.chunks.getD i "") ∧
          slice cov cs.flatten = .ok (window full start stop) := by
  -- the manifest is that of `full` for some chunk size
  obtain ⟨size, hpos, rfl⟩ := hobj.manifestOf hce
  rw [hsize] at hrange
  obtain ⟨hle, hlt⟩ := parseRange_ok hrange
  rw [← hsize] at hrange
  obtain ⟨cov, hcov⟩ : ∃ cov, covering (ce.manifestOf full size) start stop = .ok cov :=
    ⟨_, covering_manifestOf hpos hle hlt⟩
  have hcids := cids_chunkIndices hpos hle hlt hcov
  have hslice := slice_coveringChunks hpos hle hlt hlen hcov
  have hread : ce.readManifest (.ok (ce.manifestJson (ce.manifestOf full size)))
      = .ok (ce.manifestOf full size) := by
    unfold CeRs.readManifest
    dsimp only
    rw [hce.parse_json]
    exact if_pos rfl
  have hanswer : perform ce env (.getBlob m.cid) w
      = (.ok (ce.manifestJson (ce.manifestOf full size)), w) :=
    congrArg (·, w) (hserves _ _ hholds.described)
  obtain ⟨hrun, htrace⟩ := serveRange_served (s := s) (w := w) (m := m) hcov hcids
    (fun c hc => hholds.served hce hserves (mem_coveringChunks hc)) hslice
  refine ⟨hholds.read hce hpos, ?_, cov, hcov, fun i => mem_chunkIndices hpos hle hlt hcov, ?_,
    _, hcids, hslice⟩
  · unfold exec
    rw [getObjectRangeOpts_eq hmeta hrange, Prog.run_call, hanswer]
    dsimp only
    rw [hread]
    exact hrun
  · rw [getObjectRangeOpts_eq hmeta hrange, Prog.trace_call, hanswer]
    dsimp only
    rw [hread, htrace]

/-! Three bytes in two chunks; the last two are asked for. -/

private def catCid : String := CeRs.plain.objectCid [1, 2, 3]

private def catWorld : World :=
  World.blank.setBlobs [(CeRs.plain.cid [1, 2], [1, 2]), (CeRs.plain.cid [3], [3]),
    (catCid, CeRs.plain.manifestJson (CeRs.plain.manifestOf [1, 2, 3] 2))]

private def catEnv : Env :=
  { Env.calm CeRs.plain 0 "u" with
    getBlob := fun cid => (catWorld.blobs cid).elim (.error "not found") .ok }

private def catMeta : ObjectMeta := ObjectMeta.new catCid 3 "image/png" 0

private def catShelf : Store :=
  { Store.fresh 0 with
    index := ((Index.empty.makeBucket "photos" 0).2.put "photos" "cat" catMeta).2 }

set_option maxRecDepth 8000 in
private theorem catWorld_stored : Stored CeRs.plain catWorld [1, 2, 3] :=
  ⟨by decide, by rfl⟩

set_option maxRecDepth 8000 in
theorem Store.ranged_slice_of_full_cat :
    CeRs.plain.readObject catWorld catCid = some [1, 2, 3] ∧
      exec CeRs.plain catEnv
          (Store.getObjectRangeOpts CeRs.plain "photos" "cat" "bytes=1-2" none) catShelf catWorld
        = ((.ok (Store.resultFrom catMeta [2, 3] (some (1, 2))), catShelf), catWorld) := by
  have h := Store.ranged_slice_of_full CeRs.plain CeRs.plain_lawful catEnv catWorld
    (fun cid b hb => by show (catWorld.blobs cid).elim _ _ = _; rw [hb]; rfl) catShelf "photos"
    "cat" "bytes=1-2" none catMeta (CeRs.plain.manifestOf [1, 2, 3] 2) [1, 2, 3] 1 2
    (.chunked 2 (by decide)) (by decide) catWorld_stored.holds rfl rfl rfl
  exact ⟨h.1, h.2.1⟩

/-! ## Against any blob store -/

/-- The result of a method whose calls are answered one after the other by an
environment of any kind. -/
def Act.against {σ ε α : Type} (answer : (c : Call) → σ → Resp c × σ) (x : Act ε α) (s : Store)
    (e : σ) : Except ε α :=
  ((x s).run answer e).1.1

/-- What the blob store serves for an object's own CID shows the bytes of the
object in the window: it reads as no manifest, or as one that does not cover the
window, or only these bytes can be fetched by the CIDs it lists there. -/
def CeRs.Shows (ce : CeRs) (served : Except String Bytes) (full : Bytes) (start stop : Nat) :
    Prop :=
  ∀ (manifest : Manifest) (cov : CoveringRange) (cs : List Bytes) (bytes : Bytes),
    ce.readManifest served = .ok manifest → covering manifest start stop = .ok cov →
    cs.map ce.cid = cov.chunkIndices.map (fun i => manifest.chunks.getD i "") →
    slice cov cs.flatten = .ok bytes → bytes = window full start stop

/-- A blob that has the object's CID shows its bytes: `fetch_manifest` would be
safe if it checked the hash, as the loop over the chunks does. -/
theorem shows_of_cid (hce : ce.Lawful) (hobj : ObjectOf ce full manifest)
    (hlen : full.length < 2 ^ 64) (hle : start ≤ stop) (hlt : stop < full.length) {blob : Bytes}
    (hblob : ce.cid blob = ce.cid (ce.manifestJson manifest)) :
    ce.Shows (.ok blob) full start stop := by
  obtain ⟨size, hpos, rfl⟩ := hobj.manifestOf hce
  cases hce.cid_injective hblob
  intro manifest' cov cs bytes hread hcov hcids hslice
  unfold CeRs.readManifest at hread
  dsimp only at hread
  rw [hce.parse_json] at hread
  dsimp only at hread
  rw [if_pos (show (ce.manifestOf full size).kind = ce.manifestKindV1 from rfl)] at hread
  cases hread
  rw [← cids_chunkIndices hpos hle hlt hcov] at hcids
  have hcs := (List.map_inj_right fun _ _ h => hce.cid_injective h).mp hcids
  rw [hcs, slice_coveringChunks hpos hle hlt hlen hcov] at hslice
  exact (Except.ok.inj hslice).symm

section
variable {σ : Type} {answer : (c : Call) → σ → Resp c × σ} {m : ObjectMeta}

/-- Whatever the blob store answers, the chunks that were fetched have the CIDs
that were asked for. -/
theorem fetchChunks_verified {is : List Nat} {s : Store} {e : σ} {bytes : Bytes}
    (h : ((Store.fetchChunks ce manifest is s).run answer e).1.1 = .ok bytes) :
    ∃ cs : List Bytes, cs.map ce.cid = is.map (fun i => manifest.chunks.getD i "") ∧
      bytes = cs.flatten := by
  induction is generalizing e bytes with
  | nil =>
    cases h
    exact ⟨[], rfl, rfl⟩
  | cons i is ih =>
    rw [fetchChunks_cons _ _ _ rfl, Prog.run_call] at h
    rcases hans : answer (.getBlob (manifest.chunks.getD i "")) e with ⟨e' | chunk, e₁⟩
    · rw [hans] at h
      exact nomatch h
    · rw [hans] at h
      dsimp only at h
      split at h
      next hcid =>
        rw [Prog.run_bind, Prog.run_ret] at h
        dsimp only at h
        cases hrest : ((Store.fetchChunks ce manifest is s).run answer e₁).1.1 with
        | error err =>
          rw [hrest] at h
          exact nomatch h
        | ok rest =>
          rw [hrest] at h
          cases h
          obtain ⟨cs, hcs, rfl⟩ := ih hrest
          exact ⟨chunk :: cs, congrArg₂ List.cons hcid hcs, rfl⟩
      next => exact nomatch h

/-- The rest of a ranged read of an object that is fetched whole. -/
theorem serveRange_whole (s : Store) (err : StorageError) :
    Store.serveRange ce m start stop (.error err) s
      = .call (.getObject m.cid) fun got =>
          match got with
          | .error e => .ret (.error (.backend s!"fetching object: {e}"), s)
          | .ok full =>
            if start ≤ stop + 1 ∧ stop < full.length then
              .ret (.ok (Store.resultFrom m (window full start stop) (some (start, stop))), s)
            else .ret (.error (.invalidRange "range out of bounds"), s) := by
  refine congrArg (Prog.call _) (funext ?_)
  intro got
  rcases got with e | full
  · rfl
  · show Prog.bind (Act.require _ _ s) _ = _
    unfold Act.require
    dsimp only
    split <;> rfl

/-- An object that is fetched whole is cut to the window. -/
theorem serveRange_whole_ok {s : Store} {e : σ} {err : StorageError} {r : GetResult}
    (hobject : ∀ bytes, (answer (.getObject m.cid) e).1 = .ok bytes → bytes = full)
    (hr : ((Store.serveRange ce m start stop (.error err) s).run answer e).1.1 = .ok r) :
    r.bytes = window full start stop := by
  rw [serveRange_whole, Prog.run_call] at hr
  rcases hgot : answer (.getObject m.cid) e with ⟨e' | got, e₁⟩
  · rw [hgot] at hr
    cases hr
  · rw [hgot] at hr
    have hfull : got = full := hobject got (by rw [hgot])
    subst hfull
    dsimp only at hr
    split at hr
    · cases hr
      rfl
    · cases hr

/-- With a manifest, what is returned was cut out of chunks with the CIDs that the
manifest lists. -/
theorem serveRange_covered_ok {s : Store} {e : σ} {r : GetResult}
    (hr : ((Store.serveRange ce m start stop (.ok manifest) s).run answer e).1.1 = .ok r) :
    ∃ (cov : CoveringRange) (cs : List Bytes), covering manifest start stop = .ok cov ∧
      cs.map ce.cid = cov.chunkIndices.map (fun i => manifest.chunks.getD i "") ∧
      slice cov cs.flatten = .ok r.bytes := by
  cases hcov : covering manifest start stop with
  | error err =>
    rw [serveRange_uncovered s hcov] at hr
    cases hr
  | ok cov =>
    rw [serveRange_covered s hcov, Prog.run_bind, Prog.run_ret] at hr
    dsimp only at hr
    cases hfetch : ((Store.fetchChunks ce manifest cov.chunkIndices s).run answer e).1.1 with
    | error err =>
      rw [hfetch] at hr
      cases hr
    | ok concat =>
      obtain ⟨cs, hcids, rfl⟩ := fetchChunks_verified hfetch
      rw [hfetch] at hr
      dsimp only [Except.bind] at hr
      cases hslice : slice cov cs.flatten with
      | error err =>
        rw [hslice] at hr
        cases hr
      | ok bytes =>
        rw [hslice] at hr
        cases hr
        exact ⟨cov, cs, rfl, hcids, hslice⟩

/-- An environment that answers the blob gets from a list, and every object get
with `full`. -/
def scripted (ce : CeRs) (full : Bytes) :
    (c : Call) → List (Except String Bytes) → Resp c × List (Except String Bytes)
  | .getBlob _, r :: rest => (r, rest)
  | .getObject _, rest => (.ok full, rest)
  | c, rest => ((perform ce (Env.calm ce 0 "") c World.blank).1, rest)

/-- Chunks with the CIDs that are asked for are fetched. -/
theorem fetchChunks_scripted {is : List Nat} {cs : List Bytes} (s : Store)
    (hcids : cs.map ce.cid = is.map fun i => manifest.chunks.getD i "") :
    (Store.fetchChunks ce manifest is s).run (scripted ce full) (cs.map .ok)
      = ((.ok cs.flatten, s), []) := by
  induction is generalizing cs with
  | nil =>
    cases List.map_eq_nil_iff.mp hcids
    rfl
  | cons i is ih =>
    obtain ⟨c, cs, rfl⟩ : ∃ c rest, cs = c :: rest := by
      cases cs with
      | nil => exact nomatch hcids
      | cons c rest => exact ⟨c, rest, rfl⟩
    obtain ⟨hc, hrest⟩ := List.cons.inj hcids
    dsimp only at hc
    have hanswer : scripted ce full (.getBlob (manifest.chunks.getD i "")) ((c :: cs).map .ok)
        = (.ok c, cs.map .ok) := rfl
    rw [fetchChunks_cons _ _ _ rfl, Prog.run_call, hanswer]
    dsimp only
    rw [if_pos hc, Prog.run_bind, ih hrest]
    rfl

/-- **What a ranged read returns.** Take an object whose bytes are `full`, and an
accepted range. Whatever else the blob store answers, with `served` for the
object's own CID the bytes returned are those of the window exactly when
`served` shows them. -/
theorem Store.ranged_window_iff (ce : CeRs) (s : Store) (bucket key range : String)
    (versionId : Option String) (m : ObjectMeta) (full : Bytes) (start stop : Nat)
    (served : Except String Bytes) (hmeta : s.metaFor bucket key versionId = .ok m)
    (hrange : parseRange range m.size = .ok (start, stop)) :
    (∀ (σ : Type) (answer : (c : Call) → σ → Resp c × σ) (e : σ),
        (∀ e' bytes, (answer (.getObject m.cid) e').1 = .ok bytes → bytes = full) →
        (answer (.getBlob m.cid) e).1 = served →
        ∀ r, (Store.getObjectRangeOpts ce bucket key range versionId).against answer s e = .ok r →
          r.bytes = window full start stop) ↔
      ce.Shows served full start stop := by
  unfold Act.against
  rw [getObjectRangeOpts_eq hmeta hrange]
  constructor
  · intro h manifest cov cs bytes hread hcov hcids hslice
    -- an environment that serves these chunks makes the read return `bytes`
    refine h _ (scripted ce full) (served :: cs.map .ok) (fun _ _ hb => (Except.ok.inj hb).symm)
      rfl (Store.resultFrom m bytes (some (start, stop))) ?_
    show ((Store.serveRange ce m start stop (ce.readManifest served) s).run (scripted ce full)
      (cs.map .ok)).1.1 = _
    rw [hread, serveRange_covered s hcov, Prog.run_bind, fetchChunks_scripted s hcids]
    dsimp only [Except.bind]
    rw [hslice]
    rfl
  · intro hshows σ answer e hobject hserved r hr
    rw [Prog.run_call, hserved] at hr
    cases hread : ce.readManifest served with
    | error err =>
      rw [hread] at hr
      exact serveRange_whole_ok (fun bytes hb => hobject _ bytes hb) hr
    | ok manifest =>
      rw [hread] at hr
      obtain ⟨cov, cs, hcov, hcids, hslice⟩ := serveRange_covered_ok hr
      exact hshows manifest cov cs r.bytes hread hcov hcids hslice

end

set_option maxRecDepth 8000 in
/-- The blob store serves the manifest of other bytes, whose chunks pass their
check. -/
theorem Store.ranged_get_foreign :
    ¬ ∀ (ce : CeRs) (s : Store) (bucket key range : String) (versionId : Option String)
      (m : ObjectMeta) (manifest : Manifest) (full : Bytes) (start stop : Nat) (σ : Type)
      (answer : (c : Call) → σ → Resp c × σ) (e : σ) (r : GetResult), ce.Lawful →
      ObjectOf ce full manifest → m.cid = ce.cid (ce.manifestJson manifest) →
      m.size = full.length → s.metaFor bucket key versionId = .ok m →
      parseRange range m.size = .ok (start, stop) →
      (∀ e' bytes, (answer (.getObject m.cid) e').1 = .ok bytes → bytes = full) →
      (Store.getObjectRangeOpts ce bucket key range versionId).against answer s e = .ok r →
      r.bytes = window full start stop := by
  intro h
  have hbytes := h CeRs.plain catShelf "photos" "cat" "bytes=1-2" none catMeta
    (CeRs.plain.manifestOf [1, 2, 3] 2) [1, 2, 3] 1 2 _ (scripted CeRs.plain [1, 2, 3])
    [.ok (CeRs.plain.manifestJson (CeRs.plain.manifestOf [7, 8, 9] 2)), .ok [7, 8], .ok [9]]
    (Store.resultFrom catMeta [8, 9] (some (1, 2))) CeRs.plain_lawful (.chunked 2 (by decide))
    rfl rfl rfl rfl (fun _ _ hb => (Except.ok.inj hb).symm) rfl
  exact absurd hbytes (by decide)

set_option maxRecDepth 8000 in
theorem Store.ranged_window_iff_cat :
    ∃ r, (Store.getObjectRangeOpts CeRs.plain "photos" "cat" "bytes=1-2" none).against
        (scripted CeRs.plain [1, 2, 3]) catShelf [.ok (CeRs.plain.manifestJson
          (CeRs.plain.manifestOf [1, 2, 3] 2)), .ok [1, 2], .ok [3]] = .ok r ∧
      r.bytes = window [1, 2, 3] 1 2 := by
  have hshows : CeRs.plain.Shows
      (.ok (CeRs.plain.manifestJson (CeRs.plain.manifestOf [1, 2, 3] 2))) [1, 2, 3] 1 2 :=
    shows_of_cid CeRs.plain_lawful (.chunked 2 (by decide)) (by decide) (by decide) (by decide) rfl
  have hok : (Store.getObjectRangeOpts CeRs.plain "photos" "cat" "bytes=1-2" none).against
      (scripted CeRs.plain [1, 2, 3]) catShelf [.ok (CeRs.plain.manifestJson
        (CeRs.plain.manifestOf [1, 2, 3] 2)), .ok [1, 2], .ok [3]]
      = .ok (Store.resultFrom catMeta [2, 3] (some (1, 2))) := rfl
  exact ⟨_, hok, (Store.ranged_window_iff CeRs.plain catShelf "photos" "cat" "bytes=1-2" none
    catMeta [1, 2, 3] 1 2 _ rfl rfl).mpr hshows _ _ _ (fun _ _ hb => (Except.ok.inj hb).symm) rfl
    _ hok⟩

end CeStorage
