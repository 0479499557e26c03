import CeStorage.Lib.Checked
import CeStorage.Ranged

/-!
# Ranged reads of any manifest (`range.rs`, `store.rs`)

A manifest comes from the network, and its chunks do too: nothing says that its three
fields agree with each other or with the lengths of the chunks. `covering`, the loop
that fetches the chunks, and `slice` are written here with every operation checked
that could trap. None of them does (`ranged_read_safe`), and they are the functions
of the model (`coveringChecked_eq`, `sliceChecked_eq`, `exec_serveRange_checked`).
-/

namespace CeStorage

open Lib

/-! ## With every operation checked -/

def coveringChecked (manifest : Manifest) (start stop : Nat) :
    Option (Except String CoveringRange) :=
  if manifest.chunkSize = 0 then some (.error "manifest has zero chunk_size")
  else if stop < start ∨ manifest.totalSize ≤ stop then some
    (.error s!"range [{start},{stop}] out of bounds for object of {manifest.totalSize} bytes")
  else do
    let first ← Checked.div start manifest.chunkSize
    let last ← Checked.div stop manifest.chunkSize
    if manifest.chunks.length ≤ last then return .error "range exceeds manifest chunk count"
    else
      let before ← Checked.mul first manifest.chunkSize
      let offsetInFirst ← Checked.sub start before
      let span ← Checked.sub stop start
      let length ← Checked.add span 1
      return .ok
        { start, «end» := stop, length, chunkIndices := List.range' first (last + 1 - first)
          offsetInFirst }

def sliceChecked (range : CoveringRange) (concat : Bytes) : Option (Except String Bytes) :=
  -- `checked_add` does not trap
  match Checked.add range.offsetInFirst range.length with
  | none => some (.error "range length overflow")
  | some stop =>
    if concat.length < stop then
      some (.error "covering chunks are shorter than the requested range")
    else (Checked.slice concat range.offsetInFirst stop).map .ok

section
variable {ε : Type}

/-- The loop over the chunk indices. `fetch` answers the `n`-th of its fetches with a chunk of
any length, or an error. -/
def concatChecked (manifest : Manifest) (fetch : Nat → String → Except ε Bytes) :
    Nat → List Nat → Option (Except ε Bytes)
  | _, [] => some (.ok [])
  | n, i :: is => do
    let chunkCid ← manifest.chunks[i]?
    match fetch n chunkCid with
    | .error e => return .error e
    | .ok chunk => return (← concatChecked manifest fetch (n + 1) is).map (chunk ++ ·)

end

/-- The window of a ranged read, once the manifest is there. -/
def windowChecked (fetch : Nat → String → Except StorageError Bytes) (manifest : Manifest)
    (start stop : Nat) : Option (Except StorageError Bytes) := do
  match ← coveringChecked manifest start stop with
  | .error e => return .error (.invalidRange e)
  | .ok cov =>
    match ← concatChecked manifest fetch 0 cov.chunkIndices with
    | .error e => return .error e
    | .ok concat => return (← sliceChecked cov concat).mapError .backend

/-! ## Nothing traps -/

section
variable {manifest : Manifest} {start stop : Nat} {cov : CoveringRange}

theorem coveringChecked_eq (htotal : manifest.totalSize < 2 ^ 64) :
    coveringChecked manifest start stop = some (covering manifest start stop) := by
  unfold coveringChecked covering
  split
  · rfl
  next hsize =>
    split
    · rfl
    next hbounds =>
      rw [not_or, Nat.not_lt, Nat.not_le] at hbounds
      have hbefore : start / manifest.chunkSize * manifest.chunkSize ≤ start :=
        Nat.div_mul_le_self _ _
      have hmul : Checked.mul (start / manifest.chunkSize) manifest.chunkSize
          = some (start / manifest.chunkSize * manifest.chunkSize) := Checked.mul_eq (by omega)
      have hlength : Checked.add (stop - start) 1 = some (stop - start + 1) :=
        Checked.add_eq (by omega)
      simp only [Checked.div_eq hsize, hmul, Checked.sub_eq hbefore, Checked.sub_eq hbounds.1,
        hlength, Option.bind_eq_bind, Option.bind_some]
      split <;> rfl

/-- What `covering` says of the window it accepts. -/
structure Covers (manifest : Manifest) (start stop : Nat) (cov : CoveringRange) : Prop where
  ordered : start ≤ stop
  length : cov.length = stop - start + 1
  inRange : ∀ i ∈ cov.chunkIndices, i < manifest.chunks.length

theorem covers_of_covering (h : covering manifest start stop = .ok cov) :
    Covers manifest start stop cov := by
  unfold covering at h
  split at h
  · exact nomatch h
  split at h
  · exact nomatch h
  next hbounds =>
    dsimp only at h
    split at h
    · exact nomatch h
    next hlast =>
      obtain rfl := Except.ok.inj h
      refine ⟨Nat.le_of_not_lt fun hlt => hbounds (.inl hlt), rfl, fun i hi => ?_⟩
      obtain ⟨hfrom, hbelow⟩ := List.mem_range'_1.mp hi
      omega

/-- No index of the loop is out of range. -/
theorem concatChecked_isSome {ε : Type} (fetch : Nat → String → Except ε Bytes) {is : List Nat}
    (his : ∀ i ∈ is, i < manifest.chunks.length) (n : Nat) :
    ∃ r, concatChecked manifest fetch n is = some r := by
  induction is generalizing n with
  | nil => exact ⟨_, rfl⟩
  | cons i is ih =>
    rw [List.forall_mem_cons] at his
    obtain ⟨r, hr⟩ := ih his.2 (n + 1)
    unfold concatChecked
    rw [List.getElem?_eq_getElem his.1, hr]
    cases hfetch : fetch n manifest.chunks[i] with
    | error e => exact ⟨.error e, by simp [hfetch]⟩
    | ok chunk => exact ⟨r.map (chunk ++ ·), by simp [hfetch]⟩

theorem sliceChecked_eq (concat : Bytes) : sliceChecked cov concat = some (slice cov concat) := by
  unfold sliceChecked slice
  dsimp only
  by_cases hfits : cov.offsetInFirst + cov.length < 2 ^ 64
  · rw [Checked.add_eq hfits, if_neg (Nat.not_le_of_lt hfits)]
    dsimp only
    split
    · rfl
    next hlong =>
      rw [Checked.slice_eq (Nat.le_add_right _ _) (Nat.le_of_not_lt hlong),
        Nat.add_sub_cancel_left]
      rfl
  · rw [Checked.add, if_neg hfits, if_pos (Nat.le_of_not_lt hfits)]

theorem length_slice {concat bytes : Bytes} (h : slice cov concat = .ok bytes) :
    bytes.length = cov.length := by
  unfold slice at h
  dsimp only at h
  split at h
  · exact nomatch h
  split at h
  · exact nomatch h
  next hlong =>
    obtain rfl := Except.ok.inj h
    rw [List.length_take, List.length_drop]
    omega

end

/-- **Whatever a manifest says and whatever its chunks are, `covering` does no arithmetic
that overflows, underflows or divides by zero, its chunk indices are in range, and a
ranged read ends in an error or with exactly the bytes asked for, without an access out of
bounds.** -/
theorem ranged_read_safe (manifest : Manifest) (fetch : Nat → String → Except StorageError Bytes)
    (start stop : Nat) (htotal : manifest.totalSize < 2 ^ 64) :
    coveringChecked manifest start stop = some (covering manifest start stop) ∧
    (∀ cov, covering manifest start stop = .ok cov →
      ∀ i ∈ cov.chunkIndices, i < manifest.chunks.length) ∧
    ∃ r, windowChecked fetch manifest start stop = some r ∧
      ∀ bytes, r = .ok bytes → start ≤ stop ∧ bytes.length = stop - start + 1 := by
  refine ⟨coveringChecked_eq htotal, fun cov hcov => (covers_of_covering hcov).inRange, ?_⟩
  unfold windowChecked
  rw [coveringChecked_eq htotal]
  cases hcov : covering manifest start stop with
  | error e => exact ⟨.error (.invalidRange e), rfl, fun _ h => nomatch h⟩
  | ok cov =>
    have hcovers := covers_of_covering hcov
    obtain ⟨r, hr⟩ := concatChecked_isSome fetch hcovers.inRange 0
    simp only [Option.bind_eq_bind, Option.bind_some, hr]
    cases r with
    | error e => exact ⟨.error e, rfl, fun _ h => nomatch h⟩
    | ok concat =>
      dsimp only
      rw [sliceChecked_eq]
      refine ⟨(slice cov concat).mapError .backend, rfl, fun bytes hbytes => ?_⟩
      cases hslice : slice cov concat with
      | error e =>
        rw [hslice] at hbytes
        exact nomatch hbytes
      | ok window =>
        rw [hslice] at hbytes
        obtain rfl := Except.ok.inj hbytes
        exact ⟨hcovers.ordered, (length_slice hslice).trans hcovers.length⟩

/-- A manifest of more bytes than its chunks have. -/
def shortOfTotal : Manifest :=
  { kind := "v1", chunkSize := 2, totalSize := 2 ^ 64 - 1, chunks := ["a", "b"] }

/-- The theorem there: the window lies across both chunks, which are long enough for it. -/
theorem ranged_read_safe_shortOfTotal :
    ∃ bytes, windowChecked (fun n _ => .ok [n.toUInt8, 7]) shortOfTotal 1 2 = some (.ok bytes) ∧
      bytes.length = 2 := by
  obtain ⟨-, -, r, hr, hlength⟩ := ranged_read_safe shortOfTotal (fun n _ => .ok [n.toUInt8, 7]) 1 2
    (by decide)
  have hwindow : windowChecked (fun n _ => .ok [n.toUInt8, 7]) shortOfTotal 1 2
      = some (.ok [7, 1]) := by decide +kernel
  refine ⟨_, hwindow, (hlength _ ?_).2⟩
  exact Option.some.inj (hr.symm.trans hwindow)

/-! ## The loop of the store -/

section
variable {ce : CeRs} {env : Env} {s : Store} {w : World} {manifest : Manifest} {start stop : Nat}

/-- One fetch of the loop: the blob, if it is there and has the content that was asked for. -/
def Env.fetchChunk (ce : CeRs) (env : Env) (_ : Nat) (chunkCid : String) :
    Except StorageError Bytes :=
  match env.getBlob chunkCid with
  | .error e => .error (.backend s!"fetching chunk {chunkCid}: {e}")
  | .ok chunk =>
    if ce.cid chunk = chunkCid then .ok chunk
    else .error (.backend s!"chunk {chunkCid} failed content verification")

theorem exec_fetchChunks_checked {is : List Nat} {r : Except StorageError Bytes} (n : Nat)
    (his : ∀ i ∈ is, i < manifest.chunks.length)
    (hr : concatChecked manifest (env.fetchChunk ce) n is = some r) :
    exec ce env (Store.fetchChunks ce manifest is) s w = ((r, s), w) := by
  induction is generalizing n r with
  | nil =>
    obtain rfl := Option.some.inj hr
    rfl
  | cons i is ih =>
    rw [List.forall_mem_cons] at his
    have hcid : manifest.chunks.getD i "" = manifest.chunks[i] := by
      rw [List.getD_eq_getElem?_getD, List.getElem?_eq_getElem his.1, Option.getD_some]
    obtain ⟨rest, hrest⟩ := concatChecked_isSome (env.fetchChunk ce) his.2 (n + 1)
    have hrun := ih (n + 1) his.2 hrest
    unfold concatChecked at hr
    simp only [List.getElem?_eq_getElem his.1, hrest, Option.bind_eq_bind, Option.bind_some] at hr
    unfold exec at hrun ⊢
    rw [fetchChunks_cons i is s hcid, Prog.run_call]
    unfold Env.fetchChunk at hr
    have hanswer : (perform ce env (.getBlob manifest.chunks[i]) w)
        = (env.getBlob manifest.chunks[i], w) := rfl
    rw [hanswer]
    dsimp only
    cases hblob : env.getBlob manifest.chunks[i] with
    | error e =>
      rw [hblob] at hr
      obtain rfl := Option.some.inj hr
      rfl
    | ok chunk =>
      rw [hblob] at hr
      dsimp only at hr ⊢
      split
      next hsame =>
        rw [if_pos hsame] at hr
        obtain rfl := Option.some.inj hr
        rw [Prog.run_bind, hrun]
        rfl
      next hother =>
        rw [if_neg hother] at hr
        obtain rfl := Option.some.inj hr
        rfl

/-- A ranged read is the checked one, and then the object's headers. -/
theorem exec_serveRange_checked {m : ObjectMeta} {r : Except StorageError Bytes}
    (htotal : manifest.totalSize < 2 ^ 64)
    (hr : windowChecked (env.fetchChunk ce) manifest start stop = some r) :
    exec ce env (Store.serveRange ce m start stop (.ok manifest)) s w
      = ((r.map fun window => Store.resultFrom m window (some (start, stop)), s), w) := by
  unfold windowChecked at hr
  rw [coveringChecked_eq htotal] at hr
  simp only [Option.bind_eq_bind, Option.bind_some] at hr
  unfold exec
  cases hcov : covering manifest start stop with
  | error e =>
    rw [hcov] at hr
    obtain rfl := Option.some.inj hr
    rw [serveRange_uncovered s hcov]
    rfl
  | ok cov =>
    rw [hcov] at hr
    have hin := (covers_of_covering hcov).inRange
    obtain ⟨fetched, hfetched⟩ := concatChecked_isSome (env.fetchChunk ce) hin 0
    have hrun := exec_fetchChunks_checked (s := s) (w := w) 0 hin hfetched
    unfold exec at hrun
    simp only [hfetched, Option.bind_some] at hr
    rw [serveRange_covered s hcov, Prog.run_bind, hrun]
    cases fetched with
    | error e =>
      obtain rfl := Option.some.inj hr
      rfl
    | ok concat =>
      dsimp only at hr
      rw [sliceChecked_eq] at hr
      obtain rfl := Option.some.inj hr
      rfl

end

end CeStorage
