import CeStorage.Multipart

/-!
# Ranged reads (`range.rs`)

`parseRange` resolves an HTTP `Range` header against an object size, `covering`
finds the chunks that overlap the window, and `slice` cuts the window out of
their concatenation. `u64`, and `usize` on a 64-bit platform.
-/

namespace CeStorage

open Lib

/-- A resolved byte range and the chunks that cover it. -/
structure CoveringRange where
  start : Nat
  «end» : Nat
  length : Nat
  chunkIndices : List Nat
  offsetInFirst : Nat
  deriving DecidableEq

/-- The three forms of a range, with both ends trimmed. -/
def resolveRange (a b : String) (totalSize : Nat) : Except String (Nat × Nat) :=
  if a = "" then
    match Str.parseU64 b with
    | none => .error "bad suffix length"
    | some n =>
      if n = 0 then .error "range not satisfiable: zero-length suffix"
      else .ok (totalSize - min n totalSize, totalSize - 1)
  else if b = "" then
    match Str.parseU64 a with
    | none => .error "bad range start"
    | some start => .ok (start, totalSize - 1)
  else
    match Str.parseU64 a with
    | none => .error "bad range start"
    | some start =>
      match Str.parseU64 b with
      | none => .error "bad range end"
      | some stop => .ok (start, min stop (totalSize - 1))

/-- Parse a `Range` header against a known size into an inclusive window. -/
def parseRange (header : String) (totalSize : Nat) : Except String (Nat × Nat) :=
  match Str.stripPrefix (Str.trim header) "bytes=" with
  | none => .error "range must start with 'bytes='"
  | some spec =>
    if Str.containsChar spec ',' then .error "multiple ranges are not supported"
    else
      match Str.splitOnce '-' spec with
      | none => .error s!"malformed range: {header}"
      | some (a, b) =>
        if totalSize = 0 then .error "range not satisfiable: empty object"
        else
          match resolveRange (Str.trim a) (Str.trim b) totalSize with
          | .error e => .error e
          | .ok (start, stop) =>
            if stop < start ∨ totalSize ≤ start then
              .error s!"range not satisfiable: start={start} end={stop} size={totalSize}"
            else .ok (start, stop)

/-- The chunks that cover an inclusive window of the object a manifest
describes. -/
def covering (manifest : Manifest) (start stop : Nat) : Except String CoveringRange :=
  if manifest.chunkSize = 0 then .error "manifest has zero chunk_size"
  else if stop < start ∨ manifest.totalSize ≤ stop then
    .error s!"range [{start},{stop}] out of bounds for object of {manifest.totalSize} bytes"
  else
    let first := start / manifest.chunkSize
    let last := stop / manifest.chunkSize
    if manifest.chunks.length ≤ last then .error "range exceeds manifest chunk count"
    else .ok
      { start, «end» := stop, length := stop - start + 1
        chunkIndices := List.range' first (last + 1 - first)
        offsetInFirst := start - first * manifest.chunkSize }

/-- Cut the window out of the concatenation of the covering chunks. -/
def slice (range : CoveringRange) (concat : Bytes) : Except String Bytes :=
  let start := range.offsetInFirst
  let stop := start + range.length
  if 2 ^ 64 ≤ stop then .error "range length overflow"
  else if concat.length < stop then .error "covering chunks are shorter than the requested range"
  else .ok ((concat.drop start).take range.length)

end CeStorage
