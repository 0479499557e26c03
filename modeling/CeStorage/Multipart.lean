import CeStorage.Index.Basic

/-!
# Multipart uploads: state and assembly (`multipart.rs`)

In-flight uploads, persisted next to the index as `upload id -> Upload`, and
`assembleManifest`, which splices the chunk lists of the requested parts into
one object manifest. A `MultipartState` is always a local of the operation that
loaded it and is dropped when that operation fails, so its `&mut self` methods
return the new state or an error.

The manifest type and the chunking of byte strings belong to `ce_rs`, which is
not part of this repository. `CeRs` collects what the sources use of it as the
fields of a parameter; `CeRs.Lawful` is what its documentation promises and the
results about object contents rely on.
-/

namespace CeStorage

open Lib
open Std (ExtTreeMap)

/-- `ce_rs::Manifest`: an ordered list of chunk CIDs and the total size. -/
structure Manifest where
  kind : String
  chunkSize : Nat
  totalSize : Nat
  chunks : List String
  deriving DecidableEq

/-- What the sources use of `ce_rs::data`: the content hash, the chunk size and
kind of an object manifest, chunking, and the JSON text of a manifest. -/
structure CeRs where
  cid : Bytes → String
  manifestKindV1 : String
  defaultChunkSize : Nat
  chunkObject : Bytes → Nat → Manifest × List (String × Bytes)
  manifestJson : Manifest → Bytes
  parseManifest : Bytes → Except String Manifest

def maxParts : Nat := 10000
def maxInflightUploads : Nat := 4096
def multipartSchema : Nat := 1

/-- One uploaded part; `etag` is the CID of the part's own manifest. -/
structure Part where
  partNumber : Nat
  etag : String
  size : Nat
  chunkCids : List String
  deriving DecidableEq

/-- An in-flight upload: its target, the options to carry onto the completed
object, and the parts so far by part number. -/
structure Upload where
  bucket : String
  key : String
  partChunk : Nat
  contentType : String
  metadata : UserMetadata
  created : Nat
  parts : ExtTreeMap Nat Part
  deriving DecidableEq

/-- The size of the object if it were completed now, with every part so far. -/
def Upload.assembledSize (self : Upload) : Nat := (self.parts.toList.map fun p => p.2.size).sum

structure MultipartState where
  schema : Nat
  uploads : ExtTreeMap String Upload
  deriving DecidableEq

namespace MultipartState

/-- `MultipartState::default`. -/
def empty : MultipartState := { schema := multipartSchema, uploads := ∅ }

/-- Begin an upload under a given id; enforces the in-flight cap. -/
def create (self : MultipartState) (id : String) (upload : Upload) :
    Except String MultipartState :=
  if maxInflightUploads ≤ self.uploads.size ∧ !self.uploads.contains id then
    .error s!"too many in-flight multipart uploads ({self.uploads.size}); complete or abort some first"
  else .ok { self with uploads := self.uploads.insert id upload }

def get (self : MultipartState) (id : String) : Except String Upload :=
  match self.uploads[id]? with
  | some upload => .ok upload
  | none => .error s!"no such multipart upload: {id}"

/-- Record (or replace) a part. -/
def putPart (self : MultipartState) (id : String) (part : Part) :
    Except String MultipartState :=
  if part.partNumber = 0 ∨ maxParts < part.partNumber then
    .error s!"part number must be 1..={maxParts}, got {part.partNumber}"
  else if part.size = 0 then .error "a part must be non-empty"
  else
    (self.get id).map fun upload =>
      let upload := { upload with parts := upload.parts.insert part.partNumber part }
      { self with uploads := self.uploads.insert id upload }

/-- The recorded parts of an upload, by part number. -/
def listParts (self : MultipartState) (id : String) : Except String (List Part) :=
  (self.get id).map fun upload => upload.parts.toList.map (·.2)

/-- Drop an upload; idempotent. -/
def remove (self : MultipartState) (id : String) : MultipartState :=
  { self with uploads := self.uploads.erase id }

end MultipartState

/-- The loop of `assemble_manifest` over the parts still to splice: the last part
number seen, and the total size and chunk list so far. -/
def assembleParts (upload : Upload) :
    List (Nat × String) → Nat → Nat → List String → Except String (Nat × List String)
  | [], _, total, chunks => .ok (total, chunks)
  | (num, etag) :: rest, lastNum, total, chunks =>
    if num ≤ lastNum then
      .error s!"parts must be in strictly ascending order (saw {num} after {lastNum})"
    else
      match upload.parts[num]? with
      | none => .error s!"part {num} was never uploaded"
      | some part =>
        if part.etag ≠ etag then
          .error s!"part {num} etag mismatch: client {etag} != stored {part.etag}"
        else if rest ≠ [] ∧ part.size % upload.partChunk ≠ 0 then
          .error s!"part {num} size {part.size} is not a multiple of the part chunk size {upload.partChunk} (only the final part may be short)"
        else if 2 ^ 64 ≤ total + part.size then .error "assembled object size overflow"
        else assembleParts upload rest num (total + part.size) (chunks ++ part.chunkCids)

/-- Validate a requested part list and assemble the combined manifest. -/
def assembleManifest (ce : CeRs) (upload : Upload) (requested : List (Nat × String)) :
    Except String Manifest :=
  if requested.isEmpty then .error "CompleteMultipartUpload requires at least one part"
  else if maxParts < requested.length then .error s!"too many parts: {requested.length}"
  else
    (assembleParts upload requested 0 0 []).map fun p =>
      { kind := ce.manifestKindV1, chunkSize := upload.partChunk, totalSize := p.1, chunks := p.2 }

end CeStorage
