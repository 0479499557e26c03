import CeStorage.Lib.Str

/-!
# The bucket index: data and operations (`index.rs`)

`bucket -> { key -> ObjectEntry }`, where an entry is the history of one key,
newest version last. A Rust `BTreeMap` is an `ExtTreeMap`: the same sorted map,
and two maps with the same bindings are equal.

A `&mut self` operation returns its result together with the index it leaves
behind, so that what a failing operation does to the index is part of the
definition and not of its type. Sizes and times are `u64` in the source; no
operation here does arithmetic on them except the lifecycle test, which
saturates.

`anyhow` errors are their messages.
-/

namespace CeStorage

open Lib
open Std (ExtTreeMap)

/-- On-disk schema version of the index file. -/
def schemaVersion : Nat := 2

def maxUserMetadataEntries : Nat := 64
def maxUserMetadataLen : Nat := 2048
def maxLifecycleRules : Nat := 64

/-- `x-amz-meta-*` user metadata. -/
abbrev UserMetadata := ExtTreeMap String String

/-- Metadata of one stored object version; the bytes live in the blob store
under `cid`. -/
structure ObjectMeta where
  cid : String
  size : Nat
  etag : String
  contentType : String
  lastModified : Nat
  versionId : String
  metadata : UserMetadata
  cacheControl : Option String
  contentDisposition : Option String
  contentEncoding : Option String
  deriving DecidableEq

structure ObjectVersion where
  «meta» : ObjectMeta
  isDeleteMarker : Bool
  deriving DecidableEq

/-- The history of one key, newest version last. -/
structure ObjectEntry where
  versions : List ObjectVersion
  deriving DecidableEq

structure LifecycleRule where
  keyPrefix : String
  expirationSecs : Nat
  deriving DecidableEq

structure Bucket where
  created : Nat
  versioning : Bool
  lifecycle : List LifecycleRule
  objects : ExtTreeMap String ObjectEntry
  deriving DecidableEq

structure Index where
  schema : Nat
  buckets : ExtTreeMap String Bucket
  deriving DecidableEq

/-- A page of `ListObjectsV2` results. -/
structure ListPage where
  keys : List (String × ObjectMeta)
  commonPrefixes : List String
  nextContinuation : Option String
  isTruncated : Bool
  keyCount : Nat
  maxKeys : Nat
  deriving DecidableEq

/-! ## Validation -/

/-- Bucket names: 3-63 bytes, lowercase letters, digits, `-` and `.`, with
neither `-` nor `.` at an edge. An edge byte is `-` or `.` exactly when the edge
character is. -/
def validBucketName (name : String) : Except String Unit :=
  let badEdge (c : Char) : Bool := c == '-' || c == '.'
  if ¬(3 ≤ Str.len name ∧ Str.len name ≤ 63) then
    .error s!"bucket name must be 3-63 characters: {name}"
  else if name.toList.head?.any badEdge || name.toList.getLast?.any badEdge then
    .error s!"bucket name must not start or end with '-' or '.': {name}"
  else if ¬(name.toList.all fun c =>
      ('a' ≤ c && c ≤ 'z') || ('0' ≤ c && c ≤ '9') || c == '-' || c == '.') then
    .error s!"bucket name may only contain lowercase letters, digits, '-' and '.': {name}"
  else .ok ()

/-- Object keys: non-empty, at most 1024 bytes, no NUL. -/
def validKey (key : String) : Except String Unit :=
  if key.isEmpty then .error "object key must not be empty"
  else if 1024 < Str.len key then .error "object key must be <= 1024 bytes"
  else if Str.containsChar key '\x00' then .error "object key must not contain NUL"
  else .ok ()

/-- One user-metadata entry. -/
def validateUserMetadataEntry (k v : String) : Except String Unit :=
  if k.isEmpty then .error "user-metadata key must not be empty"
  else if maxUserMetadataLen < Str.len k ∨ maxUserMetadataLen < Str.len v then
    .error s!"user-metadata key/value exceeds {maxUserMetadataLen} bytes"
  else if Str.containsChar k '\x00' || Str.containsChar v '\x00' then
    .error "user-metadata must not contain NUL"
  else .ok ()

/-- User metadata: bounded count, and each entry in key order. -/
def validateUserMetadata (m : UserMetadata) : Except String Unit :=
  if maxUserMetadataEntries < m.size then
    .error s!"too many user-metadata entries: {m.size} (max {maxUserMetadataEntries})"
  else m.toList.forM fun p => validateUserMetadataEntry p.1 p.2

def validateLifecycleRule (r : LifecycleRule) : Except String Unit :=
  if 1024 < Str.len r.keyPrefix then .error "lifecycle rule prefix must be <= 1024 bytes"
  else if Str.containsChar r.keyPrefix '\x00' then
    .error "lifecycle rule prefix must not contain NUL"
  else .ok ()

def validateLifecycle (rules : List LifecycleRule) : Except String Unit :=
  if maxLifecycleRules < rules.length then
    .error s!"too many lifecycle rules: {rules.length} (max {maxLifecycleRules})"
  else rules.forM validateLifecycleRule

/-! ## Metadata and entries -/

/-- `ObjectMeta::new`: the etag and the version id are the CID. -/
def ObjectMeta.new (cid : String) (size : Nat) (contentType : String) (now : Nat) : ObjectMeta :=
  { cid, size, etag := cid, contentType, lastModified := now, versionId := cid
    metadata := ∅, cacheControl := none, contentDisposition := none, contentEncoding := none }

/-- `ObjectMeta::with`: attach headers and validated user metadata. -/
def ObjectMeta.withHeaders (self : ObjectMeta) (metadata : UserMetadata)
    (cacheControl contentDisposition contentEncoding : Option String) :
    Except String ObjectMeta :=
  (validateUserMetadata metadata).map fun _ =>
    { self with metadata, cacheControl, contentDisposition, contentEncoding }

namespace ObjectEntry

/-- The newest version. -/
def current (self : ObjectEntry) : Option ObjectVersion := self.versions.getLast?

/-- The newest version with this version id. -/
def byVersion (self : ObjectEntry) (versionId : String) : Option ObjectVersion :=
  self.versions.reverse.find? fun v => v.meta.versionId == versionId

end ObjectEntry

namespace LifecycleRule

def matchesKey (self : LifecycleRule) (key : String) : Bool :=
  self.keyPrefix.isEmpty || Str.startsWith key self.keyPrefix

/-- A TTL of 0 never expires anything. -/
def isExpired (self : LifecycleRule) (lastModified now : Nat) : Bool :=
  self.expirationSecs != 0 && Str.saturatingAdd lastModified self.expirationSecs ≤ now

end LifecycleRule

namespace Index

/-- `Index::default`. -/
def empty : Index := { schema := schemaVersion, buckets := ∅ }

/-- `self.buckets.get(name).with_context(..)`. -/
def bucket (self : Index) (name : String) : Except String Bucket :=
  match self.buckets[name]? with
  | some b => .ok b
  | none => .error s!"no such bucket: {name}"

/-- Write bucket `name` back. -/
def setBucket (self : Index) (name : String) (b : Bucket) : Index :=
  { self with buckets := self.buckets.insert name b }

/-! ## Buckets -/

def makeBucket (self : Index) (name : String) (now : Nat) : Except String Unit × Index :=
  match validBucketName name with
  | .error e => (.error e, self)
  | .ok () =>
    if self.buckets.contains name then (.error s!"bucket already exists: {name}", self)
    else (.ok (), self.setBucket name
      { created := now, versioning := false, lifecycle := [], objects := ∅ })

def removeBucket (self : Index) (name : String) (force : Bool) : Except String Unit × Index :=
  match self.bucket name with
  | .error e => (.error e, self)
  | .ok b =>
    if !force && !b.objects.isEmpty then
      (.error s!"bucket not empty: {name} ({b.objects.size} objects)", self)
    else (.ok (), { self with buckets := self.buckets.erase name })

def setVersioning (self : Index) (name : String) (enabled : Bool) : Except String Unit × Index :=
  match self.bucket name with
  | .error e => (.error e, self)
  | .ok b => (.ok (), self.setBucket name { b with versioning := enabled })

def isVersioned (self : Index) (name : String) : Except String Bool :=
  (self.bucket name).map (·.versioning)

def setLifecycle (self : Index) (name : String) (rules : List LifecycleRule) :
    Except String Unit × Index :=
  match validateLifecycle rules with
  | .error e => (.error e, self)
  | .ok () =>
    match self.bucket name with
    | .error e => (.error e, self)
    | .ok b => (.ok (), self.setBucket name { b with lifecycle := rules })

def lifecycle (self : Index) (name : String) : Except String (List LifecycleRule) :=
  (self.bucket name).map (·.lifecycle)

/-- Whether the current version of a key has expired: only a live one can, and
the first rule that matches the key decides. -/
def keyExpired (rules : List LifecycleRule) (now : Nat) (key : String) (entry : ObjectEntry) :
    Bool :=
  match entry.current with
  | some v =>
    !v.isDeleteMarker &&
      (match rules.find? (·.matchesKey key) with
        | some rule => rule.isExpired v.meta.lastModified now
        | none => false)
  | none => false

/-- The keys of a bucket that have expired as of `now`, in order. -/
def expiredKeys (self : Index) (name : String) (now : Nat) : Except String (List String) :=
  (self.bucket name).map fun b =>
    if b.lifecycle.isEmpty then []
    else (b.objects.toList.filter fun p => keyExpired b.lifecycle now p.1 p.2).map (·.1)

def listBuckets (self : Index) : List String := self.buckets.keys

/-! ## Objects -/

/-- The history a put leaves: one more version on a versioned bucket, the new
version alone on an unversioned one. -/
def putVersion (b : Bucket) (old : Option ObjectEntry) (version : ObjectVersion) : ObjectEntry :=
  if b.versioning then ⟨(old.getD ⟨[]⟩).versions ++ [version]⟩ else ⟨[version]⟩

/-- Bind `key` to `meta` (PutObject's index step). -/
def put (self : Index) (name key : String) (m : ObjectMeta) : Except String Unit × Index :=
  match validKey key with
  | .error e => (.error e, self)
  | .ok () =>
    match validateUserMetadata m.metadata with
    | .error e => (.error e, self)
    | .ok () =>
      match self.bucket name with
      | .error e => (.error e, self)
      | .ok b => (.ok (), self.setBucket name { b with
          objects := b.objects.insert key (putVersion b b.objects[key]? ⟨m, false⟩) })

/-- The raw history of a key. -/
def entry (self : Index) (name key : String) : Except String ObjectEntry :=
  match self.bucket name with
  | .error e => .error e
  | .ok b =>
    match b.objects[key]? with
    | some entry => .ok entry
    | none => .error s!"no such key: {name}/{key}"

/-- The current object: an error if the key is missing or delete-marked. -/
def head (self : Index) (name key : String) : Except String ObjectMeta :=
  match self.entry name key with
  | .error e => .error e
  | .ok entry =>
    match entry.current with
    | some v =>
      if v.isDeleteMarker then .error s!"no such key: {name}/{key} (delete marker)"
      else .ok v.meta
    | none => .error s!"no such key: {name}/{key}"

/-- A given version of an object, never a delete marker. -/
def headVersion (self : Index) (name key versionId : String) : Except String ObjectMeta :=
  match self.entry name key with
  | .error e => .error e
  | .ok entry =>
    match entry.byVersion versionId with
    | some v =>
      if v.isDeleteMarker then
        .error s!"version {versionId} of {name}/{key} is a delete marker"
      else .ok v.meta
    | none => .error s!"no such version {versionId} of {name}/{key}"

/-- Every version of a key that is not a delete marker, newest first. -/
def listVersions (self : Index) (name key : String) : Except String (List ObjectMeta) :=
  (self.entry name key).map fun entry =>
    (entry.versions.reverse.filter fun v => !v.isDeleteMarker).map (·.meta)

/-- The delete marker a delete at `now` appends. -/
def deleteMarker (now : Nat) : ObjectVersion :=
  ⟨{ ObjectMeta.new "" 0 "" now with versionId := s!"delete-marker-{now}" }, true⟩

/-- A history after a delete on a versioned bucket: a marker is appended unless
the current version already is one. -/
def markDeleted (now : Nat) (entry : ObjectEntry) : ObjectEntry :=
  if entry.current.any fun v => !v.isDeleteMarker then ⟨entry.versions ++ [deleteMarker now]⟩
  else entry

/-- What a delete leaves of a bucket. -/
def deleteKey (b : Bucket) (key : String) (now : Nat) : Bucket :=
  if b.versioning then
    match b.objects[key]? with
    | some entry => { b with objects := b.objects.insert key (markDeleted now entry) }
    | none => b
  else { b with objects := b.objects.erase key }

/-- Delete a key; idempotent. -/
def delete (self : Index) (name key : String) (now : Nat) : Except String Unit × Index :=
  match self.bucket name with
  | .error e => (.error e, self)
  | .ok b => (.ok (), self.setBucket name (deleteKey b key now))

/-- What removing one version id leaves of a bucket; a key without versions is
dropped. -/
def deleteKeyVersion (b : Bucket) (key versionId : String) : Bucket :=
  match b.objects[key]? with
  | none => b
  | some entry =>
    let versions := entry.versions.filter fun v => v.meta.versionId != versionId
    if versions.isEmpty then { b with objects := b.objects.erase key }
    else { b with objects := b.objects.insert key ⟨versions⟩ }

/-- Permanently delete a version by id; idempotent. -/
def deleteVersion (self : Index) (name key versionId : String) : Except String Unit × Index :=
  match self.bucket name with
  | .error e => (.error e, self)
  | .ok b => (.ok (), self.setBucket name (deleteKeyVersion b key versionId))

/-- Bind `dst` to `src`'s CID; `now` becomes the last-modified time. -/
def copy (self : Index) (srcBucket srcKey dstBucket dstKey : String) (now : Nat) :
    Except String Unit × Index :=
  match self.head srcBucket srcKey with
  | .error e => (.error e, self)
  | .ok m => self.put dstBucket dstKey { m with lastModified := now }

end Index

end CeStorage
