import CeStorage.Lib.Str
import CeStorage.Store.Basic

/-!
# Requests and responses (`gateway.rs`)

What the handlers of the gateway read of a request and what they answer, with
the helpers that parse the one and build the other. A request is modelled as the
handler gets it: the path matched and decoded, the query parsed, the header
names in lower case. A response is what the handler hands back: how `axum` puts
it on the wire is not modelled, and the order of its headers is forgotten.
-/

namespace CeStorage

open Lib
open Std (ExtTreeMap)

inductive Method where
  | get
  | head
  | put
  | post
  | delete
  deriving DecidableEq

/-- The paths of the router: `/`, `/:bucket`, `/:bucket/*key`. -/
inductive Path where
  | root
  | bucket (bucket : String)
  | object (bucket key : String)
  deriving DecidableEq

structure HttpRequest where
  method : Method
  path : Path
  /-- In order; the first header of a name is the one that is read. -/
  headers : List (String × String)
  query : ExtTreeMap String String
  body : Bytes

inductive Body where
  | empty
  | text (s : String)
  | bytes (b : Bytes)
  deriving DecidableEq

structure Response where
  status : Nat
  headers : ExtTreeMap String String
  body : Body
  deriving DecidableEq

def headerCap : String := "x-ce-cap"
def headerRequester : String := "x-ce-requester"
def headerCopySource : String := "x-amz-copy-source"
def metaPrefix : String := "x-amz-meta-"

/-! ## Header values and names -/

/-- The characters of a header value that is text, which is what `HeaderValue::to_str`
accepts. -/
def isHeaderText (c : Char) : Bool := (32 ≤ c.toNat && c.toNat < 127) || c.toNat == 9

/-- The characters of any header value: `HeaderValue::try_from` also accepts the bytes
from 128 on, which are those of the characters beyond ASCII. -/
def isHeaderChar (c : Char) : Bool := (32 ≤ c.toNat && c.toNat != 127) || c.toNat == 9

/-- `v.to_str().ok()`. -/
def toStr (v : String) : Option String := if v.toList.all isHeaderText then some v else none

/-- The characters of a header name. -/
def isTokenChar (c : Char) : Bool :=
  c.isAlphanum || "!#$%&'*+-.^_`|~".toList.contains c

/-- `HeaderName::try_from`: in lower case, if it is a name. -/
def headerName (s : String) : Option String :=
  if s.toList.all isTokenChar && !s.isEmpty then some (String.ofList (s.toList.map Char.toLower))
  else none

/-- `headers.get(name).and_then(|v| v.to_str().ok())`. -/
def HttpRequest.headerStr (req : HttpRequest) (name : String) : Option String :=
  (req.headers.find? fun h => h.1 == name).bind fun h => toStr h.2

/-! ## Responses -/

/-- `s.into_response()` for a status. -/
def Response.ofStatus (status : Nat) : Response := { status, headers := ∅, body := .empty }

/-- `([(CONTENT_TYPE, "application/xml")], body).into_response()`. -/
def Response.xml (status : Nat) (body : String) : Response :=
  { status, headers := ExtTreeMap.empty.insert "content-type" "application/xml"
    body := .text body }

/-- `(StatusCode::OK, [(ETAG, ..)]).into_response()`. -/
def Response.etag (etag : String) : Response :=
  { status := 200, headers := ExtTreeMap.empty.insert "etag" s!"\"{etag}\"", body := .empty }

def xmlEscape (s : String) : String :=
  Str.replaceChar '"' "&quot;" (Str.replaceChar '>' "&gt;"
    (Str.replaceChar '<' "&lt;" (Str.replaceChar '&' "&amp;" s)))

def err (status : Nat) (code msg : String) : Response :=
  .xml status s!"<?xml version=\"1.0\" encoding=\"UTF-8\"?><Error><Code>{code}</Code><Message>{xmlEscape msg}</Message></Error>"

/-- The response to each kind of `StorageError`. -/
def storageErr : StorageError → Response
  | .noSuchBucket b => err 404 "NoSuchBucket" s!"no such bucket: {b}"
  | .noSuchKey k => err 404 "NoSuchKey" s!"no such key: {k}"
  | .invalidRange m => err 416 "InvalidRange" m
  | .preconditionFailed m => err 412 "PreconditionFailed" m
  | .notModified => .ofStatus 304
  | .invalidRequest m => err 400 "InvalidRequest" m
  | .backend m => err 500 "InternalError" m

/-- `insert_str`: a header whose value is none is left out. -/
def insertStr (map : ExtTreeMap String String) (name value : String) : ExtTreeMap String String :=
  if value.toList.all isHeaderChar then map.insert name value else map

/-- The loop that turns user metadata into `x-amz-meta-*` headers. -/
def insertMetadata (map : ExtTreeMap String String) (metadata : UserMetadata) :
    ExtTreeMap String String :=
  metadata.toList.foldl (fun map p =>
    match headerName (metaPrefix ++ p.1) with
    | some name => insertStr map name p.2
    | none => map) map

/-- One optional header. -/
def insertOpt (map : ExtTreeMap String String) (name : String) (value : Option String) :
    ExtTreeMap String String :=
  match value with
  | some v => insertStr map name v
  | none => map

/-! ## Requests -/

/-- `extract_user_metadata`. -/
def extractUserMetadata (req : HttpRequest) : UserMetadata :=
  req.headers.foldl (fun m h =>
    match Str.stripPrefix h.1 metaPrefix, toStr h.2 with
    | some k, some v => m.insert k v
    | _, _ => m) ∅

/-- `extract_preconditions`: dates are accepted as unix seconds only. -/
def extractPreconditions (req : HttpRequest) : Preconditions :=
  let parseSecs (name : String) := (req.headerStr name).bind fun s => Str.parseU64 (Str.trim s)
  { ifMatch := req.headerStr "if-match"
    ifNoneMatch := req.headerStr "if-none-match"
    ifModifiedSince := parseSecs "if-modified-since"
    ifUnmodifiedSince := parseSecs "if-unmodified-since" }

/-- The loop that collects what stands between each `start` and the next `stop`,
up to the first `start` that is not closed. `fuel` bounds the number of rounds. -/
def between (start stop : List Char) : Nat → List Char → List (List Char)
  | 0, _ => []
  | fuel + 1, rest =>
    match Str.findSub start rest with
    | none => []
    | some (_, after) =>
      match Str.findSub stop after with
      | none => []
      | some (found, rest) => found :: between start stop fuel rest

/-- `between` with as many rounds as the text has characters: every round
consumes the one that `start` begins with. -/
def allBetween (start stop : String) (text : String) : List String :=
  (between start.toList stop.toList text.toList.length text.toList).map String.ofList

/-- `parse_delete_keys`: the `<Key>` elements of an XML body, or a list separated
by newlines or commas. -/
def parseDeleteKeys (text : String) : List String :=
  if (Str.findSub "<Key>".toList text.toList).isSome then allBetween "<Key>" "</Key>" text
  else ((Str.split (fun c => c == '\n' || c == ',') text.toList).map fun w =>
    Str.trim (String.ofList w)).filter fun s => !s.isEmpty

/-- `extract_tag`: the text of the first `<tag>..</tag>`. -/
def extractTag (s tag : String) : Option String := do
  let (_, after) ← Str.findSub (s!"<{tag}>").toList s.toList
  let (found, _) ← Str.findSub (s!"</{tag}>").toList after
  return String.ofList found

/-- One `<Part>` block; skipped if the number or the etag is missing. -/
def parsePart (block : String) : Option (Nat × String) := do
  let n ← (extractTag block "PartNumber").bind fun s => Str.parseU32 (Str.trim s)
  let etag ← extractTag block "ETag"
  return (n, Str.trimMatches (· == '"') (Str.trim etag))

/-- `parse_complete_parts`. -/
def parseCompleteParts (xml : String) : List (Nat × String) :=
  (allBetween "<Part>" "</Part>" xml).filterMap parsePart

theorem between_cons {start stop cs before after found rest : List Char} (fuel : Nat)
    (hstart : Str.findSub start cs = some (before, after))
    (hstop : Str.findSub stop after = some (found, rest)) :
    between start stop (fuel + 1) cs = found :: between start stop fuel rest := by
  rw [between, hstart]
  dsimp only
  rw [hstop]

theorem between_nil {start cs : List Char} (stop : List Char) (fuel : Nat)
    (h : Str.findSub start cs = none) : between start stop fuel cs = [] := by
  cases fuel with
  | zero => rfl
  | succ fuel => rw [between, h]

/-! ### Every round consumes something -/

theorem findSub_length {pat cs before after : List Char}
    (h : Str.findSub pat cs = some (before, after)) :
    before.length + pat.length + after.length = cs.length := by
  induction cs generalizing before after with
  | nil =>
    unfold Str.findSub at h
    split at h
    next hp =>
      cases h
      rw [List.isPrefixOf_iff_prefix, List.prefix_nil] at hp
      rw [hp]
      rfl
    next => exact nomatch h
  | cons c cs ih =>
    unfold Str.findSub at h
    split at h
    next hp =>
      cases h
      have hle := (List.isPrefixOf_iff_prefix.mp hp).length_le
      rw [List.length_drop, List.length_nil]
      omega
    next =>
      obtain ⟨⟨b, a⟩, hf, hba⟩ := Option.map_eq_some_iff.mp h
      cases hba
      have hlen := ih hf
      dsimp only [List.length_cons]
      omega

/-- So more rounds than characters find nothing more. -/
theorem between_fuel {start stop : List Char} (hs : start ≠ []) (rest : List Char) {m n : Nat}
    (hm : rest.length ≤ m) (hn : rest.length ≤ n) :
    between start stop m rest = between start stop n rest := by
  have hpos : 0 < start.length := List.length_pos_iff.mpr hs
  have hnil : ∀ k, between start stop k [] = [] := by
    intro k
    cases k with
    | zero => rfl
    | succ k =>
      unfold between
      cases hf : Str.findSub start [] with
      | none => rfl
      | some p =>
        have hlen := findSub_length hf
        rw [List.length_nil] at hlen
        omega
  -- each match consumes at least the start tag, so the rest gets shorter
  induction m generalizing rest n with
  | zero =>
    obtain rfl : rest = [] := List.length_eq_zero_iff.mp (Nat.le_zero.mp hm)
    rw [hnil, hnil]
  | succ m ih =>
    cases n with
    | zero =>
      obtain rfl : rest = [] := List.length_eq_zero_iff.mp (Nat.le_zero.mp hn)
      rw [hnil, hnil]
    | succ n =>
      unfold between
      cases hf : Str.findSub start rest with
      | none => rfl
      | some p =>
        have h1 := findSub_length hf
        dsimp only
        cases hg : Str.findSub stop p.2 with
        | none => rfl
        | some q =>
          have h2 := findSub_length hg
          exact congrArg _ (ih q.2 (by omega) (by omega))

end CeStorage
