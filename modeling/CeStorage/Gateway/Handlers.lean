import CeStorage.Gateway.Http
import CeStorage.Store.Verbs

/-!
# The handlers (`gateway.rs`)

A handler is a `Gate`: checks of the presenter's capability, each of which can
end the request, then at most one call of the store, and a response made of the
result. `serve` is the router: it finds the handler of a request and runs it on
the gateway's store, which the request has to itself.

`verifyLink` stands for `caps::verify_link` with the node's own settings: any
function of the time, the presenter, the ability, the bucket, the key and the
token.
-/

namespace CeStorage

open Lib
open Std (ExtTreeMap)

def abilityRead : String := "storage:read"
def abilityWrite : String := "storage:write"

/-! ## Authorization -/

/-- An ability on a bucket and key. -/
structure Grant where
  ability : String
  bucket : String
  key : String
  deriving DecidableEq

structure Auth where
  verifyLink : (now : Nat) → (requester : Bytes) → (ability bucket key token : String) →
    Except String Unit

structure Gateway where
  /-- None: the gateway is open. -/
  auth : Option Auth
  bodyLimit : Nat

/-- `parse_node_id`. -/
def parseNodeId (s : String) : Option Bytes :=
  (Str.hexDecode (Str.trim s).toList).filter fun bytes => bytes.length == 32

/-- Enforce auth, if configured, for an ability on a bucket and key: the response
that ends the request, or `ok`. -/
def Gateway.authorize (self : Gateway) (req : HttpRequest) (now : Nat) (g : Grant) :
    Except Response Unit :=
  match self.auth with
  | none => .ok ()
  | some auth =>
    match (req.headerStr headerCap).or req.query["ce-cap"]? with
    | none => .error (err 403 "AccessDenied"
        "missing capability link (X-Ce-Cap header or ?ce-cap=)")
    | some token =>
      match (req.headerStr headerRequester).bind parseNodeId with
      | none => .error (err 403 "AccessDenied" "missing or invalid X-Ce-Requester node id")
      | some requester =>
        match auth.verifyLink now requester g.ability g.bucket g.key token with
        | .ok () => .ok ()
        | .error e => .error (err 403 "AccessDenied" e)

/-! ## Handlers -/

inductive Gate : Type 1 where
  | answer (r : Response)
  /-- `if let Err(resp) = gw.authorize(..) { return *resp; }`. -/
  | check (g : Grant) (next : Gate)
  /-- A mutating method; the response may also read the store it leaves. -/
  | call {ε α : Type} (op : Store → Op ε α) (respond : Except ε α → Store → Response)
  | read {ε α : Type} (x : Act ε α) (respond : Except ε α → Response)

/-- What a request leaves behind. -/
structure Reply where
  response : Response
  store : Store
  world : World
  /-- What `verify_link` accepted during the request. -/
  granted : List Grant

namespace Gate

/-- Run a handler on the store. -/
def run (ce : CeRs) (gw : Gateway) (req : HttpRequest) (env : Env) (s : Store) (w : World) :
    Gate → Reply
  | answer r => ⟨r, s, w, []⟩
  | check g next =>
    match gw.authorize req env.now g with
    | .error r => ⟨r, s, w, []⟩
    | .ok () =>
      let y := next.run ce gw req env s w
      if gw.auth.isSome then { y with granted := g :: y.granted } else y
  | call op respond =>
    let r := (op s).exec ce env s w
    ⟨respond r.1.1 r.1.2, r.1.2, r.2, []⟩
  | read x respond => ⟨respond (exec ce env x s w).1.1, s, w, []⟩

end Gate

namespace Gateway

/-- `list_buckets`. -/
def listBuckets : Gate :=
  .read (ε := Empty) (do let self ← Act.self; pure self.listBuckets) fun
    | .ok names =>
      .xml 200 ("<?xml version=\"1.0\" encoding=\"UTF-8\"?><ListAllMyBucketsResult><Buckets>"
        ++ String.join (names.map fun b => s!"<Bucket><Name>{xmlEscape b}</Name></Bucket>")
        ++ "</Buckets></ListAllMyBucketsResult>")

/-- `create_bucket`. -/
def createBucket (bucket : String) : Gate :=
  .call (fun _ => Store.makeBucket bucket) fun r _ =>
    match r with
    | .ok () => .ofStatus 200
    | .error e => err 409 "BucketAlreadyExists" e

/-- The body of a listing. -/
def listBody (bucket keyPrefix : String) (delimiter : Option String) (page : ListPage) : String :=
  s!"<?xml version=\"1.0\" encoding=\"UTF-8\"?><ListBucketResult><Name>{xmlEscape bucket}</Name><Prefix>{xmlEscape keyPrefix}</Prefix><MaxKeys>{page.maxKeys}</MaxKeys><KeyCount>{page.keyCount}</KeyCount><IsTruncated>{page.isTruncated}</IsTruncated>"
    ++ (match delimiter with
      | some d => s!"<Delimiter>{xmlEscape d}</Delimiter>"
      | none => "")
    ++ (match page.nextContinuation with
      | some tok => s!"<NextContinuationToken>{xmlEscape tok}</NextContinuationToken>"
      | none => "")
    ++ String.join (page.keys.map fun p =>
      s!"<Contents><Key>{xmlEscape p.1}</Key><LastModified>{p.2.lastModified}</LastModified><Size>{p.2.size}</Size><ETag>\"{xmlEscape p.2.etag}\"</ETag></Contents>")
    ++ String.join (page.commonPrefixes.map fun cp =>
      s!"<CommonPrefixes><Prefix>{xmlEscape cp}</Prefix></CommonPrefixes>")
    ++ "</ListBucketResult>"

/-- `list_objects`. -/
def listObjects (bucket : String) (req : HttpRequest) : Gate :=
  .check ⟨abilityRead, bucket, ""⟩ <|
    let keyPrefix := req.query["prefix"]?.getD ""
    let delimiter := req.query["delimiter"]?
    let cont := req.query["continuation-token"]?.or req.query["start-after"]?
    -- a `max-keys` that does not parse counts as none
    let maxKeys := ((req.query["max-keys"]?.bind Str.parseU64).map
      fun n => min (max n 1) 100000).getD 1000
    .read (do
        let self ← Act.self
        Act.lift (self.listObjects bucket keyPrefix delimiter cont maxKeys)) fun
      | .ok page => .xml 200 (listBody bucket keyPrefix delimiter page)
      | .error e => err 404 "NoSuchBucket" e

/-- `bulk_delete`. -/
def bulkDelete (bucket : String) (req : HttpRequest) : Gate :=
  if !req.query.contains "delete" then .answer (err 400 "InvalidRequest" "POST requires ?delete")
  else .check ⟨abilityWrite, bucket, ""⟩ <|
    let keys := parseDeleteKeys (Str.fromUtf8Lossy req.body)
    if keys.isEmpty then .answer (err 400 "InvalidRequest" "no keys to delete")
    else .call (fun _ => Store.deleteObjects bucket keys) fun r _ =>
      match r with
      | .ok results => .xml 200
          ("<?xml version=\"1.0\" encoding=\"UTF-8\"?><DeleteResult>"
            ++ String.join (results.map fun p =>
              match p.2 with
              | .ok () => s!"<Deleted><Key>{xmlEscape p.1}</Key></Deleted>"
              | .error e =>
                s!"<Error><Key>{xmlEscape p.1}</Key><Message>{xmlEscape e}</Message></Error>")
            ++ "</DeleteResult>")
      | .error e => err 404 "NoSuchBucket" e

/-- The content type a request gives, or the default. -/
def contentTypeOf (req : HttpRequest) : String :=
  (req.headerStr "content-type").getD "application/octet-stream"

/-- `put_object` with both `partNumber` and `uploadId`: UploadPart. The upload is
the one that `uploadId` names, whatever its target. -/
def putPart (ce : CeRs) (partNumber uploadId : String) (req : HttpRequest) : Gate :=
  match Str.parseU32 partNumber with
  | none => .answer (err 400 "InvalidArgument" "partNumber must be an integer")
  | some n =>
    .call (fun self => Store.uploadPart ce self uploadId n req.body) fun r _ =>
      match r with
      | .ok etag => .etag etag
      | .error e => storageErr e

/-- The response to a copy, which reads the etag back. -/
def copyResponse (r : Except String Unit) (head : Except String ObjectMeta) : Response :=
  match r with
  | .ok () =>
    let etag := (head.toOption.map (·.etag)).getD ""
    .xml 200 s!"<?xml version=\"1.0\" encoding=\"UTF-8\"?><CopyObjectResult><ETag>\"{xmlEscape etag}\"</ETag></CopyObjectResult>"
  | .error e => err 404 "NoSuchKey" e

/-- `put_object` with an `x-amz-copy-source` header: CopyObject. -/
def putCopy (bucket key source : String) : Gate :=
  match Str.splitOnce '/' (Str.trimStartMatches (· == '/') source) with
  | none => .answer (err 400 "InvalidRequest" "x-amz-copy-source must be bucket/key")
  | some (sb, sk) =>
    -- the source needs a grant of its own
    .check ⟨abilityRead, sb, sk⟩ <|
      .call (fun _ => Store.copyObject sb sk bucket key) fun r self =>
        copyResponse r (self.headObject bucket key)

/-- `put_object` otherwise: PutObject. -/
def putPlain (bucket key : String) (req : HttpRequest) : Gate :=
  let opts : PutOptions :=
    { contentType := contentTypeOf req, metadata := extractUserMetadata req
      cacheControl := req.headerStr "cache-control"
      contentDisposition := req.headerStr "content-disposition"
      contentEncoding := req.headerStr "content-encoding"
      preconditions := extractPreconditions req }
  .call (fun self => self.putObjectOpts bucket key req.body opts) fun r _ =>
    match r with
    | .ok m => .etag m.etag
    | .error e => storageErr e

/-- `put_object`. -/
def putObject (ce : CeRs) (bucket key : String) (req : HttpRequest) : Gate :=
  .check ⟨abilityWrite, bucket, key⟩ <|
    match req.query["partNumber"]?, req.query["uploadId"]? with
    | some pn, some uid => putPart ce pn uid req
    | _, _ =>
      match req.headerStr headerCopySource with
      | some source => putCopy bucket key source
      | none => putPlain bucket key req

/-- `post_object` with `uploads`: CreateMultipartUpload. -/
def postUploads (ce : CeRs) (bucket key : String) (req : HttpRequest) : Gate :=
  let opts : PutOptions :=
    { contentType := contentTypeOf req, metadata := extractUserMetadata req }
  .call (fun _ => Store.createMultipartUpload ce bucket key opts) fun r _ =>
    match r with
    | .ok id => .xml 200 s!"<?xml version=\"1.0\" encoding=\"UTF-8\"?><InitiateMultipartUploadResult><Bucket>{xmlEscape bucket}</Bucket><Key>{xmlEscape key}</Key><UploadId>{xmlEscape id}</UploadId></InitiateMultipartUploadResult>"
    | .error e => storageErr e

/-- `post_object` with `uploadId`: CompleteMultipartUpload. The upload is the one
that `uploadId` names, whatever its target. -/
def postComplete (ce : CeRs) (bucket key uploadId : String) (req : HttpRequest) : Gate :=
  let parts := parseCompleteParts (Str.fromUtf8Lossy req.body)
  if parts.isEmpty then
    .answer (err 400 "InvalidRequest" "CompleteMultipartUpload requires a non-empty <Part> list")
  else .call (fun _ => Store.completeMultipartUpload ce uploadId parts) fun r _ =>
    match r with
    | .ok m => .xml 200 s!"<?xml version=\"1.0\" encoding=\"UTF-8\"?><CompleteMultipartUploadResult><Bucket>{xmlEscape bucket}</Bucket><Key>{xmlEscape key}</Key><ETag>\"{xmlEscape m.etag}\"</ETag></CompleteMultipartUploadResult>"
    | .error e => storageErr e

/-- `post_object`. -/
def postObject (ce : CeRs) (bucket key : String) (req : HttpRequest) : Gate :=
  .check ⟨abilityWrite, bucket, key⟩ <|
    if req.query.contains "uploads" then postUploads ce bucket key req
    else
      match req.query["uploadId"]? with
      | some uid => postComplete ce bucket key uid req
      | none => .answer (err 400 "InvalidRequest"
          "POST on an object requires ?uploads (initiate) or ?uploadId= (complete)")

/-- The response to a get that succeeds. -/
def getResponse (res : GetResult) : Response :=
  let map := insertStr ∅ "content-type" res.contentType
  let map := insertStr map "etag" s!"\"{res.etag}\""
  let map := insertStr map "accept-ranges" "bytes"
  let map := insertStr map "last-modified" (toString res.lastModified)
  let map := insertOpt map "cache-control" res.cacheControl
  let map := insertOpt map "content-disposition" res.contentDisposition
  let map := insertOpt map "content-encoding" res.contentEncoding
  let map := insertMetadata map res.metadata
  match res.range with
  | some (start, stop) =>
    { status := 206
      headers := insertStr map "content-range" s!"bytes {start}-{stop}/{res.totalSize}"
      body := .bytes res.bytes }
  | none => { status := 200, headers := map, body := .bytes res.bytes }

/-- `get_object`. -/
def getObject (ce : CeRs) (bucket key : String) (req : HttpRequest) : Gate :=
  .check ⟨abilityRead, bucket, key⟩ <|
    let versionId := req.query["versionId"]?
    -- with a `range` header the conditions are not looked at
    .read (match req.headerStr "range" with
      | some range => Store.getObjectRangeOpts ce bucket key range versionId
      | none => Store.getObjectOpts bucket key versionId (extractPreconditions req)) fun
      | .ok res => getResponse res
      | .error e => storageErr e

/-- The response to a head that finds its object: 304 or the headers. -/
def headResponse (req : HttpRequest) (m : ObjectMeta) : Response :=
  if (extractPreconditions req).checkRead m.etag m.lastModified = .error .notModified then
    -- a condition that fails with 412 is passed over
    .ofStatus 304
  else
    let map := insertStr ∅ "content-length" (toString m.size)
    let map := insertStr map "etag" s!"\"{m.etag}\""
    let map := insertStr map "content-type" m.contentType
    let map := insertStr map "last-modified" (toString m.lastModified)
    { status := 200, headers := insertMetadata map m.metadata, body := .empty }

/-- `head_object`. -/
def headObject (bucket key : String) (req : HttpRequest) : Gate :=
  .check ⟨abilityRead, bucket, key⟩ <|
    .read (do
        let self ← Act.self
        Act.lift (match req.query["versionId"]? with
          | some v => self.headObjectVersion bucket key v
          | none => self.headObject bucket key)) fun
      | .ok m => headResponse req m
      | .error _ => .ofStatus 404

/-- `delete_object`: the version that `versionId` names, or the key. -/
def deleteObject (bucket key : String) (req : HttpRequest) : Gate :=
  .check ⟨abilityWrite, bucket, key⟩ <|
    .call (fun _ => match req.query["versionId"]? with
      | some v => Store.deleteObjectVersion bucket key v
      | none => Store.deleteObject bucket key) fun r _ =>
      match r with
      | .ok () => .ofStatus 204
      | .error e => err 404 "NoSuchBucket" e

/-! ## The router -/

/-- A handler that takes the body refuses one above the limit before it starts. -/
def withBody (gw : Gateway) (req : HttpRequest) (handler : Gate) : Gate :=
  if gw.bodyLimit < req.body.length then
    .answer { Response.ofStatus 413 with
      body := .text "Failed to buffer the request body: length limit exceeded" }
  else handler

/-- The routes. `get` answers a HEAD too where there is no handler for it. -/
def route (ce : CeRs) (gw : Gateway) (req : HttpRequest) : Gate :=
  match req.path, req.method with
  -- the first two routes check no grant
  | .root, .get | .root, .head => listBuckets
  | .bucket b, .put => createBucket b
  | .bucket b, .get | .bucket b, .head => listObjects b req
  | .bucket b, .post => gw.withBody req (bulkDelete b req)
  | .object b k, .put => gw.withBody req (putObject ce b k req)
  | .object b k, .get => getObject ce b k req
  | .object b k, .head => headObject b k req
  | .object b k, .post => gw.withBody req (postObject ce b k req)
  | .object b k, .delete => deleteObject b k req
  | _, _ => .answer (.ofStatus 405)

end Gateway

/-- Serve one request. -/
def serve (ce : CeRs) (gw : Gateway) (req : HttpRequest) (env : Env) (s : Store) (w : World) :
    Reply :=
  (Gateway.route ce gw req).run ce gw req env s w

end CeStorage
