import CeStorage.Gateway.ReadBack
import CeStorage.Index.Versions
import CeStorage.Reads
import CeStorage.Store.Sealed

/-!
# What was sealed is unsealed

A sealed put is a put of the sealed record under marked metadata. Calls that spare
the key leave its history alone, whatever handle makes them, so a handle that is
opened later finds the record, as the current version and by its version id. Under
the key it was sealed with, a sealed get answers with the plaintext, and under
another key with nothing but what seals to the same record (`sealed_put_then_get`).
-/

namespace CeStorage

open Lib

section

variable {ce : CeRs} {env : Env} {s : Store} {w : World} {b k : String} {m : ObjectMeta}
  {bytes : Bytes} {entry : ObjectEntry} {sha : Sha256} {salt : Salt} {plaintext userKey : Bytes}
  {opts : PutOptions}

/-! ## The put -/

/-- A sealed put that succeeds is a put of the record. -/
theorem putObjectSealed_ok {self : Store}
    (h : ((self.putObjectSealed sha salt b k plaintext userKey opts).exec ce env s w).1.1 = .ok m) :
    (self.putObjectSealed sha salt b k plaintext userKey opts).exec ce env s w
      = (self.putObjectOpts b k («seal» sha plaintext userKey salt)
          (sealedOptions opts plaintext.length)).exec ce env s w := by
  unfold Store.putObjectSealed at h ⊢
  by_cases hsize : self.maxObjectSize < plaintext.length
  · rw [if_pos hsize] at h
    exact nomatch h
  · rw [if_neg hsize] at h ⊢
    by_cases hkey : userKey.isEmpty = true
    · rw [if_pos hkey] at h
      exact nomatch h
    · rw [if_neg hkey]

/-- The key has the history `entry`, which ends in `m`, and its content is stored. -/
structure Kept (ce : CeRs) (b k : String) (entry : ObjectEntry) (m : ObjectMeta) (bytes : Bytes)
    (w : World) : Prop where
  file : w.historyOf b k = some entry
  current : entry.current = some ⟨m, false⟩
  addressed : Addressed ce w
  content : ContentOf ce w m bytes

/-- A put that succeeds leaves its content under the key. -/
theorem put_kept (hce : ce.Lawful) (henv : env.Truthful ce) (hw : Addressed ce w)
    (h : ((s.putObjectOpts b k bytes opts).exec ce env s w).1.1 = .ok m) :
    m = putMeta (ce.objectCid bytes) bytes opts env.now ∧ ∃ entry,
      Kept ce b k entry m bytes ((s.putObjectOpts b k bytes opts).exec ce env s w).2 := by
  have his : (StoreCall.putObjectOpts b k bytes opts).Is ce
      (fun self => self.putObjectOpts b k bytes opts) .storage .object := is_object fun _ => rfl
  have hexec : (StoreCall.putObjectOpts b k bytes opts).exec ce env s w = _ := his.exec s w
  have hr : ((StoreCall.putObjectOpts b k bytes opts).exec ce env s w).1.1 = .ok (.object m) := by
    rw [hexec, h]
    rfl
  have hworld : ((s.putObjectOpts b k bytes opts).exec ce env s w).2
      = ((StoreCall.putObjectOpts b k bytes opts).exec ce env s w).2 := by
    rw [hexec]
  rw [hworld]
  rcases putObjectOpts_cases ce env b k bytes opts s w with
    ⟨⟨e, he⟩, -⟩ | ⟨cid, i, j, hput, hi, -, hj, hr', hf, hb⟩
  · exact nomatch hr.symm.trans he
  cases hr.symm.trans hr'
  have hc : ContentOf ce _ (putMeta cid bytes opts env.now) bytes :=
    putMeta_content hce henv hw hput hb env.now
  have hcid : cid = ce.objectCid bytes := hc.cid
  subst hcid
  obtain ⟨entry, v, hentry, hv, hlive, hmeta⟩ := Index.head_eq_ok.mp (Index.head_put hj)
  refine ⟨rfl, entry, ?_, ?_, ?_, hc⟩
  · unfold World.historyOf
    rw [hf, Function.update_self, Index.decode_put hi hj]
    exact hentry
  · rw [hv, ← hmeta, ← hlive]
  · exact ((StoreCall.putObjectOpts b k bytes opts).exec_blobs hce henv hw).1

/-! ## Calls in between -/

/-- The call spares `k` in `b`, and its blob store answers as a content-addressed one. -/
def SparesKey (ce : CeRs) (b k : String) (x : Ledger) (e : Invocation) : Prop :=
  e.env.Truthful ce ∧ e.call.Spares x.world b k

theorem Kept.after (hce : ce.Lawful) {x : Ledger} {e : Invocation}
    (h : Kept ce b k entry m bytes x.world) (hok : SparesKey ce b k x e) :
    Kept ce b k entry m bytes (x.after ce e).world := by
  obtain ⟨haddr, hgrow⟩ := e.call.exec_blobs (s := e.handle) hce hok.1 h.addressed
  exact ⟨(historyOf_spared hok.2).trans h.file, h.current, haddr, h.content.mono hgrow⟩

/-! ## The get -/

/-- A handle that has the history finds the version, as the current one and by its
id. -/
theorem metaFor_kept (h : s.index.history b k = some entry)
    (hcur : entry.current = some ⟨m, false⟩) {versionId : Option String}
    (hid : versionId = none ∨ versionId = some m.versionId) :
    s.metaFor b k versionId = .ok m := by
  refine mapError_eq_ok.mpr ?_
  rcases hid with rfl | rfl
  · exact Index.head_eq_ok.mpr ⟨entry, _, h, hcur, rfl, rfl⟩
  · refine Index.headVersion_eq_ok.mpr ⟨entry, ⟨m, false⟩, h, ?_, rfl, rfl⟩
    obtain ⟨vs, hvs⟩ := List.getLast?_eq_some_iff.mp hcur
    have hentry : entry = ⟨vs ++ [⟨m, false⟩]⟩ := by
      rw [← hvs]
    rw [hentry, ObjectEntry.byVersion_append, if_pos rfl]

theorem getObjectOpts_plain {versionId : Option String} {full : Bytes}
    (hm : s.metaFor b k versionId = .ok m) (hget : env.getObject m.cid = .ok full) :
    exec ce env (Store.getObjectOpts b k versionId {}) s w
      = ((.ok (Store.resultFrom m full none), s), w) := by
  have hcheck : ({} : Preconditions).checkRead m.etag m.lastModified = .ok () := rfl
  unfold Store.getObjectOpts
  rw [exec_bind_ok exec_self, hm, exec_bind_ok (exec_lift _), hcheck, exec_bind_ok (exec_lift _)]
  unfold Act.blob
  rw [exec_bind, exec_bind_ok (exec_call _), exec_lift]
  dsimp only [perform]
  rw [hget]
  rfl

/-- A sealed get of a version whose content it fetches. -/
theorem getObjectSealed_eq {versionId : Option String} {full key : Bytes}
    (hm : s.metaFor b k versionId = .ok m) (hget : env.getObject m.cid = .ok full) :
    (exec ce env (Store.getObjectSealed sha b k key versionId) s w).1.1
      = ((«unseal» sha full key).mapError fun e =>
          StorageError.invalidRequest s!"unsealing object: {e}").map fun p =>
        { Store.resultFrom m full none with bytes := p, totalSize := p.length } := by
  have hbytes : (Store.resultFrom m full none).bytes = full := rfl
  unfold Store.getObjectSealed
  rw [exec_bind_ok (getObjectOpts_plain hm hget), exec_bind_lift, hbytes]
  cases «unseal» sha full key with
  | error e => rfl
  | ok p => rfl

/-- A record gives back what was sealed. -/
theorem unseal_seal : «unseal» sha («seal» sha plaintext userKey salt) userKey = .ok plaintext := by
  refine unseal_eq_ok.mpr ⟨salt, _, rfl, ?_⟩
  rw [applyKeystream_applyKeystream]

/-- What a record gives seals to it. -/
theorem sealed_of_unseal {record p : Bytes} (h : «unseal» sha record userKey = .ok p) :
    ∃ salt', record = «seal» sha p userKey salt' := by
  obtain ⟨salt', ciphertext, hrecord, rfl⟩ := unseal_eq_ok.mp h
  refine ⟨salt', hrecord.trans ?_⟩
  unfold «seal» sealBody
  rw [applyKeystream_applyKeystream]

/-- What a sealed get of the object gives, that was put with `opts` as `m`. -/
structure UnsealsTo (opts : PutOptions) (plaintext : Bytes) (m : ObjectMeta) (res : GetResult) :
    Prop where
  bytes : res.bytes = plaintext
  totalSize : res.totalSize = plaintext.length
  etag : res.etag = m.etag
  contentType : res.contentType = sealedContentType
  metadata : res.metadata = (sealedOptions opts plaintext.length).metadata
  cacheControl : res.cacheControl = opts.cacheControl
  contentDisposition : res.contentDisposition = opts.contentDisposition
  contentEncoding : res.contentEncoding = opts.contentEncoding

theorem unsealsTo_putMeta (cid : String) (full : Bytes) (t : Nat) :
    UnsealsTo opts plaintext (putMeta cid full (sealedOptions opts plaintext.length) t)
      { Store.resultFrom (putMeta cid full (sealedOptions opts plaintext.length) t) full none with
        bytes := plaintext, totalSize := plaintext.length } :=
  ⟨rfl, rfl, rfl, rfl, rfl, rfl, rfl, rfl⟩

/-- **What was sealed is unsealed.** After a sealed put that succeeded, and any calls
of any handles that spare the key, a handle that is opened then answers a sealed get
of the key, or of the version that was put, with the plaintext and what it was put
with; and one under any key only with what seals to the same record under that key. -/
theorem sealed_put_then_get (ce : CeRs) (hce : ce.Lawful) (sha : Sha256) (salt : Salt)
    (self : Store) (env₀ : Env) (henv₀ : env₀.Truthful ce) (w₀ : World) (hw₀ : Addressed ce w₀)
    (b k : String) (plaintext userKey : Bytes) (opts : PutOptions) (m : ObjectMeta)
    (hput : ((self.putObjectSealed sha salt b k plaintext userKey opts).exec ce env₀ self
      w₀).1.1 = .ok m) (x : Ledger)
    (hx : Reach (Ledger.fire ce) (SparesKey ce b k) (Ledger.start
      ((self.putObjectSealed sha salt b k plaintext userKey opts).exec ce env₀ self w₀).2) x)
    (env : Env) (maxObjectSize pid : Nat) (s : Store)
    (hs : Store.openAt env x.world maxObjectSize pid = .ok s)
    (hserves : ∀ cid bytes, ce.readObject x.world cid = some bytes →
      env.getObject cid = .ok bytes)
    (versionId : Option String) (hid : versionId = none ∨ versionId = some m.versionId) :
    (∃ res, (exec ce env (Store.getObjectSealed sha b k userKey versionId) s x.world).1.1
        = .ok res ∧ UnsealsTo opts plaintext m res) ∧
      ∀ key res,
        (exec ce env (Store.getObjectSealed sha b k key versionId) s x.world).1.1 = .ok res →
          ∃ salt', «seal» sha plaintext userKey salt = «seal» sha res.bytes key salt' := by
  have hrecord := putObjectSealed_ok hput
  rw [hrecord] at hput hx
  obtain ⟨hm, entry, hkept₀⟩ := put_kept hce henv₀ hw₀ hput
  have hkept : Kept ce b k entry m («seal» sha plaintext userKey salt) x.world := by
    refine hx.inv (I := fun y => Kept ce b k entry m _ y.world) hkept₀ ?_
    intro y e y' _ hI hok hf
    cases hf
    exact hI.after hce hok
  -- the handle has loaded what the file says of the key
  have hloaded : Index.decode (x.world.files .index) = .ok s.index :=
    Store.openAt_synced (by rw [hs]; rfl)
  have hhistory : s.index.history b k = some entry := by
    have hfile := hkept.file
    unfold World.historyOf at hfile
    rw [hloaded] at hfile
    exact hfile
  have hmeta := metaFor_kept hhistory hkept.current hid
  have hget := hserves _ _ (hkept.content.read hce)
  have hanswer (key : Bytes) :
      (exec ce env (Store.getObjectSealed sha b k key versionId) s x.world).1.1 = _ :=
    getObjectSealed_eq hmeta hget
  subst hm
  constructor
  · refine ⟨_, (hanswer userKey).trans ?_,
      unsealsTo_putMeta _ («seal» sha plaintext userKey salt) _⟩
    rw [unseal_seal]
    rfl
  · intro key res hres
    rw [hanswer] at hres
    cases hu : «unseal» sha («seal» sha plaintext userKey salt) key with
    | error e =>
      rw [hu] at hres
      exact nomatch hres
    | ok p =>
      rw [hu] at hres
      cases hres
      exact sealed_of_unseal hu

end

/-! ## SHA-256 itself, and an object that is sealed with it -/

private def shaConstants : List UInt32 := [
  0x428a2f98, 0x71374491, 0xb5c0fbcf, 0xe9b5dba5, 0x3956c25b, 0x59f111f1, 0x923f82a4, 0xab1c5ed5,
  0xd807aa98, 0x12835b01, 0x243185be, 0x550c7dc3, 0x72be5d74, 0x80deb1fe, 0x9bdc06a7, 0xc19bf174,
  0xe49b69c1, 0xefbe4786, 0x0fc19dc6, 0x240ca1cc, 0x2de92c6f, 0x4a7484aa, 0x5cb0a9dc, 0x76f988da,
  0x983e5152, 0xa831c66d, 0xb00327c8, 0xbf597fc7, 0xc6e00bf3, 0xd5a79147, 0x06ca6351, 0x14292967,
  0x27b70a85, 0x2e1b2138, 0x4d2c6dfc, 0x53380d13, 0x650a7354, 0x766a0abb, 0x81c2c92e, 0x92722c85,
  0xa2bfe8a1, 0xa81a664b, 0xc24b8b70, 0xc76c51a3, 0xd192e819, 0xd6990624, 0xf40e3585, 0x106aa070,
  0x19a4c116, 0x1e376c08, 0x2748774c, 0x34b0bcb5, 0x391c0cb3, 0x4ed8aa4a, 0x5b9cca4f, 0x682e6ff3,
  0x748f82ee, 0x78a5636f, 0x84c87814, 0x8cc70208, 0x90befffa, 0xa4506ceb, 0xbef9a3f7, 0xc67178f2]

/-- The eight words that a block is mixed into. -/
private structure ShaState where
  (a b c d e f g h : UInt32)

private def ShaState.start : ShaState :=
  ⟨0x6a09e667, 0xbb67ae85, 0x3c6ef372, 0xa54ff53a, 0x510e527f, 0x9b05688c, 0x1f83d9ab, 0x5be0cd19⟩

private def rotr (x : UInt32) (n : UInt32) : UInt32 := (x >>> n) ||| (x <<< (32 - n))

private def ShaState.round (s : ShaState) (kw : UInt32 × UInt32) : ShaState :=
  let t₁ := s.h + (rotr s.e 6 ^^^ rotr s.e 11 ^^^ rotr s.e 25)
    + ((s.e &&& s.f) ^^^ (~~~s.e &&& s.g)) + kw.1 + kw.2
  let t₂ := (rotr s.a 2 ^^^ rotr s.a 13 ^^^ rotr s.a 22)
    + ((s.a &&& s.b) ^^^ (s.a &&& s.c) ^^^ (s.b &&& s.c))
  ⟨t₁ + t₂, s.a, s.b, s.c, s.d + t₁, s.e, s.f, s.g⟩

private def ShaState.add (s t : ShaState) : ShaState :=
  ⟨s.a + t.a, s.b + t.b, s.c + t.c, s.d + t.d, s.e + t.e, s.f + t.f, s.g + t.g, s.h + t.h⟩

/-- The schedule, last word first. -/
private def shaSchedule : Nat → List UInt32 → List UInt32
  | 0, ws => ws
  | n + 1, ws =>
    let w (i : Nat) := ws.getD (i - 1) 0
    let σ₀ := rotr (w 15) 7 ^^^ rotr (w 15) 18 ^^^ (w 15 >>> 3)
    let σ₁ := rotr (w 2) 17 ^^^ rotr (w 2) 19 ^^^ (w 2 >>> 10)
    shaSchedule n ((w 16 + σ₀ + w 7 + σ₁) :: ws)

private def ShaState.block (s : ShaState) (ws : List UInt32) : ShaState :=
  s.add ((shaConstants.zip (shaSchedule 48 ws.reverse).reverse).foldl round s)

private def bigEndian : Bytes → List UInt32
  | a :: b :: c :: d :: rest =>
    (a.toUInt32 <<< 24 ||| b.toUInt32 <<< 16 ||| c.toUInt32 <<< 8 ||| d.toUInt32) :: bigEndian rest
  | _ => []

private def wordBytes (w : UInt32) : Bytes :=
  [(w >>> 24).toUInt8, (w >>> 16).toUInt8, (w >>> 8).toUInt8, w.toUInt8]

private def shaPadded (msg : Bytes) : Bytes :=
  msg ++ 0x80 :: List.replicate ((119 - msg.length % 64) % 64) 0
    ++ wordBytes (UInt32.ofNat (8 * msg.length / 2 ^ 32)) ++ wordBytes (UInt32.ofNat (8 * msg.length))

private def shaBlocks : Nat → List UInt32 → ShaState → ShaState
  | 0, _, s => s
  | n + 1, ws, s => shaBlocks n (ws.drop 16) (s.block (ws.take 16))

private def ShaState.bytes (s : ShaState) : Bytes :=
  wordBytes s.a ++ wordBytes s.b ++ wordBytes s.c ++ wordBytes s.d ++ wordBytes s.e
    ++ wordBytes s.f ++ wordBytes s.g ++ wordBytes s.h

private def sha256 : Sha256 where
  digest msg :=
    let padded := bigEndian (shaPadded msg)
    (shaBlocks (padded.length / 16) padded .start).bytes
  length_digest _ := rfl

private def sixteen : Salt := ⟨List.replicate 16 3, rfl⟩

private def photoAlbum : World :=
  ((StoreCall.makeBucket "photos").exec CeRs.plain (Env.calm CeRs.plain 1 "t") (.fresh 1)
    World.blank).2

private def sealing : Op StorageError ObjectMeta :=
  (Store.fresh 1).putObjectSealed sha256 sixteen "photos" "a" [1, 2, 3] [9] {}

private theorem photoAlbum_addressed : Addressed CeRs.plain photoAlbum :=
  ((StoreCall.makeBucket "photos").exec_blobs CeRs.plain_lawful (calm_truthful _ _ _)
    blank_addressed).1

private def sealedStart : Ledger :=
  .start (sealing.exec CeRs.plain (Env.calm CeRs.plain 2 "v") (.fresh 1) photoAlbum).2

/-- Another object is put after the sealed one. -/
private def sealedThen : Ledger :=
  sealedStart.after CeRs.plain (.calm 3 (.putObjectOpts "photos" "b" [4] {}))

/-- What a process is told that reads the blobs of a world. -/
private def readingBlobs (w : World) : Env :=
  { Env.calm CeRs.plain 6 "x" with
    getObject := fun cid => match CeRs.plain.readObject w cid with
      | some bytes => .ok bytes
      | none => .error "not found" }

set_option maxRecDepth 8000 in
private theorem sealing_ok :
    (sealing.exec CeRs.plain (Env.calm CeRs.plain 2 "v") (.fresh 1) photoAlbum).1.1.toBool ∧
      (Store.openAt (readingBlobs sealedThen.world) sealedThen.world 1000 2).toBool := by
  decide +kernel

private theorem sealedThen_reach :
    Reach (Ledger.fire CeRs.plain) (SparesKey CeRs.plain "photos" "a") sealedStart sealedThen := by
  refine .next .start ⟨calm_truthful _ _ _, ?_⟩ rfl
  intro h
  exact absurd h.2 (by decide)

theorem sealed_put_then_get_three : ∃ s m res,
    (sealing.exec CeRs.plain (Env.calm CeRs.plain 2 "v") (.fresh 1) photoAlbum).1.1 = .ok m ∧
      (exec CeRs.plain (readingBlobs sealedThen.world)
        (Store.getObjectSealed sha256 "photos" "a" [9] (some m.versionId)) s
        sealedThen.world).1.1 = .ok res ∧ res.bytes = [1, 2, 3] := by
  obtain ⟨hput, hopen⟩ := sealing_ok
  cases hm : (sealing.exec CeRs.plain (Env.calm CeRs.plain 2 "v") (.fresh 1) photoAlbum).1.1 with
  | error e =>
    rw [hm] at hput
    exact nomatch hput
  | ok m =>
    cases hs : Store.openAt (readingBlobs sealedThen.world) sealedThen.world 1000 2 with
    | error e =>
      rw [hs] at hopen
      exact nomatch hopen
    | ok s =>
      obtain ⟨⟨res, hres, hunsealed⟩, -⟩ := sealed_put_then_get CeRs.plain CeRs.plain_lawful sha256
        sixteen (.fresh 1) (Env.calm CeRs.plain 2 "v") (calm_truthful _ _ _) photoAlbum
        photoAlbum_addressed "photos" "a" [1, 2, 3] [9] {} m hm sealedThen sealedThen_reach
        (readingBlobs sealedThen.world) 1000 2 s hs
        (by
          intro cid bytes h
          unfold readingBlobs
          dsimp only
          rw [h])
        (some m.versionId) (.inr rfl)
      exact ⟨s, m, res, rfl, hres, hunsealed.bytes⟩

end CeStorage
