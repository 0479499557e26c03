import CeStorage.Cli
import CeStorage.Gateway.Revoked
import CeStorage.Gateway.Writes

/-!
# Links that a gateway honours (`caps.rs`, `main.rs`)

`ce-storage presign` mints a link for a target. A request that presents the link to
the gateway of the node that minted it is served as an open gateway would serve it,
or refused before anything is touched. Which of the two depends, for a request that
needs a grant, on the requester, the time, the revocations that the gateway fetched
when it was started, and the segments of the target alone (`minted_link_serves`).
-/

namespace CeStorage

open Lib
open Std (ExtTreeMap)

/-! ## Minting -/

/-- `Caveats`; the others keep their defaults. -/
structure Caveats where
  notAfter : Nat
  pathPrefix : Option String

/-- What of the `ce_iam_core` crate mints links. -/
structure CeMint (cc : CeCap) where
  /-- `SignedCapability::issue` on a `Resource::Node`, without a parent. -/
  issue : (owner audience : NodeId) → (abilities : List String) → (resource : NodeId) →
    Caveats → (nonce : Nat) → cc.SignedCapability
  encodeChain : List cc.SignedCapability → String

/-- A token decodes to the chain it encodes, a capability carries what it was issued
with, and a node accepts a capability that it issued on itself if that passes the
documented checks. -/
structure CeMint.Documented {cc : CeCap} (mint : CeMint cc) : Prop where
  decode : ∀ chain, cc.decodeChain (mint.encodeChain chain) = .ok chain
  signed : ∀ owner audience abilities resource caveats nonce,
    cc.signed (mint.issue owner audience abilities resource caveats nonce) = true
  issuer : ∀ owner audience abilities resource caveats nonce,
    cc.issuer (mint.issue owner audience abilities resource caveats nonce) = owner
  audience : ∀ owner audience abilities resource caveats nonce,
    cc.audience (mint.issue owner audience abilities resource caveats nonce) = audience
  abilities : ∀ owner audience abilities resource caveats nonce,
    cc.abilities (mint.issue owner audience abilities resource caveats nonce) = abilities
  notAfter : ∀ owner audience abilities resource caveats nonce,
    cc.notAfter (mint.issue owner audience abilities resource caveats nonce) = caveats.notAfter
  pathPrefix : ∀ owner audience abilities resource caveats nonce,
    cc.pathPrefix (mint.issue owner audience abilities resource caveats nonce) = caveats.pathPrefix
  nonce : ∀ owner audience abilities resource caveats nonce,
    cc.nonce (mint.issue owner audience abilities resource caveats nonce) = nonce
  accepts : ∀ selfId acceptedRoots selfTags now requester ability audience abilities caveats nonce
    isRevoked,
    cc.Checks selfId acceptedRoots now requester ability
        [mint.issue selfId audience abilities selfId caveats nonce] isRevoked →
      cc.authorize selfId acceptedRoots selfTags now requester ability
        [mint.issue selfId audience abilities selfId caveats nonce] isRevoked = .ok ()

/-- `mint_link`: one capability, on its owner. -/
def mintLink {cc : CeCap} (mint : CeMint cc) (owner audience : NodeId) (ability : String)
    (scope : Scope) (notAfter nonce : Nat) : String :=
  let caveats : Caveats := { notAfter, pathPrefix := some scope.toCaveat }
  let cap := mint.issue owner audience [ability] owner caveats nonce
  mint.encodeChain [cap]

namespace Cli

/-- The last second of a link; the sum of two `u64` wraps in a release build. -/
def linkExpiry (now expiresIn : Nat) : Nat :=
  if expiresIn = 0 then 0 else (now + expiresIn) % 2 ^ 64

def linkAbility (write : Bool) : String := if write then abilityWrite else abilityRead

/-- `Cmd::Presign`, with the owner's identity, the clock and the nonce it draws. -/
def presign {cc : CeCap} (mint : CeMint cc) (owner : NodeId) (now nonce : Nat) (target : String)
    (write : Bool) (expiresIn : Nat) : Except String String := do
  let (bucket, keyPrefix) ← splitTarget target false
  .ok (mintLink mint owner owner (linkAbility write) { bucket, keyPrefix }
    (linkExpiry now expiresIn) nonce)

end Cli

/-! ## Segments of a target -/

/-- The target without the slashes at its end. -/
def trimmedTarget (target : String) : String := Str.trimEndMatches (· == '/') target

/-- A grant lies under a target: the target's segments are the bucket and the first
segments of the key. -/
def Grant.Under (g : Grant) (target : String) : Prop :=
  segments (trimmedTarget target) <+: g.bucket.toList :: segments g.key

instance (g : Grant) (target : String) : Decidable (g.Under target) :=
  inferInstanceAs (Decidable (_ <+: _))

/-- The caveat of a link lets through what lies under the target it was minted for. -/
theorem splitTarget_allows {target bucket keyPrefix : String} {g : Grant}
    (h : Cli.splitTarget target false = .ok (bucket, keyPrefix)) :
    scopeAllows (Scope.fromCaveat (Scope.toCaveat ⟨bucket, keyPrefix⟩)) g.bucket g.key = true
      ↔ g.Under target := by
  have hparts : '/' ∉ bucket.toList ∧ trimmedTarget target
      = if Str.trimEndMatches (· == '/') keyPrefix = "" then bucket
        else bucket ++ String.singleton '/' ++ Str.trimEndMatches (· == '/') keyPrefix := by
    unfold Cli.splitTarget at h
    cases hs : Str.splitOnce '/' target with
    | some p =>
      rw [hs] at h
      cases h
      obtain ⟨rfl, hbucket⟩ := Str.splitOnce_eq_some hs
      exact ⟨hbucket, Str.trimEndMatches_append hbucket keyPrefix⟩
    | none =>
      rw [hs] at h
      cases h
      have hbucket := Str.splitOnce_eq_none hs
      exact ⟨hbucket, Str.trimEndMatches_bare hbucket⟩
  obtain ⟨hbucket, htrimmed⟩ := hparts
  have hscope : (Scope.mk bucket keyPrefix).trimmed = Str.trimEndMatches (· == '/') keyPrefix := rfl
  unfold Grant.Under
  rw [Scope.fromCaveat_toCaveat hbucket, scopeAllows_segments, hscope, htrimmed]
  have hfirst : bucket.toList = g.bucket.toList ↔ g.bucket = bucket := by
    rw [String.toList_inj, eq_comm]
  by_cases hempty : Str.trimEndMatches (· == '/') keyPrefix = ""
  · rw [if_pos hempty]
    have hone : segments bucket = [bucket.toList] := Str.split_whole hbucket
    rw [hone, List.cons_prefix_cons, hfirst]
    exact and_congr_right fun _ => iff_of_true (.inl hempty) List.nil_prefix
  · rw [if_neg hempty]
    have hmore : segments
          (bucket ++ String.singleton '/' ++ Str.trimEndMatches (· == '/') keyPrefix)
        = bucket.toList :: segments (Str.trimEndMatches (· == '/') keyPrefix) := by
      unfold segments
      rw [← Str.split_append hbucket]
      simp
    rw [hmore, List.cons_prefix_cons, hfirst]
    exact and_congr_right fun _ => or_iff_right hempty

/-! ## What the gateway asks -/

/-- The grants that a handler checks, first to last. -/
def Gate.asks : Gate → List Grant
  | .check g next => g :: next.asks
  | _ => []

section
variable {ce : CeRs} {gw : Gateway} {req : HttpRequest} {env : Env} {s : Store} {w : World}

/-- An open gateway. -/
def Gateway.opened (gw : Gateway) : Gateway := { gw with auth := none }

/-- Where everything is granted that a handler asks, it runs as on an open gateway. -/
theorem Gate.run_granted (hauth : gw.auth.isSome) {x : Gate}
    (h : ∀ g ∈ x.asks, gw.authorize req env.now g = .ok ()) :
    x.run ce gw req env s w
      = { x.run ce gw.opened req env s w with granted := x.asks } := by
  induction x with
  | check g next ih =>
    have hopen : gw.opened.authorize req env.now g = .ok () := rfl
    unfold Gate.run
    rw [h g List.mem_cons_self, hopen]
    dsimp only
    rw [if_pos hauth, if_neg (by exact Bool.false_ne_true),
      ih fun g' hg' => h g' (List.mem_cons_of_mem g hg')]
    rfl
  | answer r => rfl
  | call op respond => rfl
  | read x respond => rfl

/-- Where something is not granted, the request is refused and nothing is done. -/
theorem Gate.run_refused {x : Gate} {g : Grant} (hg : g ∈ x.asks)
    (h : gw.authorize req env.now g ≠ .ok ()) :
    (x.run ce gw req env s w).response.status = 403 ∧ (x.run ce gw req env s w).store = s ∧
      (x.run ce gw req env s w).world = w := by
  induction x with
  | check g' next ih =>
    unfold Gate.run
    cases hg' : gw.authorize req env.now g' with
    | error r => exact ⟨authorize_error hg', rfl, rfl⟩
    | ok u =>
      dsimp only
      have hnext : g ∈ next.asks := by
        rcases List.mem_cons.mp hg with rfl | hnext
        · exact absurd hg' h
        · exact hnext
      by_cases hauth : gw.auth.isSome = true
      · rw [if_pos hauth]
        exact ih hnext
      · rw [if_neg hauth]
        exact ih hnext
  | answer r => cases hg
  | call op respond => cases hg
  | read x respond => cases hg

end

/-! ## What a minted link grants -/

/-- The link that `owner` minted at `minted` is good at this time, while `revoked` are the
revocations, for this requester, if there is one. -/
structure LinkHolds (owner : NodeId) (minted expiresIn nonce : Nat)
    (revoked : List (String × Nat)) (now : Nat) (requester : Option NodeId) : Prop where
  bearer : requester = some owner
  live : expiresIn = 0 ∨ now ≤ minted + expiresIn
  standing : ¬Revoked revoked owner nonce

/-- The link covers a grant: its ability is the link's, and it is under the target. -/
structure LinkCovers (target : String) (write : Bool) (g : Grant) : Prop where
  ability : g.ability = Cli.linkAbility write
  under : g.Under target

section
variable {cc : CeCap} {mint : CeMint cc} {owner requester : NodeId} {target token : String}
  {write : Bool} {minted expiresIn nonce now : Nat} {list : List (String × Nat)}
  {maxBody : Option Nat} {req : HttpRequest} {g : Grant}

theorem fetched_isRevoked {issuer : NodeId}
    (h : ((AuthSettings.new owner).withRevoked (fetchRevoked (.ok list))).isRevoked issuer nonce
      = true) : Revoked list issuer nonce := by
  obtain ⟨⟨id, n⟩, hmem, hsame⟩ := List.any_eq_true.mp h
  rw [Bool.and_eq_true, beq_iff_eq, beq_iff_eq] at hsame
  obtain ⟨rfl, rfl⟩ := hsame
  obtain ⟨⟨name, n⟩, hlisted, hparsed⟩ := List.mem_filterMap.mp hmem
  obtain ⟨id', hname, hpair⟩ := Option.map_eq_some_iff.mp hparsed
  cases hpair
  exact ⟨name, hlisted, hname⟩

theorem linkExpiry_live (hfits : minted + expiresIn < 2 ^ 64) :
    (Cli.linkExpiry minted expiresIn = 0 ∨ now ≤ Cli.linkExpiry minted expiresIn)
      ↔ expiresIn = 0 ∨ now ≤ minted + expiresIn := by
  unfold Cli.linkExpiry
  by_cases h : expiresIn = 0
  · rw [if_pos h]
    exact iff_of_true (.inl rfl) (.inl h)
  · rw [if_neg h, Nat.mod_eq_of_lt hfits]
    omega

/-- A gateway with capability checks lets a request through if it says who it is from and
its link verifies. -/
theorem authorize_iff {gw : Gateway} {auth : Auth} (hauth : gw.auth = some auth)
    (htoken : req.link = some token) :
    gw.authorize req now g = .ok () ↔
      ∃ requester, (req.headerStr headerRequester).bind parseNodeId = some requester ∧
        auth.verifyLink now requester g.ability g.bucket g.key token = .ok () := by
  unfold HttpRequest.link at htoken
  unfold Gateway.authorize
  rw [hauth]
  dsimp only
  rw [htoken]
  dsimp only
  cases (req.headerStr headerRequester).bind parseNodeId with
  | none => simp
  | some requester =>
    dsimp only
    cases hverify : auth.verifyLink now requester g.ability g.bucket g.key token with
    | error e => simp [hverify]
    | ok u => simp [hverify]

/-- A capability that a node issued on itself passes the documented checks by its
leaf, its expiry and its revocation. -/
theorem minted_accepts (hcc : cc.Documented) (hmint : mint.Documented) {acceptedRoots : List NodeId}
    {selfTags abilities : List String} {ability : String} {audience : NodeId} {caveats : Caveats}
    {isRevoked : NodeId → Nat → Bool} :
    cc.authorize owner acceptedRoots selfTags now requester ability
        [mint.issue owner audience abilities owner caveats nonce] isRevoked = .ok () ↔
      (audience = requester ∧ ability ∈ abilities) ∧
        (caveats.notAfter = 0 ∨ now ≤ caveats.notAfter) ∧ isRevoked owner nonce = false := by
  constructor
  · intro h
    have hchecks := hcc _ _ _ _ _ _ _ _ h
    have hleaf := hchecks.leaf _ List.getLast?_singleton
    have hexpiry := hchecks.expiry _ List.mem_cons_self
    have hrevoked := hchecks.revocation _ List.mem_cons_self
    rw [hmint.audience, hmint.abilities] at hleaf
    rw [hmint.notAfter] at hexpiry
    rw [hmint.issuer, hmint.nonce] at hrevoked
    exact ⟨hleaf, hexpiry, hrevoked⟩
  · intro ⟨hleaf, hexpiry, hrevoked⟩
    refine hmint.accepts _ _ _ _ _ _ _ _ _ _ _ ⟨?_, ?_, .singleton _, .singleton _, ?_, ?_, ?_⟩
    · intro cap hcap
      rw [List.mem_singleton.mp hcap, hmint.signed]
    · intro cap hcap
      cases hcap
      exact .inl (hmint.issuer _ _ _ _ _ _)
    · intro cap hcap
      rw [List.getLast?_singleton] at hcap
      cases hcap
      rw [hmint.audience, hmint.abilities]
      exact hleaf
    · intro cap hcap
      rw [List.mem_singleton.mp hcap, hmint.notAfter]
      exact hexpiry
    · intro cap hcap
      rw [List.mem_singleton.mp hcap, hmint.issuer, hmint.nonce]
      exact hrevoked

/-- What the gateway of the owner makes of a link it minted. -/
theorem minted_authorize (hcc : cc.Documented) (hmint : mint.Documented)
    (hfits : minted + expiresIn < 2 ^ 64)
    (hlink : Cli.presign mint owner minted nonce target write expiresIn = .ok token)
    (htoken : req.link = some token) :
    (startGateway cc owner maxBody (.ok list)).authorize req now g = .ok () ↔
      LinkHolds owner minted expiresIn nonce list now
          ((req.headerStr headerRequester).bind parseNodeId) ∧ LinkCovers target write g := by
  unfold Cli.presign at hlink
  obtain ⟨⟨bucket, keyPrefix⟩, htarget, htok⟩ := bind_eq_ok.mp hlink
  cases htok
  rw [authorize_iff rfl htoken]
  have hroot : AuthSettings.selfId ((AuthSettings.new owner).withRevoked (fetchRevoked (.ok list)))
      = owner := rfl
  constructor
  · intro h
    obtain ⟨requester, hreq, hverified⟩ := h
    obtain ⟨chain, leaf, p, hchain, hauth, hleaf, hp, hallows⟩ := verifyLink_eq_ok.mp hverified
    unfold mintLink at hchain
    cases (hmint.decode _).symm.trans hchain
    rw [List.getLast?_singleton] at hleaf
    cases hleaf
    rw [hmint.pathPrefix] at hp
    cases hp
    obtain ⟨⟨haud, hability⟩, hexpiry, hrevoked⟩ := (minted_accepts hcc hmint).mp hauth
    refine ⟨⟨haud ▸ hreq, (linkExpiry_live hfits).mp hexpiry, ?_⟩,
      ⟨List.mem_singleton.mp hability, (splitTarget_allows htarget).mp hallows⟩⟩
    intro hrev
    rw [hroot, isRevoked_fetched hrev] at hrevoked
    cases hrevoked
  · intro h
    obtain ⟨⟨hbearer, hlive, hstanding⟩, ⟨hability, hunder⟩⟩ := h
    refine ⟨owner, hbearer, verifyLink_eq_ok.mpr ⟨_, _, _, hmint.decode _,
      (minted_accepts hcc hmint).mpr ⟨⟨rfl, ?_⟩, ?_, ?_⟩, rfl, hmint.pathPrefix _ _ _ _ _ _,
      (splitTarget_allows htarget).mpr hunder⟩⟩
    · exact List.mem_singleton.mpr hability
    · exact (linkExpiry_live hfits).mpr hlive
    · by_contra hrev
      exact hstanding (fetched_isRevoked (Bool.not_eq_false _ ▸ hrev))

end

/-- **A minted link opens what lies under its target, and nothing else.** In every run
of revocations on chain, starts of the gateway and requests, whatever the starts are
answered: a request that presents a link which the gateway's own node minted is served
as an open gateway would serve it, if it needs no grant, or if the link holds and covers
every grant it needs; else it is refused and nothing is touched. -/
theorem minted_link_serves (ce : CeRs) (cc : CeCap) (hcc : cc.Documented) (mint : CeMint cc)
    (hmint : mint.Documented) (owner : NodeId) (maxBody : Option Nat)
    (onChain : List (String × Nat)) (site : Site)
    (hsite : Reach (SiteEvent.fire cc owner maxBody) (fun _ _ => True) (Site.before onChain) site)
    (gw : Gateway) (hgw : site.gateway = some gw) (minted nonce : Nat) (target : String)
    (write : Bool) (expiresIn : Nat) (hfits : minted + expiresIn < 2 ^ 64) (token : String)
    (hlink : Cli.presign mint owner minted nonce target write expiresIn = .ok token)
    (req : HttpRequest) (htoken : req.link = some token) (env : Env) (s : Store) (w : World) :
    let asked := (Gateway.route ce gw req).asks
    let requester := (req.headerStr headerRequester).bind parseNodeId
    let opens := (asked ≠ [] →
        LinkHolds owner minted expiresIn nonce site.atStart env.now requester) ∧
      ∀ g ∈ asked, LinkCovers target write g
    let reply := serve ce gw req env s w
    (opens → reply = { serve ce gw.opened req env s w with granted := asked }) ∧
      (¬opens → reply.response.status = 403 ∧ reply.store = s ∧ reply.world = w) := by
  have hbefore : (Site.before onChain).Started cc owner maxBody := by
    intro gw hgw
    exact nomatch hgw
  have hstarted : site.Started cc owner maxBody :=
    hsite.inv hbefore fun y e y' _ hI _ hf => started_fire hI hf
  cases hstarted gw hgw
  have hauthorize (g : Grant) :
      (startGateway cc owner maxBody (.ok site.atStart)).authorize req env.now g = .ok () ↔ _ :=
    minted_authorize hcc hmint hfits hlink htoken
  constructor
  · intro h
    refine Gate.run_granted rfl ?_
    intro g hg
    exact (hauthorize g).mpr ⟨h.1 (List.ne_nil_of_mem hg), h.2 g hg⟩
  · intro h
    by_contra hserved
    refine h ⟨fun hasked => ?_, fun g hg => ?_⟩
    · obtain ⟨g, hg⟩ := List.exists_mem_of_ne_nil _ hasked
      by_contra hnot
      exact hserved (Gate.run_refused hg fun hok => hnot ((hauthorize g).mp hok).1)
    · by_contra hnot
      exact hserved (Gate.run_refused hg fun hok => hnot ((hauthorize g).mp hok).2)

/-! ### A library that mints, and one link -/

private instance encodableUInt8 : Encodable UInt8 :=
  Encodable.ofLeftInverse UInt8.toNat (fun n => UInt8.ofNat n) fun _ => UInt8.ofNat_toNat

private instance encodableChar : Encodable Char :=
  Encodable.ofLeftInverse Char.toNat (fun n => Char.ofNat n) fun c => Char.ofNat_toNat c

private instance encodableString : Encodable String :=
  Encodable.ofLeftInverse String.toList String.ofList fun _ => String.ofList_toList

private instance encodablePlainCap : Encodable PlainCap :=
  Encodable.ofLeftInverse
    (fun c => (c.signed, c.issuer, c.audience, c.abilities, c.notAfter, c.pathPrefix, c.nonce))
    (fun t => ⟨t.1, t.2.1, t.2.2.1, t.2.2.2.1, t.2.2.2.2.1, t.2.2.2.2.2.1, t.2.2.2.2.2.2⟩)
    fun _ => rfl

/-- The documented checks of one capability that its issuer checks. -/
private theorem PlainCap.accepts_single {cap : PlainCap} {acceptedRoots : List NodeId} {now : Nat}
    {requester : NodeId} {ability : String} {isRevoked : NodeId → Nat → Bool} {selfId : NodeId}
    (hsigned : cap.signed = true) (hissuer : cap.issuer = selfId)
    (hexpiry : cap.notAfter = 0 ∨ now ≤ cap.notAfter)
    (hrevoked : isRevoked cap.issuer cap.nonce = false) (haudience : cap.audience = requester)
    (hability : ability ∈ cap.abilities) :
    PlainCap.accepts selfId acceptedRoots now requester ability [cap] isRevoked = true := by
  unfold PlainCap.accepts
  simp [PlainCap.linked, hsigned, hissuer, hexpiry, hissuer ▸ hrevoked, haudience, hability]

/-- The library over capabilities in the clear; a token is the number of a chain in
strokes. -/
private def minting : CeCap := .plain fun token => Encodable.decode token.toList.length

private def strokes : CeMint minting where
  issue owner audience abilities _ caveats nonce :=
    { signed := true, issuer := owner, audience, abilities, notAfter := caveats.notAfter
      pathPrefix := caveats.pathPrefix, nonce }
  encodeChain (chain : List PlainCap) := String.ofList (List.replicate (Encodable.encode chain) 'I')

private theorem strokes_documented : strokes.Documented where
  decode chain := by
    have hchain : Encodable.decode (α := List PlainCap) (String.toList (String.ofList
        (List.replicate (Encodable.encode (α := List PlainCap) chain) 'I'))).length
        = some chain := by
      rw [String.toList_ofList, List.length_replicate]
      exact Encodable.encodek (α := List PlainCap) chain
    exact congrArg (Option.elim · _ _) hchain
  signed _ _ _ _ _ _ := rfl
  issuer _ _ _ _ _ _ := rfl
  audience _ _ _ _ _ _ := rfl
  abilities _ _ _ _ _ _ := rfl
  notAfter _ _ _ _ _ _ := rfl
  pathPrefix _ _ _ _ _ _ := rfl
  nonce _ _ _ _ _ _ := rfl
  accepts selfId acceptedRoots selfTags now requester ability audience abilities caveats nonce
      isRevoked h := by
    obtain ⟨haudience, hability⟩ := h.leaf _ List.getLast?_singleton
    have hexpiry := h.expiry _ List.mem_cons_self
    have hrevoked := h.revocation _ List.mem_cons_self
    exact if_pos (PlainCap.accepts_single rfl rfl hexpiry hrevoked haudience hability)

private def host : NodeId := List.replicate 32 1

private def hostHex : String :=
  "0101010101010101010101010101010101010101010101010101010101010101"

/-- A link for the keys under `2026`, good for an hour. -/
private def yearLink : String :=
  mintLink strokes host host abilityRead ⟨"photos", "2026/"⟩ 3700 7

private theorem yearLink_presigned :
    Cli.presign strokes host 100 7 "photos/2026/" false 3600 = .ok yearLink := by
  have htarget : Cli.splitTarget "photos/2026/" false = .ok ("photos", "2026/") := by rfl
  unfold Cli.presign
  rw [htarget]
  rfl

private def hostSite : Site :=
  ⟨[], some (startGateway minting host none (.ok [])), []⟩

private theorem hostSite_reach :
    Reach (SiteEvent.fire minting host none) (fun _ _ => True) (Site.before []) hostSite :=
  .next .start (e := .start (.ok [])) trivial rfl

private def withLink (key : String) : HttpRequest :=
  { method := .get, path := .object "photos" key, headers := [(headerRequester, hostHex)]
    query := (∅ : ExtTreeMap String String).insert "ce-cap" yearLink, body := [] }

private theorem withLink_link (key : String) : (withLink key).link = some yearLink := by
  have hheader : (withLink key).headerStr headerCap = none := rfl
  unfold HttpRequest.link
  rw [hheader]
  exact ExtTreeMap.getElem?_insert_self

set_option maxRecDepth 8000 in
private theorem withLink_requester (key : String) :
    ((withLink key).headerStr headerRequester).bind parseNodeId = some host := rfl

private theorem withLink_asks (key : String) :
    (Gateway.route CeRs.plain (startGateway minting host none (.ok [])) (withLink key)).asks
      = [⟨abilityRead, "photos", key⟩] := rfl

/-- The link opens a key under its prefix, and no other key. -/
theorem minted_link_serves_year :
    let gw := startGateway minting host none (.ok [])
    let env := Env.calm CeRs.plain 200 "t"
    serve CeRs.plain gw (withLink "2026/cat") env (.fresh 1) .blank
        = { serve CeRs.plain gw.opened (withLink "2026/cat") env (.fresh 1) .blank with
            granted := [⟨abilityRead, "photos", "2026/cat"⟩] } ∧
      (serve CeRs.plain gw (withLink "2025/cat") env (.fresh 1) .blank).response.status = 403 := by
  intro gw env
  have hserves (key : String) := minted_link_serves CeRs.plain minting (CeCap.plain_documented _)
    strokes strokes_documented host none [] hostSite hostSite_reach gw rfl 100 7 "photos/2026/"
    false 3600 (by decide) yearLink yearLink_presigned (withLink key) (withLink_link key) env
    (.fresh 1) .blank
  constructor
  · refine (hserves "2026/cat").1 ⟨fun _ => ⟨withLink_requester _, .inr (by decide), nofun⟩, ?_⟩
    intro g hg
    rw [withLink_asks] at hg
    cases List.mem_singleton.mp hg
    exact ⟨rfl, by decide⟩
  · refine ((hserves "2025/cat").2 ?_).1
    intro h
    have hunder := (h.2 ⟨abilityRead, "photos", "2025/cat"⟩ (by rw [withLink_asks]; simp)).under
    exact absurd hunder (by decide)

end CeStorage
