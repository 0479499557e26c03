import CeStorage.Gateway.Caps
import CeStorage.Gateway.Checks
import CeStorage.Lib.Runs

/-!
# Revoked links (`gateway.rs`, `main.rs`)

The gateway checks a link against the revocations that it fetched when it was
started; if it could not fetch them, against none. A run of a `Site` mixes revocations
on chain, starts of the gateway and requests. In a run where no request presents a
revoked link without a revocation that the last start fetched, no revoked link is
honoured (`revoked_refused`); a link revoked while the gateway runs is honoured until
the next start (`revoked_later_is_honoured`).
-/

namespace CeStorage

open Lib

/-! ## Settings (`gateway::Auth`) -/

/-- What the gateway verifies links with. -/
structure AuthSettings where
  selfId : NodeId
  acceptedRoots : List NodeId
  selfTags : List String
  /-- Revoked (issuer, nonce) pairs. -/
  revoked : List (NodeId × Nat)

namespace AuthSettings

/-- `Auth::new`. -/
def new (selfId : NodeId) : AuthSettings :=
  { selfId, acceptedRoots := [], selfTags := [], revoked := [] }

/-- `Auth::with_revoked`. -/
def withRevoked (self : AuthSettings) (revoked : List (NodeId × Nat)) : AuthSettings :=
  { self with revoked }

/-- `Auth::is_revoked`. -/
def isRevoked (self : AuthSettings) (issuer : NodeId) (nonce : Nat) : Bool :=
  self.revoked.any fun p => p.1 == issuer && p.2 == nonce

/-- The check that `Gateway::authorize` makes of a link with these settings. -/
def auth (cc : CeCap) (self : AuthSettings) : Auth where
  verifyLink now requester ability bucket key token :=
    verifyLink cc self.selfId self.acceptedRoots self.selfTags now requester ability bucket key
      token self.isRevoked

end AuthSettings

/-! ## Start-up (`Cmd::Gateway`) -/

/-- `fetch_revoked`, from what the node's `revoked()` answers: pairs whose issuer is
no node id are skipped, and an error is an empty set. -/
def fetchRevoked (revoked : Except String (List (String × Nat))) : List (NodeId × Nat) :=
  match revoked with
  | .ok list => list.filterMap fun p => (parseNodeId p.1).map fun id => (id, p.2)
  | .error _ => []

def defaultBodyLimit : Nat := 256 * 1024 * 1024

/-- The gateway that `--require-cap` starts. -/
def startGateway (cc : CeCap) (owner : NodeId) (maxBody : Option Nat)
    (revoked : Except String (List (String × Nat))) : Gateway :=
  { auth := some (((AuthSettings.new owner).withRevoked (fetchRevoked revoked)).auth cc)
    bodyLimit := maxBody.getD defaultBodyLimit }

/-! ## Runs -/

/-- The revocations on chain, and the gateway if it was started. -/
structure Site where
  onChain : List (String × Nat)
  gateway : Option Gateway
  /-- What the last start fetched; nothing if `revoked()` failed. -/
  atStart : List (String × Nat)

/-- A site before the gateway is started. -/
def Site.before (onChain : List (String × Nat)) : Site :=
  { onChain, gateway := none, atStart := [] }

inductive SiteEvent where
  | revoke (issuer : String) (nonce : Nat)
  /-- With what the node's `revoked()` answers. -/
  | start (revoked : Except String (List (String × Nat)))
  | request (req : HttpRequest) (now : Nat) (g : Grant)

/-- What an event does; a request needs a running gateway. -/
def SiteEvent.fire (cc : CeCap) (owner : NodeId) (maxBody : Option Nat) :
    SiteEvent → Site → Option Site
  | revoke issuer nonce, s => some { s with onChain := s.onChain ++ [(issuer, nonce)] }
  | start revoked, s => some { s with
      gateway := some (startGateway cc owner maxBody revoked)
      atStart := revoked.toOption.getD [] }
  | request .., s => s.gateway.map fun _ => s

/-- The pair is among the revocations. -/
def Revoked (list : List (String × Nat)) (issuer : NodeId) (nonce : Nat) : Prop :=
  ∃ name, (name, nonce) ∈ list ∧ parseNodeId name = some issuer

/-- The token that a request presents. -/
def HttpRequest.link (req : HttpRequest) : Option String :=
  (req.headerStr headerCap).or req.query["ce-cap"]?

/-- The request presents a chain with a revoked capability. -/
def PresentsRevoked (cc : CeCap) (list : List (String × Nat)) (req : HttpRequest) : Prop :=
  ∃ token chain, req.link = some token ∧ cc.decodeChain token = .ok chain ∧
    ∃ cap ∈ chain, Revoked list (cc.issuer cap) (cc.nonce cap)

/-- A request that presents a chain with a capability revoked by now is not let
through. -/
def SiteEvent.Refuses (cc : CeCap) (s : Site) : SiteEvent → Prop
  | request req now g => PresentsRevoked cc s.onChain req →
      ∀ gw, s.gateway = some gw → gw.authorize req now g ≠ .ok ()
  | _ => True

/-- `revoked()` succeeds and returns the current set. -/
def SiteEvent.Answered (s : Site) : SiteEvent → Prop
  | start revoked => revoked = .ok s.onChain
  | _ => True

/-- A request that presents a chain with a capability revoked by now presents one with
a capability whose revocation the last start fetched. -/
def SiteEvent.Fetched (cc : CeCap) (s : Site) : SiteEvent → Prop
  | request req _ _ => PresentsRevoked cc s.onChain req → PresentsRevoked cc s.atStart req
  | _ => True

section
variable {cc : CeCap} {gw : Gateway} {req : HttpRequest} {now : Nat} {g : Grant}

theorem isRevoked_fetched {owner : NodeId} {list : List (String × Nat)} {issuer : NodeId}
    {nonce : Nat} (h : Revoked list issuer nonce) :
    ((AuthSettings.new owner).withRevoked (fetchRevoked (.ok list))).isRevoked issuer nonce
      = true := by
  obtain ⟨name, hmem, hname⟩ := h
  have hfetched : (issuer, nonce) ∈ fetchRevoked (.ok list) :=
    List.mem_filterMap.mpr ⟨(name, nonce), hmem, by rw [hname]; rfl⟩
  exact List.any_eq_true.mpr ⟨_, hfetched, by simp⟩

/-- A gateway refuses what was revoked when it was started. -/
theorem start_refuses {owner : NodeId} {maxBody : Option Nat} {list : List (String × Nat)}
    (hcc : ∀ selfId acceptedRoots selfTags now requester ability chain isRevoked,
      cc.authorize selfId acceptedRoots selfTags now requester ability chain isRevoked = .ok () →
        ∀ cap ∈ chain, isRevoked (cc.issuer cap) (cc.nonce cap) = false)
    (hreq : PresentsRevoked cc list req) :
    (startGateway cc owner maxBody (.ok list)).authorize req now g ≠ .ok () := by
  intro hok
  obtain ⟨token, chain, htoken, hchain, cap, hcap, hrevoked⟩ := hreq
  obtain ⟨requester, token', htoken', hverified⟩ := authorize_accepts rfl hok
  cases htoken.symm.trans htoken'
  obtain ⟨chain', leaf, p, hchain', hauth, -⟩ := verifyLink_eq_ok.mp hverified
  rw [hchain] at hchain'
  cases hchain'
  have hnot := hcc _ _ _ _ _ _ _ _ hauth cap hcap
  rw [isRevoked_fetched hrevoked] at hnot
  exact nomatch hnot

end

/-- The gateway checks against what its start fetched. -/
def Site.Started (cc : CeCap) (owner : NodeId) (maxBody : Option Nat) (s : Site) : Prop :=
  ∀ gw, s.gateway = some gw → gw = startGateway cc owner maxBody (.ok s.atStart)

theorem started_fire {cc : CeCap} {owner : NodeId} {maxBody : Option Nat} {s s' : Site}
    {e : SiteEvent} (h : s.Started cc owner maxBody) (hf : e.fire cc owner maxBody s = some s') :
    s'.Started cc owner maxBody := by
  cases e with
  | revoke issuer nonce =>
    cases hf
    exact h
  | start revoked =>
    cases hf
    intro gw hgw
    cases hgw
    cases revoked <;> rfl
  | request req now g =>
    obtain ⟨gw, -, rfl⟩ := Option.map_eq_some_iff.mp hf
    exact h

/-- In a run whose requests present no revoked chain without a revocation that the last
start fetched, no request with a revoked capability is let through. -/
theorem revoked_refused (cc : CeCap)
    (hcc : ∀ selfId acceptedRoots selfTags now requester ability chain isRevoked,
      cc.authorize selfId acceptedRoots selfTags now requester ability chain isRevoked = .ok () →
        ∀ cap ∈ chain, isRevoked (cc.issuer cap) (cc.nonce cap) = false)
    (owner : NodeId) (maxBody : Option Nat) (onChain : List (String × Nat)) (es : List SiteEvent)
    (hrun : Along (SiteEvent.fire cc owner maxBody) (fun s e => e.Fetched cc s) es
      (Site.before onChain)) :
    Along (SiteEvent.fire cc owner maxBody) (fun s e => e.Refuses cc s) es
      (Site.before onChain) := by
  have hbefore : (Site.before onChain).Started cc owner maxBody := by
    intro gw hgw
    exact nomatch hgw
  refine Along.imp (I := Site.Started cc owner maxBody) hbefore
    (fun s e s' hs _ hf => started_fire hs hf) (fun s e hs hfetched => ?_) hrun
  cases e with
  | revoke issuer nonce => exact trivial
  | start revoked => exact trivial
  | request req now g =>
    intro hreq gw hgw
    rw [hs gw hgw]
    exact start_refuses hcc (hfetched hreq)

/-! ### One link -/

private def owner : NodeId := List.replicate 32 1

private def ownerHex : String :=
  "0101010101010101010101010101010101010101010101010101010101010101"

private def ownersCap : PlainCap :=
  { signed := true, issuer := owner, audience := owner, abilities := [abilityRead], notAfter := 0
    pathPrefix := some "photos/", nonce := 7 }

private def oneLink : CeCap := .plain fun token => if token = "link" then some [ownersCap] else none

private theorem oneLink_revocation (selfId : NodeId) (acceptedRoots : List NodeId)
    (selfTags : List String) (now : Nat) (requester : NodeId) (ability : String)
    (chain : List oneLink.SignedCapability) (isRevoked : NodeId → Nat → Bool)
    (h : oneLink.authorize selfId acceptedRoots selfTags now requester ability chain isRevoked
      = .ok ()) : ∀ cap ∈ chain, isRevoked (oneLink.issuer cap) (oneLink.nonce cap) = false :=
  (CeCap.plain_documented _ _ _ _ _ _ _ _ _ h).revocation

private def readCat : HttpRequest :=
  { method := .get, path := .object "photos" "cat"
    headers := [(headerCap, "link"), (headerRequester, ownerHex)], query := ∅, body := [] }

set_option maxRecDepth 8000 in
private theorem ownerHex_parses : parseNodeId ownerHex = some owner := rfl

private theorem readCat_revoked : PresentsRevoked oneLink [(ownerHex, 7)] readCat :=
  ⟨"link", [ownersCap], rfl, rfl, ownersCap, List.mem_cons_self, ownerHex,
    List.mem_cons_self, ownerHex_parses⟩

set_option maxRecDepth 8000 in
/-- A link revoked after the gateway was started is honoured. -/
theorem revoked_later_is_honoured : ¬∀ cc : CeCap,
    (∀ selfId acceptedRoots selfTags now requester ability chain isRevoked,
      cc.authorize selfId acceptedRoots selfTags now requester ability chain isRevoked = .ok () →
        ∀ cap ∈ chain, isRevoked (cc.issuer cap) (cc.nonce cap) = false) →
    ∀ (owner : NodeId) (maxBody : Option Nat) (onChain : List (String × Nat))
      (es : List SiteEvent),
      Along (SiteEvent.fire cc owner maxBody) (fun s e => e.Answered s) es (Site.before onChain) →
      Along (SiteEvent.fire cc owner maxBody) (fun s e => e.Refuses cc s) es
        (Site.before onChain) := by
  intro h
  have hanswered : Along (SiteEvent.fire oneLink owner none) (fun s e => e.Answered s)
      [.start (.ok []), .revoke ownerHex 7, .request readCat 0 ⟨abilityRead, "photos", "cat"⟩]
      (Site.before []) :=
    ⟨rfl, fun _ _ => ⟨trivial, fun _ _ => ⟨trivial, fun _ _ => trivial⟩⟩⟩
  have hrun := h oneLink oneLink_revocation owner none [] _ hanswered
  have hrefused := ((hrun.2 _ rfl).2 _ rfl).1 readCat_revoked _ rfl
  have hpasses : (startGateway oneLink owner none (.ok [])).authorize readCat 0
      ⟨abilityRead, "photos", "cat"⟩ = .ok () := rfl
  exact hrefused hpasses

theorem revoked_refused_before : Along (SiteEvent.fire oneLink owner none)
    (fun s e => e.Refuses oneLink s)
    [.revoke ownerHex 7, .start (.ok [(ownerHex, 7)]),
      .request readCat 0 ⟨abilityRead, "photos", "cat"⟩]
    (Site.before []) := by
  refine revoked_refused oneLink oneLink_revocation owner none [] _ ⟨trivial, ?_⟩
  intro s hs
  cases hs
  refine ⟨trivial, ?_⟩
  intro s hs
  cases hs
  exact ⟨id, fun _ _ => trivial⟩

end CeStorage
