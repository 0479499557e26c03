import CeStorage.Gateway.Handlers
import CeStorage.Lib.Scan

/-!
# Capability links (`caps.rs`)

A link is a token that decodes to a chain of capabilities, each issued by the
audience of the one before. `CeCap` stands for the `ce_iam_core` crate: what its
capabilities carry, how a token is decoded, and `authorize`. `verifyLink` is the
app's own check on top of it: `authorize`, and then the `path_prefix` of the last
capability against the bucket and key.

So a link confines a request to the scope of its leaf. It confines it to the
scopes of the whole chain exactly if each of them covers the leaf's
(`confined_iff`): nothing keeps a holder from delegating a wider scope than it was
given (`delegated_scope_widens`).
-/

namespace CeStorage

open Lib

/-- A node id: 32 bytes. -/
abbrev NodeId := Bytes

/-- The `ce_iam_core` crate. -/
structure CeCap where
  SignedCapability : Type
  /-- Whether the signature is its issuer's. -/
  signed : SignedCapability → Bool
  issuer : SignedCapability → NodeId
  audience : SignedCapability → NodeId
  abilities : SignedCapability → List String
  /-- 0: never expires. -/
  notAfter : SignedCapability → Nat
  pathPrefix : SignedCapability → Option String
  nonce : SignedCapability → Nat
  decodeChain : String → Except String (List SignedCapability)
  authorize : (selfId : NodeId) → (acceptedRoots : List NodeId) → (selfTags : List String) →
    (now : Nat) → (requester : NodeId) → (ability : String) → List SignedCapability →
    (isRevoked : NodeId → Nat → Bool) → Except String Unit

namespace CeCap

/-- What `authorize` is documented to check of a chain that it accepts. -/
structure Checks (cc : CeCap) (selfId : NodeId) (acceptedRoots : List NodeId) (now : Nat)
    (requester : NodeId) (ability : String) (chain : List cc.SignedCapability)
    (isRevoked : NodeId → Nat → Bool) : Prop where
  signatures : ∀ cap ∈ chain, cc.signed cap = true
  root : ∀ cap, chain.head? = some cap → cc.issuer cap = selfId ∨ cc.issuer cap ∈ acceptedRoots
  linkage : chain.IsChain fun cap next => cc.issuer next = cc.audience cap
  attenuation : chain.IsChain fun cap next => cc.abilities next ⊆ cc.abilities cap
  leaf : ∀ cap, chain.getLast? = some cap →
    cc.audience cap = requester ∧ ability ∈ cc.abilities cap
  expiry : ∀ cap ∈ chain, cc.notAfter cap = 0 ∨ now ≤ cc.notAfter cap
  revocation : ∀ cap ∈ chain, isRevoked (cc.issuer cap) (cc.nonce cap) = false

/-- `authorize` accepts only what passes the documented checks. -/
def Documented (cc : CeCap) : Prop :=
  ∀ selfId acceptedRoots selfTags now requester ability chain isRevoked,
    cc.authorize selfId acceptedRoots selfTags now requester ability chain isRevoked = .ok () →
      cc.Checks selfId acceptedRoots now requester ability chain isRevoked

end CeCap

/-! ## Scopes -/

/-- A bucket and a key prefix; an empty prefix is the whole bucket. -/
structure Scope where
  bucket : String
  keyPrefix : String
  deriving DecidableEq

/-- `Scope::to_caveat`. -/
def Scope.toCaveat (self : Scope) : String := s!"{self.bucket}/{self.keyPrefix}"

/-- `Scope::from_caveat`. -/
def Scope.fromCaveat (s : String) : Scope :=
  match Str.splitOnce '/' s with
  | some (bucket, keyPrefix) => { bucket, keyPrefix }
  | none => { bucket := s, keyPrefix := "" }

/-- The prefix without the slashes at its end. -/
def Scope.trimmed (self : Scope) : String := Str.trimEndMatches (· == '/') self.keyPrefix

/-- `scope_allows`: the key is the prefix or under it, at a path boundary. -/
def scopeAllows (scope : Scope) (bucket key : String) : Bool :=
  if scope.bucket ≠ bucket then false
  else
    let keyPrefix := scope.trimmed
    keyPrefix.isEmpty || key == keyPrefix || Str.startsWith key (keyPrefix ++ "/")

/-! ## Links -/

/-- `inspect_link`: what the leaf grants, unverified. -/
def inspectLink (cc : CeCap) (token : String) : Except String (List String × Scope) :=
  match cc.decodeChain token with
  | .error _ => .error "decoding capability link"
  | .ok chain =>
    match chain.getLast? with
    | none => .error "empty capability chain"
    | some leaf => .ok (cc.abilities leaf,
        ((cc.pathPrefix leaf).map Scope.fromCaveat).getD { bucket := "", keyPrefix := "" })

/-- `verify_link`. -/
def verifyLink (cc : CeCap) (selfId : NodeId) (acceptedRoots : List NodeId)
    (selfTags : List String) (now : Nat) (requester : NodeId)
    (ability bucket key token : String) (isRevoked : NodeId → Nat → Bool) :
    Except String Unit := do
  let chain ← cc.decodeChain token
  cc.authorize selfId acceptedRoots selfTags now requester ability chain isRevoked
  match chain.getLast? with
  | none => .error "empty chain"
  | some leaf =>
    match (cc.pathPrefix leaf).map Scope.fromCaveat with
    | none => .error "link has no bucket/prefix scope"
    | some scope =>
      if scopeAllows scope bucket key then .ok ()
      else .error s!"link scope {scope.bucket}/{scope.keyPrefix} does not cover {bucket}/{key}"

/-! ## Caveats -/

/-- The names that buckets may have contain no slash. -/
theorem slash_notMem {name : String} (h : validBucketName name = .ok ()) : '/' ∉ name.toList := by
  intro hmem
  have hbad : ¬(name.toList.all fun c =>
      ('a' ≤ c && c ≤ 'z') || ('0' ≤ c && c ≤ '9') || c == '-' || c == '.') = true := by
    intro hall
    exact absurd (List.all_eq_true.mp hall '/' hmem) (by decide)
  unfold validBucketName at h
  rw [if_pos hbad] at h
  grind

/-- A caveat reads back as the scope it was written for. -/
theorem Scope.fromCaveat_toCaveat {scope : Scope} (h : '/' ∉ scope.bucket.toList) :
    Scope.fromCaveat scope.toCaveat = scope := by
  have htext : scope.toCaveat = scope.bucket ++ String.singleton '/' ++ scope.keyPrefix := rfl
  unfold fromCaveat
  rw [htext, Str.splitOnce_append h]

/-! ## What a scope covers -/

/-- A scope is within another: the other allows its bucket and prefix. -/
def Scope.covers (self other : Scope) : Bool := scopeAllows self other.bucket other.trimmed

theorem scopeAllows_iff {scope : Scope} {bucket key : String} :
    scopeAllows scope bucket key = true ↔ scope.bucket = bucket ∧
      (scope.trimmed = "" ∨ key = scope.trimmed ∨
        Str.startsWith key (scope.trimmed ++ "/") = true) := by
  unfold scopeAllows
  by_cases hb : scope.bucket = bucket
  · rw [if_neg (not_not_intro hb)]
    simp [hb, or_assoc]
  · rw [if_pos hb]
    exact iff_of_false Bool.false_ne_true fun h => hb h.1

theorem startsWith_trans {a b c : String} (h : Str.startsWith a b = true)
    (h' : Str.startsWith b c = true) : Str.startsWith a c = true :=
  Str.startsWith_iff.mpr ((Str.startsWith_iff.mp h').trans (Str.startsWith_iff.mp h))

theorem startsWith_append (a b : String) : Str.startsWith (a ++ b) a = true :=
  Str.startsWith_iff.mpr ⟨b.toList, String.toList_append.symm⟩

/-- A scope allows its own prefix. -/
theorem scopeAllows_trimmed (scope : Scope) :
    scopeAllows scope scope.bucket scope.trimmed = true :=
  scopeAllows_iff.mpr ⟨rfl, .inr (.inl rfl)⟩

/-- A scope covers another if and only if it allows whatever the other allows. -/
theorem covers_iff {scope other : Scope} : scope.covers other = true ↔
    ∀ bucket key, scopeAllows other bucket key = true → scopeAllows scope bucket key = true := by
  constructor
  · intro h bucket key hkey
    obtain ⟨hbucket, hin⟩ := scopeAllows_iff.mp h
    obtain ⟨rfl, hunder⟩ := scopeAllows_iff.mp hkey
    refine scopeAllows_iff.mpr ⟨hbucket, ?_⟩
    rcases hin with hall | heq | hsub
    · exact .inl hall
    · rw [← heq]
      exact hunder
    · -- the other's prefix lies below this one, and so does every key under it
      refine .inr (.inr ?_)
      rcases hunder with hempty | rfl | hbelow
      · rw [hempty] at hsub
        obtain ⟨t, ht⟩ := Str.startsWith_iff.mp hsub
        simp at ht
      · exact hsub
      · exact startsWith_trans hbelow (startsWith_trans (startsWith_append _ _) hsub)
  · intro h
    exact h other.bucket other.trimmed (scopeAllows_trimmed other)

/-! ## Segments -/

/-- The segments of a path. -/
def segments (path : String) : List (List Char) := Str.split (· == '/') path.toList

/-- A scope allows the keys of its bucket that begin with the segments of its prefix. -/
theorem scopeAllows_segments {scope : Scope} {bucket key : String} :
    scopeAllows scope bucket key = true ↔ bucket = scope.bucket ∧
      (scope.trimmed = "" ∨ segments scope.trimmed <+: segments key) := by
  have hunder : segments scope.trimmed <+: segments key ↔
      key = scope.trimmed ∨ Str.startsWith key (scope.trimmed ++ "/") = true := by
    unfold segments
    rw [Str.split_prefix_iff, Str.startsWith_iff, String.toList_append, String.toList_inj]
    exact or_congr_left eq_comm
  rw [scopeAllows_iff, hunder, eq_comm]

/-- The caveat of a scope round-trips, a scope allows what lies under its prefix segment by
segment, and a scope that allows another's prefix allows whatever the other allows. -/
theorem scope_contains_segments :
    (∀ scope : Scope, '/' ∉ scope.bucket.toList → Scope.fromCaveat scope.toCaveat = scope) ∧
      (∀ (scope : Scope) (bucket key : String), scopeAllows scope bucket key = true ↔
        bucket = scope.bucket ∧
          (scope.trimmed = "" ∨ segments scope.trimmed <+: segments key)) ∧
      ∀ scope other : Scope, scope.bucket = other.bucket →
        scopeAllows scope other.bucket other.trimmed = true → ∀ bucket key,
          scopeAllows other bucket key = true → scopeAllows scope bucket key = true :=
  ⟨fun _ h => Scope.fromCaveat_toCaveat h, fun _ _ _ => scopeAllows_segments,
    fun _ _ _ h => covers_iff.mp h⟩

/-! Neither an empty segment nor a sibling is under the prefix. -/
example : segments "a//b/" = [['a'], [], ['b'], []] := by decide

example : scopeAllows ⟨"photos", "2026/"⟩ "photos" "2026-raw/x" = false := by decide

/-! ## What a chain confines a request to -/

section
variable {cc : CeCap} {selfId requester : NodeId} {acceptedRoots : List NodeId}
  {selfTags : List String} {now : Nat} {ability bucket key token : String}
  {isRevoked : NodeId → Nat → Bool}

theorem bind_eq_ok {ε α β : Type} {x : Except ε α} {f : α → Except ε β} {b : β} :
    Except.bind x f = .ok b ↔ ∃ a, x = .ok a ∧ f a = .ok b := by
  cases x <;> simp [Except.bind]

/-- A link that is accepted: what its leaf confines the request to. -/
theorem verifyLink_eq_ok :
    verifyLink cc selfId acceptedRoots selfTags now requester ability bucket key token isRevoked
        = .ok () ↔
      ∃ chain leaf p, cc.decodeChain token = .ok chain ∧
        cc.authorize selfId acceptedRoots selfTags now requester ability chain isRevoked = .ok () ∧
        chain.getLast? = some leaf ∧ cc.pathPrefix leaf = some p ∧
        scopeAllows (Scope.fromCaveat p) bucket key = true := by
  unfold verifyLink
  show Except.bind _ (fun chain => Except.bind _ fun _ => _) = _ ↔ _
  rw [bind_eq_ok]
  constructor
  · -- each check of the link passed, in the order of the source
    rintro ⟨chain, hchain, h⟩
    obtain ⟨_, hauth, h⟩ := bind_eq_ok.mp h
    split at h
    next => cases h
    next leaf hleaf =>
      split at h
      next => cases h
      next scope hscope =>
        obtain ⟨p, hp, rfl⟩ := Option.map_eq_some_iff.mp hscope
        split at h
        next hallows => exact ⟨chain, leaf, p, hchain, hauth, hleaf, hp, hallows⟩
        next => cases h
  · rintro ⟨chain, leaf, p, hchain, hauth, hleaf, hp, hallows⟩
    refine ⟨chain, hchain, bind_eq_ok.mpr ⟨(), hauth, ?_⟩⟩
    rw [hleaf]
    dsimp only
    rw [hp]
    exact if_pos hallows

/-- What `inspect_link` shows of an accepted link is what it was accepted for. -/
theorem inspectLink_of_verifyLink (hcc : cc.Documented)
    (h : verifyLink cc selfId acceptedRoots selfTags now requester ability bucket key token
      isRevoked = .ok ()) :
    ∃ abilities scope, inspectLink cc token = .ok (abilities, scope) ∧ ability ∈ abilities ∧
      scopeAllows scope bucket key = true := by
  obtain ⟨chain, leaf, p, hchain, hauth, hleaf, hp, hallows⟩ := verifyLink_eq_ok.mp h
  have hchecks := hcc _ _ _ _ _ _ _ _ hauth
  refine ⟨cc.abilities leaf, Scope.fromCaveat p, ?_, (hchecks.leaf leaf hleaf).2, hallows⟩
  unfold inspectLink
  rw [hchain]
  dsimp only
  rw [hleaf]
  dsimp only
  rw [hp]
  rfl

end

/-- Every request that a link is accepted for is allowed by every scope of its chain,
if and only if each of these scopes covers the leaf's. -/
theorem confined_iff (cc : CeCap) (selfId : NodeId) (acceptedRoots : List NodeId)
    (selfTags : List String) (now : Nat) (requester : NodeId) (ability token : String)
    (isRevoked : NodeId → Nat → Bool) (chain : List cc.SignedCapability)
    (hchain : cc.decodeChain token = .ok chain) :
    (∀ bucket key, verifyLink cc selfId acceptedRoots selfTags now requester ability bucket key
        token isRevoked = .ok () →
      ∀ cap ∈ chain, ∀ p, cc.pathPrefix cap = some p →
        scopeAllows (Scope.fromCaveat p) bucket key = true) ↔
    (cc.authorize selfId acceptedRoots selfTags now requester ability chain isRevoked = .ok () →
      ∀ leaf p, chain.getLast? = some leaf → cc.pathPrefix leaf = some p →
        ∀ cap ∈ chain, ∀ q, cc.pathPrefix cap = some q →
          (Scope.fromCaveat q).covers (Scope.fromCaveat p) = true) := by
  constructor
  · intro h hauth leaf p hleaf hp cap hcap q hq
    refine covers_iff.mpr ?_
    intro bucket key hallows
    exact h bucket key (verifyLink_eq_ok.mpr ⟨chain, leaf, p, hchain, hauth, hleaf, hp, hallows⟩)
      cap hcap q hq
  · intro h bucket key hok cap hcap q hq
    obtain ⟨chain', leaf, p, hchain', hauth, hleaf, hp, hallows⟩ := verifyLink_eq_ok.mp hok
    rw [hchain] at hchain'
    cases hchain'
    exact covers_iff.mp (h hauth leaf p hleaf hp cap hcap q hq) bucket key hallows

/-! ## A capability library -/

/-- A capability with its fields in the clear. -/
structure PlainCap where
  signed : Bool
  issuer : NodeId
  audience : NodeId
  abilities : List String
  notAfter : Nat
  pathPrefix : Option String
  nonce : Nat

/-- Each capability is issued by the audience of the one before, and grants no more. -/
def PlainCap.linked : List PlainCap → Bool
  | cap :: next :: rest => next.issuer == cap.audience
      && next.abilities.all cap.abilities.contains && linked (next :: rest)
  | _ => true

/-- The documented checks, run on capabilities in the clear. -/
def PlainCap.accepts (selfId : NodeId) (acceptedRoots : List NodeId) (now : Nat)
    (requester : NodeId) (ability : String) (chain : List PlainCap)
    (isRevoked : NodeId → Nat → Bool) : Bool :=
  chain.all (fun cap => cap.signed && (cap.notAfter == 0 || decide (now ≤ cap.notAfter))
      && !isRevoked cap.issuer cap.nonce)
    && chain.head?.any (fun cap => cap.issuer == selfId || acceptedRoots.contains cap.issuer)
    && PlainCap.linked chain
    && chain.getLast?.any fun cap => cap.audience == requester && cap.abilities.contains ability

/-- The library over capabilities in the clear; `links` are the tokens there are. -/
def CeCap.plain (links : String → Option (List PlainCap)) : CeCap where
  SignedCapability := PlainCap
  signed := PlainCap.signed
  issuer := PlainCap.issuer
  audience := PlainCap.audience
  abilities := PlainCap.abilities
  notAfter := PlainCap.notAfter
  pathPrefix := PlainCap.pathPrefix
  nonce := PlainCap.nonce
  decodeChain token := (links token).elim (.error "not a capability chain") .ok
  authorize selfId acceptedRoots _ now requester ability chain isRevoked :=
    if PlainCap.accepts selfId acceptedRoots now requester ability chain isRevoked then .ok ()
    else .error "capability chain rejected"

theorem PlainCap.isChain_of_linked {chain : List PlainCap} (h : PlainCap.linked chain = true) :
    (chain.IsChain fun cap next => next.issuer = cap.audience) ∧
      chain.IsChain fun cap next => next.abilities ⊆ cap.abilities := by
  induction chain with
  | nil => exact ⟨.nil, .nil⟩
  | cons cap rest ih =>
    cases rest with
    | nil => exact ⟨.singleton _, .singleton _⟩
    | cons next rest =>
      unfold PlainCap.linked at h
      rw [Bool.and_eq_true, Bool.and_eq_true, beq_iff_eq, List.all_eq_true] at h
      obtain ⟨hissuer, habilities⟩ := ih h.2
      refine ⟨.cons_cons h.1.1 hissuer, .cons_cons ?_ habilities⟩
      intro a ha
      exact List.contains_iff_mem.mp (h.1.2 a ha)

theorem PlainCap.of_accepts {selfId requester : NodeId} {acceptedRoots : List NodeId} {now : Nat}
    {ability : String} {chain : List PlainCap} {isRevoked : NodeId → Nat → Bool}
    (h : PlainCap.accepts selfId acceptedRoots now requester ability chain isRevoked = true) :
    (((∀ cap ∈ chain, (cap.signed = true ∧ (cap.notAfter = 0 ∨ now ≤ cap.notAfter)) ∧
        isRevoked cap.issuer cap.nonce = false) ∧
      ∃ cap, chain.head? = some cap ∧ (cap.issuer = selfId ∨ cap.issuer ∈ acceptedRoots)) ∧
      PlainCap.linked chain = true) ∧
      ∃ cap, chain.getLast? = some cap ∧ cap.audience = requester ∧ ability ∈ cap.abilities := by
  unfold PlainCap.accepts at h
  simpa only [Bool.and_eq_true, List.all_eq_true, Option.any_eq_true, beq_iff_eq,
    Bool.or_eq_true, decide_eq_true_iff, List.contains_iff_mem, Bool.not_eq_true'] using h

theorem CeCap.plain_documented (links : String → Option (List PlainCap)) :
    (CeCap.plain links).Documented := by
  intro selfId acceptedRoots selfTags now requester ability chain isRevoked h
  have haccepts : PlainCap.accepts selfId acceptedRoots now requester ability chain isRevoked
      = true := by
    by_contra hno
    exact nomatch (if_neg hno).symm.trans h
  obtain ⟨⟨⟨heach, hroot⟩, hlinked⟩, hleaf⟩ := PlainCap.of_accepts haccepts
  obtain ⟨hlinkage, hattenuation⟩ := PlainCap.isChain_of_linked hlinked
  exact
    { signatures := fun cap hcap => (heach cap hcap).1.1
      root := fun cap hcap => by
        obtain ⟨first, hfirst, hroot⟩ := hroot
        cases hfirst.symm.trans hcap
        exact hroot
      linkage := hlinkage
      attenuation := hattenuation
      leaf := fun cap hcap => by
        obtain ⟨last, hlast, hleaf⟩ := hleaf
        cases hlast.symm.trans hcap
        exact hleaf
      expiry := fun cap hcap => (heach cap hcap).1.2
      revocation := fun cap hcap => (heach cap hcap).2 }

/-! ### Two delegations -/

private def delegated (given handedOn : String) : List PlainCap :=
  [{ signed := true, issuer := [1], audience := [2], abilities := [abilityRead]
     notAfter := 0, pathPrefix := some given, nonce := 1 },
   { signed := true, issuer := [2], audience := [3], abilities := [abilityRead]
     notAfter := 0, pathPrefix := some handedOn, nonce := 2 }]

private def twoLinks (given handedOn : String) : CeCap :=
  .plain fun token => if token = "link" then some (delegated given handedOn) else none

/-- A holder of `photos/2026` delegates `photos`, and the link is honoured. -/
theorem delegated_scope_widens : ¬∀ (cc : CeCap), cc.Documented →
    ∀ (selfId : NodeId) (acceptedRoots : List NodeId) (selfTags : List String) (now : Nat)
      (requester : NodeId) (ability bucket key token : String) (isRevoked : NodeId → Nat → Bool)
      (chain : List cc.SignedCapability), cc.decodeChain token = .ok chain →
      verifyLink cc selfId acceptedRoots selfTags now requester ability bucket key token isRevoked
        = .ok () →
      ∀ cap ∈ chain, ∀ p, cc.pathPrefix cap = some p →
        scopeAllows (Scope.fromCaveat p) bucket key = true := by
  intro h
  have hverified : verifyLink (twoLinks "photos/2026" "photos/") [1] [] [] 0 [3] abilityRead
      "photos" "2025/cat" "link" (fun _ _ => false) = .ok () := rfl
  have hallows := h (twoLinks "photos/2026" "photos/") (CeCap.plain_documented _) [1] [] [] 0 [3]
    abilityRead "photos" "2025/cat" "link" (fun _ _ => false) _ rfl hverified _ List.mem_cons_self
    "photos/2026" rfl
  exact absurd hallows (by decide)

theorem confined_iff_narrowed :
    verifyLink (twoLinks "photos/" "photos/2026") [1] [] [] 0 [3] abilityRead
      "photos" "2026/cat" "link" (fun _ _ => false) = .ok () ∧
    ∀ cap ∈ delegated "photos/" "photos/2026", ∀ p, cap.pathPrefix = some p →
      scopeAllows (Scope.fromCaveat p) "photos" "2026/cat" = true := by
  have hverified : verifyLink (twoLinks "photos/" "photos/2026") [1] [] [] 0 [3] abilityRead
      "photos" "2026/cat" "link" (fun _ _ => false) = .ok () := rfl
  refine ⟨hverified, (confined_iff (twoLinks "photos/" "photos/2026") [1] [] [] 0 [3] abilityRead
    "link" (fun _ _ => false) (delegated "photos/" "photos/2026") rfl).mpr ?_ _ _ hverified⟩
  intro _ leaf p hleaf hp cap hcap q hq
  cases hleaf
  cases hp
  rcases List.mem_cons.mp hcap with rfl | hcap
  · cases hq
    decide
  · cases List.mem_singleton.mp hcap
    cases hq
    decide

end CeStorage
