import CeStorage.Gateway.Writes

/-!
# Conditional reads

HEAD, GET and GET with a `Range` answer for the same version of an object, and each
request may be conditional. What its conditions come to is `Preconditions.readOutcome`.
A full GET answers so (`get_outcome`); a HEAD answers only the 304s (`head_outcome`); a
ranged GET is not conditional at all (`ranged_outcome`). So the three agree with the
conditions exactly where those let the read through (`read_verbs_agree_iff`).
-/

namespace CeStorage

open Lib
open Std (ExtTreeMap)

/-! ## Outcomes -/

/-- What the conditions of a read come to. -/
inductive Outcome where
  | notModified
  | preconditionFailed
  | proceed
  deriving DecidableEq

/-- The outcome a response tells: 304, 412, or any other. -/
def Response.outcome (self : Response) : Outcome :=
  if self.status = 304 then .notModified
  else if self.status = 412 then .preconditionFailed
  else .proceed

namespace Preconditions

/-- The outcome of the check of a read of `m`. -/
def readOutcome (self : Preconditions) (m : ObjectMeta) : Outcome :=
  match self.checkRead m.etag m.lastModified with
  | .ok () => .proceed
  | .error e => (storageErr e).outcome

/-- `If-Modified-Since`: the object was modified after it. -/
def ModifiedHolds (self : Preconditions) (m : ObjectMeta) : Prop :=
  ∀ t, self.ifModifiedSince = some t → t < m.lastModified

/-- Every condition of a read of `m` that is present holds. -/
structure Allows (p : Preconditions) (m : ObjectMeta) : Prop where
  ifMatch : p.MatchHolds (some m)
  ifUnmodifiedSince : p.UnmodifiedHolds (some m)
  ifNoneMatch : p.NoneMatchHolds (some m)
  ifModifiedSince : p.ModifiedHolds m

variable {p : Preconditions} {m : ObjectMeta}

theorem checkRead_iff : p.checkRead m.etag m.lastModified = .ok () ↔ p.Allows m := by
  have hallows : p.Allows m ↔ p.MatchHolds (some m) ∧ p.UnmodifiedHolds (some m) ∧
      p.NoneMatchHolds (some m) ∧ p.ModifiedHolds m :=
    ⟨fun h => ⟨h.ifMatch, h.ifUnmodifiedSince, h.ifNoneMatch, h.ifModifiedSince⟩,
      fun ⟨h, h', h'', h'''⟩ => ⟨h, h', h'', h'''⟩⟩
  rw [hallows]
  unfold checkRead MatchHolds UnmodifiedHolds NoneMatchHolds ModifiedHolds
  cases p.ifMatch <;> cases p.ifUnmodifiedSince <;> cases p.ifNoneMatch <;>
    cases p.ifModifiedSince <;> simp <;> grind

/-- A check that does not pass is one of the two refusals. -/
theorem checkRead_error {etag : String} {t : Nat} {e : StorageError}
    (h : p.checkRead etag t = .error e) :
    e = .notModified ∨ ∃ msg, e = .preconditionFailed msg := by
  unfold checkRead at h
  split at h
  · exact .inr ⟨_, (Except.error.inj h).symm⟩
  · split at h
    · exact .inr ⟨_, (Except.error.inj h).symm⟩
    · split at h
      · exact .inl (Except.error.inj h).symm
      · split at h
        · exact .inl (Except.error.inj h).symm
        · exact nomatch h

theorem readOutcome_proceed_iff : p.readOutcome m = .proceed ↔ p.Allows m := by
  rw [← checkRead_iff]
  unfold readOutcome
  cases hcheck : p.checkRead m.etag m.lastModified with
  | ok u => exact iff_of_true rfl rfl
  | error e =>
    refine iff_of_false ?_ nofun
    intro h
    obtain rfl | ⟨msg, rfl⟩ := checkRead_error hcheck
    · exact nomatch h
    · exact nomatch h

end Preconditions

/-! ## Errors that are no outcome -/

/-- An error that no condition causes. -/
def StorageError.Unconditional (e : StorageError) : Prop := (storageErr e).outcome = .proceed

theorem unconditional_backend (msg : String) : (StorageError.backend msg).Unconditional := rfl

theorem unconditional_invalidRange (msg : String) :
    (StorageError.invalidRange msg).Unconditional := rfl

/-- Whatever the calls answer, `x` fails only with errors in `P`. -/
def Act.Fails {ε α : Type} (P : ε → Prop) (x : Act ε α) : Prop :=
  ∀ ce env s w e, (exec ce env x s w).1.1 = .error e → P e

namespace Act

variable {ε α β : Type} {P : ε → Prop}

theorem Fails.bind {x : Act ε α} {f : α → Act ε β} (hx : x.Fails P) (hf : ∀ a, (f a).Fails P) :
    (x >>= f).Fails P := by
  intro ce env s w e h
  rw [exec_bind] at h
  rcases hexec : exec ce env x s w with ⟨⟨e' | a, s'⟩, w'⟩ <;> rw [hexec] at h
  · cases h
    exact hx ce env s w e (by rw [hexec])
  · exact hf a ce env s' w' e h

theorem fails_pure (a : α) : (pure a : Act ε α).Fails P := nofun

theorem fails_call (c : Call) : (Act.call c : Act ε (Resp c)).Fails P := nofun

theorem fails_lift {r : Except ε α} (h : ∀ e, r = .error e → P e) : (Act.lift r).Fails P := by
  intro ce env s w e he
  rw [exec_lift] at he
  exact h e he

theorem fails_mapError {ε' : Type} {r : Except ε' α} {f : ε' → ε} (h : ∀ e, P (f e)) :
    (Act.lift (r.mapError f)).Fails P := by
  refine fails_lift ?_
  intro e he
  cases r with
  | error e' =>
    cases he
    exact h e'
  | ok a => exact nomatch he

theorem fails_require {c : Prop} [Decidable c] {e : ε} (h : P e) : (Act.require c e).Fails P := by
  unfold Act.require
  split
  · exact fails_pure ()
  · intro ce env s w e' he
    cases he
    exact h

theorem fails_blob {c : Call} {hc : Resp c = Except String α} {context : String → ε}
    (h : ∀ e, P (context e)) : (Act.blob hc context).Fails P :=
  (fails_call c).bind fun _ => fails_mapError h

theorem fails_attempt {x : Act ε α} : (Store.attempt x).Fails P := by
  intro ce env s w e he
  unfold exec Store.attempt at he
  rw [Prog.run_bind] at he
  exact nomatch he

end Act

namespace Store

theorem fails_metaFor (s : Store) (b k : String) (v : Option String) :
    (Act.lift (s.metaFor b k v)).Fails StorageError.Unconditional := by
  unfold metaFor
  refine Act.fails_mapError ?_
  intro e
  split <;> rfl

theorem fails_fetchChunks (ce : CeRs) (manifest : Manifest) (is : List Nat) :
    (fetchChunks ce manifest is).Fails StorageError.Unconditional := by
  induction is with
  | nil => exact Act.fails_pure _
  | cons i is ih =>
    refine (Act.fails_blob fun e => unconditional_backend _).bind fun chunk => ?_
    refine (Act.fails_require (unconditional_backend _)).bind fun _ => ?_
    exact ih.bind fun rest => Act.fails_pure _

/-- A ranged read fails for no condition, for it is given none. -/
theorem fails_getObjectRangeOpts (ce : CeRs) (b k range : String) (v : Option String) :
    (getObjectRangeOpts ce b k range v).Fails StorageError.Unconditional := by
  unfold getObjectRangeOpts
  refine Act.Fails.bind (fun _ _ _ _ _ h => nomatch h) fun self => ?_
  refine (fails_metaFor self b k v).bind fun m => ?_
  refine (Act.fails_mapError unconditional_invalidRange).bind fun ⟨start, stop⟩ => ?_
  refine Act.fails_attempt.bind fun r => ?_
  cases r with
  | ok manifest =>
    refine (Act.fails_mapError unconditional_invalidRange).bind fun cov => ?_
    refine (fails_fetchChunks ce manifest cov.chunkIndices).bind fun concat => ?_
    exact (Act.fails_mapError unconditional_backend).bind fun bytes => Act.fails_pure _
  | error e =>
    refine (Act.fails_blob fun e => unconditional_backend _).bind fun full => ?_
    exact (Act.fails_require (unconditional_invalidRange _)).bind fun _ => Act.fails_pure _

/-- A full read fails with what the check of its conditions says, or for none. -/
theorem getObjectOpts_outcome {s : Store} {b k : String} {v : Option String} {m : ObjectMeta}
    (hm : s.metaFor b k v = .ok m) (ce : CeRs) (p : Preconditions) (env : Env) (w : World) :
    (match (exec ce env (getObjectOpts b k v p) s w).1.1 with
      | .ok _ => Outcome.proceed
      | .error e => (storageErr e).outcome) = p.readOutcome m := by
  unfold getObjectOpts Preconditions.readOutcome
  rw [exec_bind_ok exec_self, hm, exec_bind_ok (exec_lift _)]
  cases hcheck : p.checkRead m.etag m.lastModified with
  | error e =>
    rw [exec_bind, exec_lift]
  | ok u =>
    rw [exec_bind_ok (exec_lift _)]
    have hfetch : (do
        let bytes ← Act.blob (c := .getObject m.cid) rfl
          fun e => StorageError.backend s!"fetching object: {e}"
        pure (resultFrom m bytes none)).Fails StorageError.Unconditional :=
      (Act.fails_blob fun e => unconditional_backend _).bind fun bytes => Act.fails_pure _
    split
    next => rfl
    next e he => exact hfetch ce env s w e he

end Store

/-! ## The three requests -/

/-- The ways to read one version of an object. -/
inductive ReadVerb where
  | head
  | get
  | ranged (range : String)

/-- A request selects `m`, of which a `Range` that it may carry can be satisfied. -/
structure Selects (s : Store) (b k : String) (versionId : Option String) (range : String)
    (m : ObjectMeta) : Prop where
  version : s.metaFor b k versionId = .ok m
  /-- A value that is not text is no `Range`. -/
  text : toStr range = some range
  satisfiable : ∃ window, parseRange range m.size = .ok window

namespace HttpRequest

/-- The request made with another verb, and the `Range` of that verb. -/
def reading (req : HttpRequest) : ReadVerb → HttpRequest
  | .head => { req with method := .head }
  | .get =>
    { req with method := .get, headers := req.headers.filter fun h => h.1 != "range" }
  | .ranged range =>
    { req with
      method := .get
      headers := ("range", range) :: req.headers.filter fun h => h.1 != "range" }

variable {req : HttpRequest} {v : ReadVerb}

theorem headerStr_reading (name : String) (h : name ≠ "range") :
    (req.reading v).headerStr name = req.headerStr name := by
  have hfilter : (req.headers.filter fun x => x.1 != "range").find? (·.1 == name)
      = req.headers.find? (·.1 == name) := by
    rw [List.find?_filter]
    refine congrArg (List.find? · req.headers) (funext ?_)
    intro x
    by_cases hx : x.1 = name
    · simp [hx, h]
    · simp [hx]
  unfold headerStr
  cases v with
  | head => rfl
  | get =>
    unfold reading
    dsimp only
    rw [hfilter]
  | ranged range =>
    unfold reading
    dsimp only
    rw [List.find?_cons_of_neg (by simpa using h.symm), hfilter]

theorem extractPreconditions_reading :
    extractPreconditions (req.reading v) = extractPreconditions req := by
  unfold extractPreconditions
  simp only [headerStr_reading "if-match" (by decide),
    headerStr_reading "if-none-match" (by decide),
    headerStr_reading "if-modified-since" (by decide),
    headerStr_reading "if-unmodified-since" (by decide)]

theorem query_reading : (req.reading v).query = req.query := by
  cases v <;> rfl

theorem path_reading : (req.reading v).path = req.path := by
  cases v <;> rfl

theorem range_get : (req.reading .get).headerStr "range" = none := by
  unfold headerStr reading
  dsimp only
  rw [List.find?_filter, List.find?_eq_none.mpr]
  · rfl
  · intro x _
    by_cases hx : x.1 = "range"
    · simp [hx]
    · simp [hx]

theorem range_ranged {range : String} (h : toStr range = some range) :
    (req.reading (.ranged range)).headerStr "range" = some range := by
  unfold headerStr reading
  dsimp only
  rw [List.find?_cons_of_pos (p := fun x : String × String => x.1 == "range")
    (beq_self_eq_true "range")]
  exact h

end HttpRequest

section
variable {ce : CeRs} {gw : Gateway} {req : HttpRequest} {env : Env} {s : Store} {w : World}
  {b k : String} {m : ObjectMeta}

theorem authorize_reading (v : ReadVerb) (now : Nat) (g : Grant) :
    gw.authorize (req.reading v) now g = gw.authorize req now g := by
  unfold Gateway.authorize
  rw [HttpRequest.headerStr_reading headerCap (by decide),
    HttpRequest.headerStr_reading headerRequester (by decide), HttpRequest.query_reading]

theorem getResponse_outcome (res : GetResult) : (Gateway.getResponse res).outcome = .proceed := by
  unfold Gateway.getResponse
  dsimp only
  split <;> rfl

/-- A request that is let through is answered with what its handler reads. -/
theorem serve_reading (v : ReadVerb)
    (hauth : gw.authorize req env.now ⟨abilityRead, b, k⟩ = .ok ()) {ε α : Type} {x : Act ε α}
    {respond : Except ε α → Response}
    (hroute : Gateway.route ce gw (req.reading v)
      = .check ⟨abilityRead, b, k⟩ (.read x respond)) :
    (serve ce gw (req.reading v) env s w).response = respond (exec ce env x s w).1.1 := by
  unfold serve
  rw [hroute]
  exact (Gate.run_check ((authorize_reading v env.now _).trans hauth)).1

theorem mapError_eq_ok {ε ε' α : Type} {r : Except ε α} {f : ε → ε'} {a : α} :
    r.mapError f = .ok a ↔ r = .ok a := by
  cases r <;> simp [Except.mapError]

theorem Store.headObject_of_metaFor (hm : s.metaFor b k none = .ok m) :
    s.headObject b k = .ok m := by
  unfold metaFor at hm
  exact mapError_eq_ok.mp hm

theorem Store.headObjectVersion_of_metaFor {v : String} (hm : s.metaFor b k (some v) = .ok m) :
    s.headObjectVersion b k v = .ok m := by
  unfold metaFor at hm
  exact mapError_eq_ok.mp hm

theorem headResponse_outcome (v : ReadVerb) :
    (Gateway.headResponse (req.reading v) m).outcome
      = if (extractPreconditions req).readOutcome m = .notModified then .notModified
        else .proceed := by
  unfold Gateway.headResponse Preconditions.readOutcome
  rw [HttpRequest.extractPreconditions_reading]
  cases hcheck : (extractPreconditions req).checkRead m.etag m.lastModified with
  | ok u => rfl
  | error e =>
    obtain rfl | ⟨msg, rfl⟩ := Preconditions.checkRead_error hcheck
    · rfl
    · rfl

/-- A HEAD passes over a condition that asks for a 412. -/
theorem head_outcome (hpath : req.path = .object b k)
    (hauth : gw.authorize req env.now ⟨abilityRead, b, k⟩ = .ok ())
    (hm : s.metaFor b k req.query["versionId"]? = .ok m) :
    (serve ce gw (req.reading .head) env s w).response.outcome
      = if (extractPreconditions req).readOutcome m = .notModified then .notModified
        else .proceed := by
  have hroute : Gateway.route ce gw (req.reading .head)
      = Gateway.headObject b k (req.reading .head) := by
    unfold Gateway.route
    rw [HttpRequest.path_reading, hpath]
    rfl
  rw [serve_reading .head hauth hroute, exec_bind_ok exec_self, exec_lift,
    HttpRequest.query_reading, ← headResponse_outcome .head]
  cases hv : req.query["versionId"]? with
  | none =>
    rw [hv] at hm
    dsimp only
    rw [Store.headObject_of_metaFor hm]
  | some v =>
    rw [hv] at hm
    dsimp only
    rw [Store.headObjectVersion_of_metaFor hm]

/-- A full GET is held to its conditions. -/
theorem get_outcome (hpath : req.path = .object b k)
    (hauth : gw.authorize req env.now ⟨abilityRead, b, k⟩ = .ok ())
    (hm : s.metaFor b k req.query["versionId"]? = .ok m) :
    (serve ce gw (req.reading .get) env s w).response.outcome
      = (extractPreconditions req).readOutcome m := by
  have hroute : Gateway.route ce gw (req.reading .get)
      = Gateway.getObject ce b k (req.reading .get) := by
    unfold Gateway.route
    rw [HttpRequest.path_reading, hpath]
    rfl
  rw [serve_reading .get hauth hroute, HttpRequest.range_get, HttpRequest.query_reading,
    HttpRequest.extractPreconditions_reading]
  dsimp only
  rw [← Store.getObjectOpts_outcome hm ce (extractPreconditions req) env w]
  cases (exec ce env (Store.getObjectOpts b k req.query["versionId"]? (extractPreconditions req))
    s w).1.1 with
  | ok res => exact getResponse_outcome res
  | error e => rfl

/-- A ranged GET is held to none. -/
theorem ranged_outcome {range : String} (hrange : toStr range = some range) (hpath : req.path = .object b k)
    (hauth : gw.authorize req env.now ⟨abilityRead, b, k⟩ = .ok ()) :
    (serve ce gw (req.reading (.ranged range)) env s w).response.outcome = .proceed := by
  have hroute : Gateway.route ce gw (req.reading (.ranged range))
      = Gateway.getObject ce b k (req.reading (.ranged range)) := by
    unfold Gateway.route
    rw [HttpRequest.path_reading, hpath]
    rfl
  rw [serve_reading (.ranged range) hauth hroute]
  rw [HttpRequest.range_ranged hrange]
  dsimp only
  split
  next res _ => exact getResponse_outcome res
  next e he => exact Store.fails_getObjectRangeOpts ce b k range _ ce env s w e he

end

/-- HEAD, GET and GET with a `Range` that can be satisfied answer with the outcome of
the conditions on the selected version, all three, if and only if every condition
allows the read. -/
theorem read_verbs_agree_iff (ce : CeRs) (gw : Gateway) (req : HttpRequest) (env : Env)
    (s : Store) (w : World) (b k range : String) (m : ObjectMeta) (hpath : req.path = .object b k)
    (hauth : gw.authorize req env.now ⟨abilityRead, b, k⟩ = .ok ())
    (hsel : Selects s b k req.query["versionId"]? range m) :
    (∀ v ∈ [.head, .get, .ranged range],
      (serve ce gw (req.reading v) env s w).response.outcome
        = (extractPreconditions req).readOutcome m) ↔
    (extractPreconditions req).Allows m := by
  rw [← Preconditions.readOutcome_proceed_iff]
  constructor
  · intro h
    rw [← h (.ranged range) (by simp)]
    exact ranged_outcome hsel.text hpath hauth
  · intro hproceed v hv
    simp only [List.mem_cons, List.not_mem_nil, or_false] at hv
    rcases hv with rfl | rfl | rfl
    · rw [head_outcome hpath hauth hsel.version, hproceed]
      rfl
    · exact get_outcome hpath hauth hsel.version
    · rw [ranged_outcome hsel.text hpath hauth, hproceed]

/-! ### One object -/

private def oneAtSeven : ObjectMeta := ObjectMeta.new "one" 3 "" 7

private def catAtSeven : Store :=
  { Store.fresh 1 with
    index := ((Index.empty.makeBucket "photos" 0).2.put "photos" "cat" oneAtSeven).2 }

private def threeBytes : Env :=
  { Env.calm CeRs.plain 9 "u" with getObject := fun _ => .ok [1, 2, 3] }

private def readCatIf (name value : String) : HttpRequest :=
  { method := .get, path := .object "photos" "cat", headers := [(name, value)], query := ∅
    body := [] }

set_option maxRecDepth 8000 in
private theorem readCatIf_selects (name value : String) :
    Selects catAtSeven "photos" "cat" (readCatIf name value).query["versionId"]? "bytes=0-1"
      oneAtSeven :=
  ⟨rfl, rfl, (0, 1), rfl⟩

set_option maxRecDepth 8000 in
/-- A ranged GET whose `If-Match` names another etag is served. -/
theorem ranged_get_ignores_if_match : ¬∀ (ce : CeRs) (gw : Gateway) (req : HttpRequest)
    (env : Env) (s : Store) (w : World) (b k range : String) (m : ObjectMeta),
      req.path = .object b k → gw.authorize req env.now ⟨abilityRead, b, k⟩ = .ok () →
        Selects s b k req.query["versionId"]? range m →
        ∀ v ∈ [.head, .get, .ranged range],
          (serve ce gw (req.reading v) env s w).response.outcome
            = (extractPreconditions req).readOutcome m := by
  intro h
  have hagree := h CeRs.plain ⟨none, 1000⟩ (readCatIf "if-match" "two") threeBytes catAtSeven
    World.blank "photos" "cat" "bytes=0-1" _ rfl rfl (readCatIf_selects "if-match" "two")
    (.ranged "bytes=0-1") (by simp)
  have hproceeds : (serve CeRs.plain ⟨none, 1000⟩ ((readCatIf "if-match" "two").reading
      (.ranged "bytes=0-1")) threeBytes catAtSeven World.blank).response.outcome
        = .proceed := rfl
  have hfails : (extractPreconditions (readCatIf "if-match" "two")).readOutcome
      oneAtSeven = .preconditionFailed := rfl
  rw [hproceeds, hfails] at hagree
  exact nomatch hagree

private def readOf (v : ReadVerb) : Outcome :=
  (serve CeRs.plain ⟨none, 1000⟩ ((readCatIf "if-match" "one").reading v) threeBytes catAtSeven
    World.blank).response.outcome

set_option maxRecDepth 8000 in
theorem read_verbs_agree_cat : readOf .head = .proceed ∧ readOf .get = .proceed ∧
    readOf (.ranged "bytes=0-1") = .proceed := by
  have hoks : (extractPreconditions (readCatIf "if-match" "one")).readOutcome
      oneAtSeven = .proceed := rfl
  have hagree := (read_verbs_agree_iff CeRs.plain ⟨none, 1000⟩ (readCatIf "if-match" "one")
    threeBytes catAtSeven World.blank "photos" "cat" "bytes=0-1" _ rfl rfl
    (readCatIf_selects "if-match" "one")).mpr (Preconditions.readOutcome_proceed_iff.mp hoks)
  rw [hoks] at hagree
  exact ⟨hagree .head (by simp), hagree .get (by simp), hagree (.ranged "bytes=0-1") (by simp)⟩

end CeStorage
