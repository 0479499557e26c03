import CeStorage.Gateway.Handlers

/-!
# What a handler comes to

The checks of a handler do not depend on the store. `Gate.cleared` makes them:
what is left is the answer of the check that failed, or the one use of the store
that the handler comes to, together with what was granted on the way. So
whatever holds of the uses of the store, each under its checks, holds of serving
a request (`cleared_guards`).
-/

namespace CeStorage

open Lib

variable {ce : CeRs} {env : Env} {gw : Gateway} {req : HttpRequest} {s : Store} {w : World}

/-! ## Calls -/

/-- What a method does in the types of `StoreCall`. -/
theorem Op.exec_into {ε α : Type} (f : ε → Failure) (g : α → Value) (o : Op ε α) (s : Store)
    (w : World) :
    (o.into f g).exec ce env s w
      = ((inject f g (o.exec ce env s w).1.1, (o.exec ce env s w).1.2),
          (o.exec ce env s w).2) := by
  cases o with
  | refused e => rfl
  | locked busy body =>
    dsimp only [Op.into, Op.exec]
    cases env.lock with
    | error e => rfl
    | ok u => exact CeStorage.exec_into (s := s) (w := w) f g (.locked busy body)

/-- The method `op` is the call `c`, in types that lose nothing of its results. -/
structure StoreCall.Is {ε α : Type} (ce : CeRs) (c : StoreCall) (op : Store → Op ε α)
    (f : ε → Failure) (g : α → Value) : Prop where
  op : ∀ s, c.op ce s = (op s).into f g
  failure : ∀ e e', f e = f e' → e = e'
  value : ∀ a a', g a = g a' → a = a'

section
variable {ε α : Type} {c : StoreCall} {op : Store → Op ε α} {f : ε → Failure} {g : α → Value}

theorem StoreCall.Is.exec (h : c.Is ce op f g) (s : Store) (w : World) :
    c.exec ce env s w
      = ((inject f g ((op s).exec ce env s w).1.1, ((op s).exec ce env s w).1.2),
          ((op s).exec ce env s w).2) := by
  unfold StoreCall.exec
  rw [h.op, Op.exec_into]

theorem StoreCall.Is.inject_inj (h : c.Is ce op f g) {r r' : Except ε α}
    (hr : inject f g r = inject f g r') : r = r' := by
  cases r with
  | error e =>
    cases r' with
    | error e' => exact congrArg _ (h.failure e e' (Except.error.inj hr))
    | ok a => exact nomatch hr
  | ok a =>
    cases r' with
    | error e => exact nomatch hr
    | ok a' => exact congrArg _ (h.value a a' (Except.ok.inj hr))

end

/-- The methods that return nothing. -/
theorem is_unit {op : Op String Unit} {c : StoreCall}
    (h : ∀ s, c.op ce s = op.anyhow fun _ => .unit) :
    c.Is ce (fun _ => op) .message fun _ => .unit :=
  ⟨h, fun _ _ he => Failure.message.inj he, fun _ _ _ => rfl⟩

/-- The methods that return an id or an etag. -/
theorem is_text {op : Store → Op StorageError String} {c : StoreCall}
    (h : ∀ s, c.op ce s = (op s).storage .text) : c.Is ce op .storage .text :=
  ⟨h, fun _ _ he => Failure.storage.inj he, fun _ _ hv => Value.text.inj hv⟩

/-- The methods that return an object. -/
theorem is_object {op : Store → Op StorageError ObjectMeta} {c : StoreCall}
    (h : ∀ s, c.op ce s = (op s).storage .object) : c.Is ce op .storage .object :=
  ⟨h, fun _ _ he => Failure.storage.inj he, fun _ _ hv => Value.object.inj hv⟩

/-! ## Checks -/

/-- `verify_link` accepted what was authorized, with the token that was presented. -/
theorem authorize_accepts {auth : Auth} (hauth : gw.auth = some auth) {now : Nat} {g : Grant}
    (h : gw.authorize req now g = .ok ()) :
    ∃ requester token, (req.headerStr headerCap).or req.query["ce-cap"]? = some token ∧
      auth.verifyLink now requester g.ability g.bucket g.key token = .ok () := by
  unfold Gateway.authorize at h
  rw [hauth] at h
  dsimp only at h
  split at h
  next => exact nomatch h
  next token htoken =>
    split at h
    next => exact nomatch h
    next requester _ =>
      split at h
      next hv => exact ⟨requester, token, htoken, hv⟩
      next => exact nomatch h

namespace Gate

/-- Make the checks of a handler: what they grant, and what is left to do. -/
def cleared (gw : Gateway) (req : HttpRequest) (now : Nat) : Gate → List Grant × Gate
  | check g next =>
    match gw.authorize req now g with
    | .error r => ([], answer r)
    | .ok () =>
      let y := next.cleared gw req now
      (if gw.auth.isSome then g :: y.1 else y.1, y.2)
  | x => ([], x)

/-- What is left has no checks. -/
theorem run_cleared (x : Gate) :
    x.run ce gw req env s w
      = { (x.cleared gw req env.now).2.run ce gw req env s w with
          granted := (x.cleared gw req env.now).1 } := by
  induction x with
  | answer r => rfl
  | check g next ih =>
    conv_lhs => unfold run
    unfold cleared
    cases gw.authorize req env.now g with
    | error r => rfl
    | ok u =>
      dsimp only
      rw [ih]
      split <;> rfl
  | call op respond => rfl
  | read x respond => rfl

/-- `P` holds of what a handler comes to, if its checks succeed and none of them
is one of `ex`. -/
def Guards (gw : Gateway) (req : HttpRequest) (now : Nat) (ex : Grant → Prop) (P : Gate → Prop) :
    Gate → Prop
  | check g next => gw.authorize req now g = .ok () → ex g ∨ next.Guards gw req now ex P
  | x => P x

/-- A handler that checks a key is let through for that key, or it is another key. -/
theorem guards_key {now : Nat} {P : Gate → Prop} {ability b' k' b k : String} {next : Gate}
    (h : ¬(b' = b ∧ k' = k) → gw.authorize req now ⟨ability, b', k'⟩ = .ok () →
      next.Guards gw req now (· = ⟨ability, b, k⟩) P) :
    (check ⟨ability, b', k'⟩ next).Guards gw req now (· = ⟨ability, b, k⟩) P := by
  intro hauth
  by_cases hkey : b' = b ∧ k' = k
  · obtain ⟨rfl, rfl⟩ := hkey
    exact .inl rfl
  · exact .inr (h hkey hauth)

/-- A handler was granted one of `ex`, or comes to something that `P` holds of. -/
theorem cleared_guards {now : Nat} {ex : Grant → Prop} {P : Gate → Prop} (hP : ∀ r, P (.answer r))
    {x : Gate} (h : x.Guards gw req now ex P) :
    (∃ g, ex g ∧ (gw.auth.isSome → g ∈ (x.cleared gw req now).1)) ∨ P (x.cleared gw req now).2 := by
  induction x with
  | answer r => exact .inr h
  | check g next ih =>
    unfold cleared
    unfold Guards at h
    cases hg : gw.authorize req now g with
    | error r => exact .inr (hP r)
    | ok u =>
      dsimp only
      rcases h hg with hex | hnext
      · refine .inl ⟨g, hex, ?_⟩
        intro hauth
        rw [if_pos hauth]
        exact List.mem_cons_self
      · rcases ih hnext with ⟨g', hex, hmem⟩ | hp
        · refine .inl ⟨g', hex, ?_⟩
          intro hauth
          rw [if_pos hauth]
          exact List.mem_cons_of_mem g (hmem hauth)
        · exact .inr hp
  | call op respond => exact .inr h
  | read x respond => exact .inr h

/-- Everything granted to a request was accepted by `verify_link`. -/
theorem granted_accepted {auth : Auth} (hauth : gw.auth = some auth) (x : Gate) :
    ∀ g ∈ (x.run ce gw req env s w).granted, ∃ requester token,
      auth.verifyLink env.now requester g.ability g.bucket g.key token = .ok () := by
  induction x with
  | answer r => exact fun g hg => nomatch hg
  | check g next ih =>
    unfold run
    cases hg : gw.authorize req env.now g with
    | error r => exact fun g hg => nomatch hg
    | ok u =>
      dsimp only
      rw [hauth]
      intro g' hg'
      rcases List.mem_cons.mp hg' with rfl | hmem
      · obtain ⟨requester, token, -, hv⟩ := authorize_accepts hauth hg
        exact ⟨requester, token, hv⟩
      · exact ih g' hmem
  | call op respond => exact fun g hg => nomatch hg
  | read x respond => exact fun g hg => nomatch hg

end Gate

/-- Either side of the limit on bodies. -/
theorem guards_withBody {now : Nat} {ex : Grant → Prop} {P : Gate → Prop} {x : Gate}
    (hP : ∀ r, P (.answer r))
    (h : ¬gw.bodyLimit < req.body.length → x.Guards gw req now ex P) :
    (gw.withBody req x).Guards gw req now ex P := by
  unfold Gateway.withBody
  split
  next => exact hP _
  next hbody => exact h hbody

/-- Serving a request is running what its handler comes to. -/
theorem serve_eq (ce : CeRs) (gw : Gateway) (req : HttpRequest) (env : Env) (s : Store)
    (w : World) :
    serve ce gw req env s w
      = { ((Gateway.route ce gw req).cleared gw req env.now).2.run ce gw req env s w with
          granted := ((Gateway.route ce gw req).cleared gw req env.now).1 } :=
  Gate.run_cleared _

end CeStorage
