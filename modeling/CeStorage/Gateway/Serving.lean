import CeStorage.Gateway.Handlers
import CeStorage.Lib.Runs
import CeStorage.Store.Records

/-!
# A gateway that serves requests

The gateway has one handle, which a request has to itself while it is served, so
a run of the gateway is a sequence of requests, in between which other processes
may call the store on the same files. The log keeps each request with what it
found.
-/

namespace CeStorage

open Lib

/-! ## What a request can change -/

/-- The versions of a key in the index file, if there are any. -/
def World.historyOf (w : World) (b k : String) : Option ObjectEntry :=
  match Index.decode (w.files .index) with
  | .ok i => i.history b k
  | .error _ => none

/-- The parts recorded for an upload, if it is in flight and for `k` in `b`. -/
def World.partsOf (w : World) (b k id : String) : Option (Std.ExtTreeMap Nat Part) :=
  (w.inFlight id).bind fun u => if u.target = (b, k) then some u.parts else none

/-- Neither the index entry of `k` in `b` nor the parts of an upload for it
changed. -/
structure World.Keeps (b k : String) (w w' : World) : Prop where
  history : w'.historyOf b k = w.historyOf b k
  parts : ∀ id : String, w'.partsOf b k id = w.partsOf b k id

/-! ## Runs -/

/-- A request, with the handle and the files it was served on. -/
structure Exchange where
  req : HttpRequest
  env : Env
  store : Store
  world : World

/-- What the request came to. -/
def Exchange.reply (ce : CeRs) (gw : Gateway) (e : Exchange) : Reply :=
  serve ce gw e.req e.env e.store e.world

inductive ServingEvent where
  | request (req : HttpRequest) (env : Env)
  /-- A call in another process, on a handle of its own. -/
  | elsewhere (self : Store) (env : Env) (c : StoreCall)

/-- The gateway between two requests. -/
structure Serving where
  store : Store
  world : World
  log : List Exchange

namespace Serving

def start (s₀ : Store) (w₀ : World) : Serving := ⟨s₀, w₀, []⟩

def fire (ce : CeRs) (gw : Gateway) : ServingEvent → Serving → Option Serving
  | .request req env, x =>
    let e : Exchange := ⟨req, env, x.store, x.world⟩
    some ⟨(e.reply ce gw).store, (e.reply ce gw).world, x.log ++ [e]⟩
  | .elsewhere self env c, x => some { x with world := (c.exec ce env self x.world).2 }

variable {ce : CeRs} {gw : Gateway} {s₀ : Store} {w₀ : World}

/-- What holds of every request the run allows, whatever it finds, holds of the
whole log. -/
theorem log_forall {ok : Serving → ServingEvent → Prop} {P : Exchange → Prop}
    (hP : ∀ x req env, ok x (.request req env) → P ⟨req, env, x.store, x.world⟩) {x : Serving}
    (h : Reach (fire ce gw) ok (start s₀ w₀) x) : ∀ e ∈ x.log, P e := by
  refine h.inv (I := fun y => ∀ e ∈ y.log, P e) (fun e he => absurd he List.not_mem_nil)
    fun y event y' _ hI hok hf => ?_
  cases event with
  | request req env =>
    cases hf
    intro e he
    rcases List.mem_append.mp he with hold | hnew
    · exact hI e hold
    · obtain rfl := List.mem_singleton.mp hnew
      exact hP y req env hok
  | elsewhere self env c =>
    cases hf
    exact hI

end Serving

end CeStorage
