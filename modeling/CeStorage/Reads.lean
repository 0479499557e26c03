import CeStorage.CeRs
import CeStorage.Handles
import CeStorage.Store.Cached

/-!
# Reads through many handles

The system of `Handles` with its reads. A read takes no lock and resolves its
names against the index its handle has in memory, so it can run while another
handle is inside a call; handles are opened at any time. A read that is called
is in progress until it returns, and `worlds` collects what the files held in
between.

A read is `Current` if its answer is what it finds in the contents the index
file had at one of those instants. It is when the file holds, as the read is
called, what its handle last loaded from it or wrote to it (`reads_current`).
Nothing else reloads the handle: after a put through one handle has returned,
another handle still answers that there is no such key.
-/

namespace CeStorage

open Lib

/-! ## The reading methods -/

/-- `Store::open` and `Store::with_client`: load the index. -/
def Store.openAt (env : Env) (w : World) (maxObjectSize pid : Nat) : Except String Store :=
  (env.loadIndex w).map fun i => { index := i, maxObjectSize, pid }

/-- A handle that was just opened holds what the file does. -/
theorem Store.openAt_synced {env : Env} {maxObjectSize pid : Nat} {w : World} {s : Store}
    (h : (Store.openAt env w maxObjectSize pid).toOption = some s) :
    Index.decode (w.files .index) = .ok s.index := by
  unfold Store.openAt at h
  cases hl : env.loadIndex w with
  | error e =>
    rw [hl] at h
    cases h
  | ok i =>
    rw [hl] at h
    cases h
    exact Env.decode_of_loadIndex hl

inductive ReadCall where
  | headObject (bucket key : String)
  | headObjectVersion (bucket key versionId : String)
  | getObjectOpts (bucket key : String) (versionId : Option String)
    (preconditions : Preconditions)
  | getObjectRangeOpts (bucket key rangeHeader : String) (versionId : Option String)
  | listObjects (bucket keyPrefix : String) (delimiter startAfter : Option String) (maxKeys : Nat)
  | listVersions (bucket key : String)
  | listBuckets
  | lifecycle (bucket : String)
  | expiredKeys (bucket : String)

/-- What the reading methods return. -/
inductive Answer where
  | object (r : Except String ObjectMeta)
  | content (r : Except StorageError GetResult)
  | page (r : Except String ListPage)
  | versions (r : Except String (List ObjectMeta))
  | buckets (names : List String)
  | rules (r : Except String (List LifecycleRule))
  | keys (r : Except String (List String))

/-- What a read returns through the handle `self`. -/
def ReadCall.answer (ce : CeRs) (env : Env) (self : Store) (w : World) : ReadCall → Answer
  | headObject b k => .object (self.headObject b k)
  | headObjectVersion b k v => .object (self.headObjectVersion b k v)
  | getObjectOpts b k v pre => .content (exec ce env (Store.getObjectOpts b k v pre) self w).1.1
  | getObjectRangeOpts b k range v =>
    .content (exec ce env (Store.getObjectRangeOpts ce b k range v) self w).1.1
  | listObjects b p d after n => .page (self.listObjects b p d after n)
  | listVersions b k => .versions (self.listVersions b k)
  | listBuckets => .buckets self.listBuckets
  | lifecycle b => .rules (self.lifecycle b)
  | expiredKeys b => .keys (exec ce env (Store.expiredKeys b) self w).1.1

/-! ## The system -/

/-- A read that was called: on which handle, what it returns, and the files at
each instant since. -/
structure Asked where
  read : ReadCall
  env : Env
  self : Store
  answer : Answer
  worlds : List World

/-- The answer is what the read finds in the contents the index file had at some
instant between its call and its return. -/
def Asked.Current (ce : CeRs) (a : Asked) : Prop :=
  ∃ w ∈ a.worlds, ∃ i, Index.decode (w.files .index) = .ok i ∧
    a.answer = a.read.answer ce a.env { a.self with index := i } w

/-- The files may have changed under a read in progress. -/
def Asked.see (w : World) (a : Asked) : Asked := { a with worlds := a.worlds ++ [w] }

theorem Asked.Current.see {ce : CeRs} {a : Asked} (h : a.Current ce) (w : World) :
    (Asked.see w a).Current ce := by
  obtain ⟨v, hv, i, hi, ha⟩ := h
  exact ⟨v, List.mem_append_left _ hv, i, hi, ha⟩

/-- The handles, what the calls of each tell about its cache, the reads in
progress, and those that have returned. -/
structure Readers (P : Type) where
  handles : Handles P
  known : P → Synced
  asked : P → Option Asked
  returned : List (P × Asked)

inductive ReadEvent (P : Type) where
  /-- Any step of the mutating calls and of the lock. -/
  | step (e : GuardedEvent P Request)
  /-- `p` drops its handle and opens another. -/
  | reopen (p : P) (env : Env) (maxObjectSize pid : Nat)
  | ask (p : P) (r : ReadCall) (env : Env)
  /-- The read returns. -/
  | answer (p : P)

/-- Who calls a mutating method, or crashes. -/
def GuardedEvent.starts {P T : Type} : GuardedEvent P T → Option P
  | .begin p _ _ | .crash p => some p
  | _ => none

namespace Readers

variable {P : Type} [DecidableEq P] {ce : CeRs} {w₀ : World} {handles : P → Store}
  {x x' : Readers P}

/-- Every handle is open and what it loaded is what the file holds. -/
def start (w₀ : World) (handles : P → Store) : Readers P :=
  { handles := Guarded.start (w₀, handles), known := fun _ => .text (w₀.files .index)
    asked := fun _ => none, returned := [] }

/-- `p` is in no call. -/
def idle (x : Readers P) (p : P) : Bool :=
  x.handles.lock.pc p == .out && (x.handles.sections.inside p).isNone && (x.asked p).isNone

/-- What is known of the caches after one event: a handle's own calls tell. -/
def note (ce : CeRs) (x : Readers P) : GuardedEvent P Request → P → Synced
  | .call p =>
    match x.handles.sections.inside p with
    | some ⟨t, .call c _, _⟩ => Function.update x.known p
        (Synced.note c (perform ce t.2 c x.handles.sections.shared).1 (x.known p))
    | _ => x.known
  | .crash p => Function.update x.known p .unknown
  | _ => x.known

/-- What one event does; `none` when it cannot happen. A handle does one thing
at a time; the process of a read that never returns can just as well stay in
it, so none crashes there. -/
def fire (ce : CeRs) : ReadEvent P → Readers P → Option (Readers P)
  | .step e, x =>
    if e.starts.any fun p => (x.asked p).isSome then none
    else (Guarded.fire (storeScheme ce) e x.handles).map fun h =>
      { x with
        handles := h, known := x.note ce e
        asked := fun p => (x.asked p).map (Asked.see h.sections.shared) }
  | .reopen p env maxObjectSize pid, x =>
    if x.idle p then
      (Store.openAt env x.handles.sections.shared maxObjectSize pid).toOption.map fun s =>
        { x with
          handles := { x.handles with sections := { x.handles.sections with
            locals := Function.update x.handles.sections.locals p s } }
          known := Function.update x.known p (.text (x.handles.sections.shared.files .index)) }
    else none
  | .ask p r env, x =>
    if x.idle p then
      let self := x.handles.sections.locals p
      let w := x.handles.sections.shared
      some { x with
        asked := Function.update x.asked p (some ⟨r, env, self, r.answer ce env self w, [w]⟩) }
    else none
  | .answer p, x =>
    (x.asked p).map fun a =>
      { x with asked := Function.update x.asked p none, returned := x.returned ++ [(p, a)] }

/-- A read is called only while the index file holds what its handle last loaded
from it or wrote to it. -/
def Synchronized (x : Readers P) : ReadEvent P → Prop
  | .ask p _ _ => x.known p = .text (x.handles.sections.shared.files .index)
  | _ => True

/-! ## The caches are as known -/

/-- Outside a call the handle's cache is as known; a call in progress ends so,
whatever else it is answered. -/
def Tells (seat : Option (Seat Request Call Store (Except Failure Value) Resp)) (s : Store)
    (g : Synced) : Prop :=
  match seat with
  | none => g.Of s.index
  | some seat => seat.rest.Watched Synced.note (fun r g => g.Of r.2.index) g

/-- What is known of every handle holds. -/
def Tallied (c : Config P Request Call World Store (Except Failure Value) Resp)
    (known : P → Synced) : Prop :=
  ∀ p, Tells (c.inside p) (c.locals p) (known p)

section
variable {c c' : Config P Request Call World Store (Except Failure Value) Resp}
  {known : P → Synced} {p : P}

/-- Where one handle moves, the others are as they were. -/
theorem Tallied.move (seat : Option (Seat Request Call Store (Except Failure Value) Resp))
    (s : Store) {g : Synced} (hI : Tallied c known) (hp : Tells seat s g)
    (hinside : c'.inside = Function.update c.inside p seat)
    (hlocals : c'.locals = Function.update c.locals p s) :
    Tallied c' (Function.update known p g) := by
  intro q
  rw [hinside, hlocals]
  by_cases hqp : q = p
  · subst hqp
    rw [Function.update_self, Function.update_self, Function.update_self]
    exact hp
  · rw [Function.update_of_ne hqp, Function.update_of_ne hqp, Function.update_of_ne hqp]
    exact hI q

theorem Tallied.enter {t : Request} (hI : Tallied c known)
    (hf : (storeScheme ce).fire (.enter p t) c = some c') : Tallied c' known := by
  simp only [Scheme.fire] at hf
  split at hf
  next hin =>
    cases hf
    have hp : (known p).Of (c.locals p).index := by
      have h := hI p
      rw [hin] at h
      exact h
    rw [← Function.update_eq_self p known]
    exact hI.move (some ⟨t, _, 0⟩) (c.locals p) (op_settled t.1 _ hp) rfl
      (Function.update_eq_self p _).symm
  next => cases hf

theorem Tallied.call {t : Request} {q : Call} {n : Nat}
    {k : Resp q → Prog Resp (Except Failure Value × Store)} (hI : Tallied c known)
    (hin : c.inside p = some ⟨t, .call q k, n⟩)
    (hf : (storeScheme ce).fire (.call p) c = some c') :
    Tallied c' (Function.update known p
      (Synced.note q (perform ce t.2 q c.shared).1 (known p))) := by
  simp only [Scheme.fire, hin, Option.some.injEq] at hf
  subst hf
  have hp : Tells (c.inside p) (c.locals p) (known p) := hI p
  rw [hin] at hp
  exact hI.move (some ⟨t, _, n + 1⟩) (c.locals p) (hp _) rfl
    (Function.update_eq_self p _).symm

theorem Tallied.leave (hI : Tallied c known)
    (hf : (storeScheme ce).fire (.leave p) c = some c') : Tallied c' known := by
  simp only [Scheme.fire] at hf
  split at hf
  next t r l n hin =>
    cases hf
    have hp : Tells (c.inside p) (c.locals p) (known p) := hI p
    rw [hin] at hp
    rw [← Function.update_eq_self p known]
    exact hI.move none l hp rfl rfl
  next => cases hf

/-- Nothing is known of the handle of a process that crashed. -/
theorem Tallied.crash (hI : Tallied c known) :
    Tallied (((storeScheme ce).fire (.crash p) c).getD c) (Function.update known p .unknown) := by
  cases hin : c.inside p with
  | none =>
    have hc : ((storeScheme ce).fire (.crash p) c).getD c = c := by
      simp only [Scheme.fire, hin]
      rfl
    rw [hc]
    refine hI.move none (c.locals p) trivial ?_ (Function.update_eq_self p _).symm
    rw [← hin, Function.update_eq_self]
  | some seat =>
    have hc : ((storeScheme ce).fire (.crash p) c).getD c = { c with
        inside := Function.update c.inside p none
        log := c.log ++ [(⟨p, seat.what, some seat.calls⟩, none)] } := by
      simp only [Scheme.fire, hin]
      rfl
    rw [hc]
    exact hI.move none (c.locals p) trivial rfl (Function.update_eq_self p _).symm

end

/-- One event of the handles keeps what is known true. -/
theorem tallied_step {e : GuardedEvent P Request} {h : Handles P}
    (hI : Tallied x.handles.sections x.known)
    (hf : Guarded.fire (storeScheme ce) e x.handles = some h) :
    Tallied h.sections (x.note ce e) := by
  cases Guarded.fire_step hf with
  | begin | lock | drop => exact hI
  | enter ht hl hc => exact hI.enter hc
  | @call p c hc =>
    have hcall := hc
    simp only [Scheme.fire] at hcall
    split at hcall
    next t q k n hin =>
      have hnote : x.note ce (.call p) = Function.update x.known p
          (Synced.note q (perform ce t.2 q x.handles.sections.shared).1 (x.known p)) := by
        simp only [note, hin]
      rw [hnote]
      exact hI.call hin hc
    next => cases hcall
  | leave hc => exact hI.leave hc
  | crash => exact hI.crash

/-! ## Reads of a synchronized cache -/

/-- What is known of every handle holds, and every read is current. -/
structure Inv (ce : CeRs) (x : Readers P) : Prop where
  tallied : Tallied x.handles.sections x.known
  asked : ∀ p a, x.asked p = some a → a.Current ce
  returned : ∀ e ∈ x.returned, e.2.Current ce

omit [DecidableEq P] in
theorem idle_inside {p : P} (h : x.idle p = true) : x.handles.sections.inside p = none := by
  unfold idle at h
  simp only [Bool.and_eq_true, Option.isNone_iff_eq_none] at h
  exact h.1.2

/-- Steps of the calls and of the lock: a read in progress sees the files after them. -/
theorem step_inv {e : GuardedEvent P Request} (hI : Inv ce x)
    (hf : fire ce (.step e) x = some x') : Inv ce x' := by
  simp only [fire] at hf
  split at hf
  · cases hf
  · obtain ⟨h, hh, rfl⟩ := Option.map_eq_some_iff.mp hf
    refine ⟨tallied_step hI.tallied hh, ?_, hI.returned⟩
    intro p a ha
    obtain ⟨b, hb, rfl⟩ := Option.map_eq_some_iff.mp ha
    exact (hI.asked p b hb).see _

theorem reopen_inv {p : P} {env : Env} {maxObjectSize pid : Nat} (hI : Inv ce x)
    (hf : fire ce (.reopen p env maxObjectSize pid) x = some x') : Inv ce x' := by
  simp only [fire] at hf
  split at hf
  next hidle =>
    obtain ⟨s, hs, rfl⟩ := Option.map_eq_some_iff.mp hf
    refine ⟨?_, hI.asked, hI.returned⟩
    refine hI.tallied.move none s (Store.openAt_synced hs) ?_ rfl
    rw [← idle_inside hidle, Function.update_eq_self]
  next => cases hf

/-- A read is answered from the cache, which holds what the file does. -/
theorem ask_inv {p : P} {r : ReadCall} {env : Env} (hI : Inv ce x)
    (hs : Synchronized x (.ask p r env)) (hf : fire ce (.ask p r env) x = some x') :
    Inv ce x' := by
  simp only [fire] at hf
  split at hf
  next hidle =>
    cases hf
    refine ⟨hI.tallied, ?_, hI.returned⟩
    intro q a ha
    rcases update_eq_some.mp ha with ⟨rfl, hasked⟩ | ⟨-, ha⟩
    · cases hasked
      have hcache : Tells _ _ (x.known q) := hI.tallied q
      rw [idle_inside hidle, hs] at hcache
      exact ⟨_, List.mem_singleton.mpr rfl, _, hcache, rfl⟩
    · exact hI.asked q a ha
  next => cases hf

theorem answer_inv {p : P} (hI : Inv ce x) (hf : fire ce (.answer p) x = some x') :
    Inv ce x' := by
  obtain ⟨a, ha, rfl⟩ := Option.map_eq_some_iff.mp hf
  refine ⟨hI.tallied, ?_, ?_⟩
  · intro q b hb
    rcases update_eq_some.mp hb with ⟨-, hnone⟩ | ⟨-, hb⟩
    · cases hnone
    · exact hI.asked q b hb
  · intro e he
    rcases List.mem_append.mp he with he | he
    · exact hI.returned e he
    · cases List.mem_singleton.mp he
      exact hI.asked p a ha

theorem fire_inv {e : ReadEvent P} (hI : Inv ce x) (hs : Synchronized x e)
    (hf : fire ce e x = some x') : Inv ce x' := by
  cases e with
  | step e => exact step_inv hI hf
  | reopen p env maxObjectSize pid => exact reopen_inv hI hf
  | ask p r env => exact ask_inv hI hs hf
  | answer p => exact answer_inv hI hf

/-- **Reads see the file.** In every run in which each read is called while the
index file holds what its handle last loaded from it or wrote to it, every read
that has returned answered from the contents the index file had at some instant
between its call and its return. -/
theorem reads_current (ce : CeRs) (w₀ : World) (handles : P → Store) (x : Readers P)
    (hopen : ∀ p, Index.decode (w₀.files .index) = .ok (handles p).index)
    (hx : Reach (fire ce) Synchronized (start w₀ handles) x) :
    ∀ e ∈ x.returned, e.2.Current ce := by
  have hstart : Inv ce (start w₀ handles) :=
    ⟨hopen, fun _ _ h => (nomatch h), fun _ h => nomatch h⟩
  have hI : Inv ce x := hx.inv hstart fun _ _ _ _ hI hok hf => fire_inv hI hok hf
  exact hI.returned

/-! Two handles are open on an index with one bucket. A put through the first
returns; the second still finds no such key. Opened again, it finds the object. -/

private def bucketFile : World :=
  World.blank.setFile .index (some (.index (Index.empty.makeBucket "photos" 0).2))

private def bothOpen (p : Fin 2) : Store :=
  { index := (Index.empty.makeBucket "photos" 0).2, maxObjectSize := 100, pid := p.val }

private def twoReaders : Readers (Fin 2) := start bucketFile bothOpen

private def onePut : List (ReadEvent (Fin 2)) :=
  [.step (.begin early (.putObjectOpts "photos" "cat" [1] {}, Env.calm CeRs.plain 7 "u") true),
    .step (.lock (.create early)), .step (.enter early true), .step (.call early),
    .step (.call early), .step (.call early), .step (.call early), .step (.call early),
    .step (.call early), .step (.call early), .step (.call early), .step (.leave early),
    .step (.drop early true)]

private def headCat : ReadEvent (Fin 2) :=
  .ask late (.headObject "photos" "cat") (Env.calm CeRs.plain 8 "u")

private def staleRead : Readers (Fin 2) :=
  (play (fire CeRs.plain) (onePut ++ [headCat, .answer late]) twoReaders).getD twoReaders

/-- The second handle's answer after the put through the first has returned. -/
theorem stale_read_after_put :
    ¬ ∀ (ce : CeRs) (P : Type) [DecidableEq P] (w₀ : World) (handles : P → Store)
      (x : Readers P), (∀ p, Index.decode (w₀.files .index) = .ok (handles p).index) →
      Reach (fire ce) (fun _ _ => True) (start w₀ handles) x →
      ∀ e ∈ x.returned, e.2.Current ce := by
  intro h
  have hx : Reach (fire CeRs.plain) (fun _ _ => True) twoReaders staleRead :=
    reach_of_play (onePut ++ [headCat, .answer late])
      (along_of_forall _ _ fun _ _ _ => trivial) rfl
  obtain ⟨w, hw, i, hi, ha⟩ := h CeRs.plain (Fin 2) bucketFile bothOpen staleRead (fun _ => rfl) hx
    (staleRead.returned.head (by decide)) (List.head_mem _)
  have hfile : w = staleRead.handles.sections.shared := List.mem_singleton.mp hw
  have hfound : ((Index.decode (w.files .index)).toOption.any fun j =>
      (j.head "photos" "cat").toBool) = true := by
    rw [hfile]
    decide
  have hmissed : (i.head "photos" "cat").toBool = false := by
    have hr := Answer.object.inj ha
    change _ = i.head "photos" "cat" at hr
    rw [← hr]
    decide
  rw [hi] at hfound
  exact absurd (hfound.symm.trans hmissed) (by decide)

private def reopened : Readers (Fin 2) :=
  (play (fire CeRs.plain) (onePut ++ [.reopen late (Env.calm CeRs.plain 8 "u") 100 1])
    twoReaders).getD twoReaders

private def freshRead : Readers (Fin 2) :=
  (play (fire CeRs.plain) [headCat, .answer late] reopened).getD reopened

theorem reads_current_reopened : freshRead.returned.length = 1 ∧
    ∀ e ∈ freshRead.returned, e.2.Current CeRs.plain := by
  have hopened : Reach (fire CeRs.plain) Synchronized twoReaders reopened :=
    reach_of_play (onePut ++ [.reopen late (Env.calm CeRs.plain 8 "u") 100 1])
      (along_of_forall _ _ (by simp [onePut, Synchronized])) rfl
  have hread : Reach (fire CeRs.plain) Synchronized twoReaders freshRead :=
    .next (.next hopened (e := headCat) rfl rfl) (e := .answer late) trivial rfl
  exact ⟨rfl, reads_current CeRs.plain bucketFile bothOpen freshRead (fun _ => rfl) hread⟩

end Readers

end CeStorage
