import CeStorage.Lib.Register
import CeStorage.WriteOnce

/-!
# Updates under If-Match

A put with `If-Match: "<etag>"` succeeds only where the index it loads has a
current object with that etag, and leaves one with the etag of its own content
(`exec_swap`). So a key that is changed by such puts only is a compare-and-swap
register over etags (`Lib.Register`): in every run in which no reclaim removes the
lock file of a process that holds the lock, crashes included, the puts are legal
swaps in lock order, and of those that name one etag at most one succeeds unless
that content is put again.
-/

namespace CeStorage

open Lib FileLock

variable {P : Type} [DecidableEq P] {ce : CeRs} {env : Env} {s : Store} {w : World}
  {b k tag : String}

/-- The etag of a key's current object, as the index file says. -/
def World.etag (b k : String) (w : World) : Option String :=
  (Index.decode (w.files .index)).toOption.bind fun i => (i.head b k).toOption.map (·.etag)

/-- The call changes the history of no key but others. -/
def StoreCall.LeavesKey (ce : CeRs) (b k : String) (c : StoreCall) : Prop :=
  ∀ env w e, c.MayEdit ce env w e → ¬e.Touches b k

/-- The etag that a put of the key names in `If-Match`; `*` names none. -/
def StoreCall.expects (b k : String) : StoreCall → Option String
  | .putObjectOpts b' k' _ opts =>
    if b' = b ∧ k' = k then (opts.preconditions.ifMatch.filter (· != "*")).map unquote else none
  | _ => none

/-- The etag that a put leaves: the CID that the blob store answers. -/
def Request.leaves : Request → String
  | (.putObjectOpts _ _ bytes _, env) => (env.putObject bytes).toOption.getD ""
  | _ => ""

/-- A turn that was an `If-Match` put of the key, as a swap of etags. -/
def swapOf (b k : String) (e : Turn P Request × Option (Except Failure Value)) :
    Option (Swap String) :=
  (e.1.what.1.expects b k).map fun tag =>
    { expect := tag, new := Request.leaves e.1.what, answer := e.2.map (·.toBool) }

/-! ## One call -/

theorem World.etag_congr {w' : World} (hf : w'.files .index = w.files .index) :
    w'.etag b k = w.etag b k := by
  unfold World.etag
  rw [hf]

theorem World.etag_decode {i : Index} (hi : Index.decode (w.files .index) = .ok i) :
    w.etag b k = (i.head b k).toOption.map (·.etag) := by
  unfold World.etag
  rw [hi]
  rfl

/-- What a key's history is decides what its current object is. -/
theorem Index.toOption_head {i j : Index} (h : j.history b k = i.history b k) :
    (j.head b k).toOption = (i.head b k).toOption := by
  cases hi : i.head b k with
  | ok m => rw [Index.head_of_history h hi]
  | error e =>
    cases hj : j.head b k with
    | ok m => exact nomatch hi.symm.trans (Index.head_of_history h.symm hj)
    | error e' => rfl

/-- A call that spares the key leaves it its etag, run to its end. -/
theorem exec_etag {c : StoreCall} (hc : c.LeavesKey ce b k) :
    (exec ce env (c.op ce s).prog s w).2.etag b k = w.etag b k := by
  rw [← exec_alone]
  rcases index_cases ce env.granted c s w with hf | ⟨i, j, hi, -, hj, hed⟩
  · exact World.etag_congr hf
  · rw [World.etag_decode hi, World.etag_decode hj,
      Index.toOption_head (Index.history_edited hed fun e he => hc _ _ e he)]

/-- The condition holds where the etag is the one it names. -/
theorem putCondition_ifMatch {i : Index} {opts : PutOptions} {m : String}
    (hm : opts.preconditions.ifMatch = some m) (hstar : m ≠ "*")
    (h : putCondition i b k opts = .ok ()) :
    (i.head b k).toOption.map (·.etag) = some (unquote m) := by
  have hany : opts.preconditions.any = true := by
    unfold Preconditions.any
    simp [hm]
  unfold putCondition at h
  rw [if_pos hany] at h
  unfold Preconditions.checkWrite at h
  split at h
  · exact nomatch h
  · split at h
    · exact nomatch h
    · split at h
      · exact nomatch h
      next hmatch =>
        rw [hm, Option.any_some] at hmatch
        cases he : (i.head b k).toOption.map (·.etag) with
        | none =>
          rw [he] at hmatch
          exact absurd rfl hmatch
        | some e =>
          rw [he, Option.any_some, beq_false_of_ne hstar, Bool.false_or] at hmatch
          cases heq : unquote m == e with
          | false =>
            rw [heq] at hmatch
            exact absurd rfl hmatch
          | true => rw [beq_iff_eq.mp heq]

/-- An `If-Match` put fails and leaves the key its etag; or it found the etag it
names, and leaves its own. -/
theorem exec_swap (ce : CeRs) (env : Env) (s : Store) (w : World) {c : StoreCall}
    (hc : c.expects b k = some tag) :
    let r := exec ce env (c.op ce s).prog s w
    (r.1.1.toBool = false ∧ r.2.etag b k = w.etag b k) ∨
      (r.1.1.toBool = true ∧ w.etag b k = some tag ∧
        r.2.etag b k = some (Request.leaves (c, env))) := by
  cases c with
  | putObjectOpts b' k' bytes opts =>
    have hif : (if b' = b ∧ k' = k then
        (opts.preconditions.ifMatch.filter (· != "*")).map unquote else none) = some tag := hc
    by_cases hbk : b' = b ∧ k' = k
    · rw [if_pos hbk] at hif
      obtain ⟨rfl, rfl⟩ := hbk
      obtain ⟨m, hm, rfl⟩ := Option.map_eq_some_iff.mp hif
      obtain ⟨hm, hstar⟩ := Option.filter_eq_some_iff.mp hm
      dsimp only
      rw [← exec_alone]
      rcases putObjectOpts_cases ce env.granted b' k' bytes opts s w with
        ⟨⟨e, he⟩, hf⟩ | ⟨cid, i, j, hcid, hi, hcond, hput, hr, hf, -⟩
      · refine .inl ⟨by rw [he]; rfl, World.etag_congr (congrFun hf _)⟩
      · refine .inr ⟨by rw [hr]; rfl, ?_, ?_⟩
        · rw [World.etag_decode hi]
          exact putCondition_ifMatch hm (by simpa using hstar) hcond
        · rw [World.etag_decode (i := j) (by
            rw [hf, Function.update_self]
            exact Index.decode_put hi hput), Index.head_put hput]
          have hleaves : Request.leaves (.putObjectOpts b' k' bytes opts, env) = cid := by
            show (env.putObject bytes).toOption.getD "" = cid
            rw [show env.putObject bytes = .ok cid from hcid]
            rfl
          rw [hleaves]
          rfl
    · rw [if_neg hbk] at hif
      exact nomatch hif
  | _ => exact nomatch hc

/-! ## Turns one after another -/

/-- A turn that spares the key leaves it its etag. -/
theorem turn_etag {t : Turn P Request} (ht : t.what.1.LeavesKey ce b k) (x : World × (P → Store)) :
    ((storeScheme ce).turn t x).1.1.etag b k = x.1.etag b k := by
  obtain ⟨p, ⟨c, env⟩, cut⟩ := t
  cases cut with
  | none => exact exec_etag ht
  | some n =>
    have hatomic : Atomic ce env .index (c.op ce (x.2 p)).prog := atomic_prog c _
    rcases hatomic (x.2 p) x.1 n with hf | hf
    · exact World.etag_congr hf
    · exact (World.etag_congr hf).trans (exec_etag ht)

/-- A turn that is an `If-Match` put is a legal swap. -/
theorem turn_legal {t : Turn P Request} (ht : t.what.1.expects b k = some tag)
    (x : World × (P → Store)) :
    Swap.Legal (x.1.etag b k)
      [⟨tag, Request.leaves t.what, ((storeScheme ce).turn t x).2.map (·.toBool)⟩]
      (((storeScheme ce).turn t x).1.1.etag b k) := by
  obtain ⟨p, ⟨c, env⟩, cut⟩ := t
  have hone := exec_swap ce env (x.2 p) x.1 ht
  cases cut with
  | none =>
    rcases hone with ⟨hr, he⟩ | ⟨hr, hbefore, hafter⟩
    · refine .skip ?_ ?_
      · show some _ ≠ some true
        intro h
        exact nomatch hr.symm.trans (Option.some.inj h)
      · rw [← he]
        exact .nil _
    · rw [hbefore]
      refine .take (s := ⟨tag, _, _⟩) ?_ ?_
      · show some _ ≠ some false
        intro h
        exact nomatch hr.symm.trans (Option.some.inj h)
      · rw [← hafter]
        exact .nil _
  | some n =>
    have hatomic : Atomic ce env .index (c.op ce (x.2 p)).prog := atomic_prog c _
    -- a crashed put was never answered; it left the old etag or its own
    rcases hatomic (x.2 p) x.1 n with hf | hf
    · refine .skip (show (none : Option Bool) ≠ some true from nofun) ?_
      rw [← World.etag_congr (b := b) (k := k) hf]
      exact .nil _
    · have hcut := World.etag_congr (b := b) (k := k) hf
      rcases hone with ⟨-, he⟩ | ⟨-, hbefore, hafter⟩
      · refine .skip (show (none : Option Bool) ≠ some true from nofun) ?_
        rw [← hcut.trans he]
        exact .nil _
      · rw [hbefore]
        refine .take (s := ⟨tag, _, _⟩) (show (none : Option Bool) ≠ some false from nofun) ?_
        rw [← hcut.trans hafter]
        exact .nil _

/-- The `If-Match` puts among turns one after another are legal swaps. -/
theorem serial_legal (ce : CeRs) (ts : List (Turn P Request))
    (hts : ∀ t ∈ ts, t.what.1.LeavesKey ce b k ∨ (t.what.1.expects b k).isSome = true)
    (x : World × (P → Store)) :
    Swap.Legal (x.1.etag b k) ((ts.zip ((storeScheme ce).serial ts x).2).filterMap (swapOf b k))
      (((storeScheme ce).serial ts x).1.1.etag b k) := by
  induction ts generalizing x with
  | nil => exact .nil _
  | cons t ts ih =>
    have hrest := ih (fun t' ht' => hts t' (List.mem_cons_of_mem t ht'))
      ((storeScheme ce).turn t x).1
    rw [Scheme.serial, List.zip_cons_cons, List.filterMap_cons]
    cases he : t.what.1.expects b k with
    | none =>
      have hnone : swapOf b k (t, ((storeScheme ce).turn t x).2) = none := by
        unfold swapOf
        rw [he]
        rfl
      rw [hnone]
      have ht : t.what.1.LeavesKey ce b k := by
        rcases hts t List.mem_cons_self with h | h
        · exact h
        · rw [he] at h
          cases h
      rw [← turn_etag ht x]
      exact hrest
    | some tag =>
      have hsome : swapOf b k (t, ((storeScheme ce).turn t x).2)
          = some ⟨tag, Request.leaves t.what, ((storeScheme ce).turn t x).2.map (·.toBool)⟩ := by
        unfold swapOf
        rw [he]
        rfl
      rw [hsome]
      exact (turn_legal he x).append hrest

/-! ## Runs -/

/-- **A key under If-Match is a compare-and-swap register.** In every run in which
no reclaim removes the lock file of a process that holds the lock and every call
spares the key or is an `If-Match` put of it: the puts are legal swaps of the etag
in the order in which they got the lock, and they lead to the etag the key has.
Of those that name an etag that none of them leaves at most one succeeds. -/
theorem if_match_swaps (ce : CeRs) (b k : String) (w₀ : World) (handles : P → Store)
    (x : Handles P)
    (hx : Reach (Guarded.fire (storeScheme ce))
      (fun x e => Guarded.Harmless x e ∧
        Guarded.Calls (fun t => t.1.LeavesKey ce b k ∨ (t.1.expects b k).isSome = true) e)
      (Guarded.start (w₀, handles)) x) :
    (∃ v, Swap.Legal (w₀.etag b k) (x.sections.log.filterMap (swapOf b k)) v ∧
        ((∀ p, x.sections.inside p = none) → v = x.sections.shared.etag b k)) ∧
      ∀ tag, (∀ s ∈ x.sections.log.filterMap (swapOf b k), s.new ≠ tag) →
        (x.sections.log.filterMap (swapOf b k)).countP (Swap.wins tag) ≤ 1 := by
  have hI := Guarded.reach_inv (hx.mono fun _ _ h => h.1)
  have horder := Guarded.reach_order
    (A := fun t => t.1.LeavesKey ce b k ∨ (t.1.expects b k).isSome = true) (fun _ _ h => h.2) hx
  have hlog : ∀ t ∈ x.sections.log.map Prod.fst,
      t.what.1.LeavesKey ce b k ∨ (t.what.1.expects b k).isSome = true := by
    intro t ht
    obtain ⟨e, he, rfl⟩ := List.mem_map.mp ht
    exact horder _ (hI.mem_order he)
  have hlegal := serial_legal ce _ hlog (w₀, handles)
  rw [← List.zip_of_prod rfl hI.serial.results.symm] at hlegal
  refine ⟨⟨_, hlegal, ?_⟩, fun tag htag => hlegal.wins_le_one htag⟩
  intro hidle
  rw [hI.serial.idle hidle]

/-! Two writers that have both read the same object: one of them wins. -/

private def oneObject : World :=
  World.blank.setFile .index (some (.index ((Index.empty.makeBucket "photos" 0).2.put "photos" "a"
    (ObjectMeta.new "e" 1 "image/png" 1)).2))

private def update (bytes : Bytes) : Request :=
  (.putObjectOpts "photos" "a" bytes { preconditions := { ifMatch := some "\"e\"" } },
    Env.calm CeRs.plain 7 "u")

private def bothUpdate : List (GuardedEvent (Fin 2) Request) :=
  [.begin early (update [1]) true, .lock (.create early), .begin late (update [2]) true,
    .lock (.create late), .lock (.stat late true), .enter early true, .call early, .call early,
    .call early, .call early, .call early, .call early, .call early, .call early, .leave early,
    .drop early true, .lock (.retry late), .lock (.create late), .enter late true, .call late,
    .leave late, .drop late true]

private def updaters : Handles (Fin 2) := Guarded.start (oneObject, fun p => Store.fresh p.val)

private def oneWon : Handles (Fin 2) :=
  (play (Guarded.fire (storeScheme CeRs.plain)) bothUpdate updaters).getD updaters

private theorem oneWon_reach : Reach (Guarded.fire (storeScheme CeRs.plain))
    (fun x e => Guarded.Harmless x e ∧ Guarded.Calls
      (fun t => t.1.LeavesKey CeRs.plain "photos" "a" ∨ (t.1.expects "photos" "a").isSome = true) e)
    updaters oneWon := by
  refine reach_along_getD (along_of_forall bothUpdate updaters ?_) (by decide +kernel)
  have hupdate : ∀ bytes, ((update bytes).1.expects "photos" "a").isSome = true := fun _ => rfl
  simp [bothUpdate, Guarded.Harmless, FileLock.Harmless, Guarded.Calls, hupdate]

theorem if_match_swaps_bothUpdate :
    (oneWon.sections.log.filterMap (swapOf "photos" "a")).length = 2 ∧
    (∃ v, Swap.Legal (oneObject.etag "photos" "a")
        (oneWon.sections.log.filterMap (swapOf "photos" "a")) v ∧
        ((∀ p, oneWon.sections.inside p = none) → v = oneWon.sections.shared.etag "photos" "a")) ∧
      ∀ tag, (∀ s ∈ oneWon.sections.log.filterMap (swapOf "photos" "a"), s.new ≠ tag) →
        (oneWon.sections.log.filterMap (swapOf "photos" "a")).countP (Swap.wins tag) ≤ 1 :=
  ⟨by decide +kernel, if_match_swaps CeRs.plain "photos" "a" oneObject
    (fun p : Fin 2 => Store.fresh p.val) oneWon oneWon_reach⟩

end CeStorage
