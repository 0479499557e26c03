import CeStorage.Handles
import CeStorage.Store.Edits

/-!
# Write-once puts

A put with `If-None-Match: *` succeeds only where the index it loads has no
current object at the key, and leaves one there (`put_writes`). No call that
drops neither the key nor its bucket takes the object away again, wherever it
crashes (`turn_bound`). So of turns that run one after another at most one such
put succeeds (`writeOnce_serial`).

The turns of handles on one index path are one after another while no reclaim
removes the lock file of a process that holds the lock. The lock is reclaimed by
age, however, and a put holds it during an upload of any length.
-/

namespace CeStorage

open Lib FileLock

variable {P : Type} [DecidableEq P] {ce : CeRs} {env : Env} {s : Store} {w : World}
  {b k : String}

/-- The index file says that the key has a current object. -/
def World.Bound (b k : String) (w : World) : Prop :=
  ∃ i, Index.decode (w.files .index) = .ok i ∧ i.Bound b k

theorem World.Bound.congr {w' : World} (h : w.Bound b k)
    (hf : w'.files .index = w.files .index) : w'.Bound b k := by
  obtain ⟨i, hi, hb⟩ := h
  exact ⟨i, (congrArg Index.decode hf).trans hi, hb⟩

/-- A call that drops neither the key nor its bucket. -/
def StoreCall.Keeps (ce : CeRs) (b k : String) (c : StoreCall) : Prop :=
  ∀ env w e, c.MayEdit ce env w e → ¬e.Drops b k

/-- A put of the key with `If-None-Match: *`. -/
def StoreCall.isWriteOnce (b k : String) : StoreCall → Bool
  | .putObjectOpts b' k' _ opts => b' == b && k' == k && opts.preconditions.ifNoneMatch == some "*"
  | _ => false

/-- A put of a key drops nothing. -/
theorem keeps_put (bytes : Bytes) (opts : PutOptions) {b' k' : String} :
    (StoreCall.putObjectOpts b' k' bytes opts).Keeps ce b k := by
  rintro env w e ⟨cid, -, rfl⟩ h
  exact h

/-- The condition `If-None-Match: *` fails where there is an object. -/
theorem putCondition_writeOnce {i : Index} {opts : PutOptions}
    (hopts : opts.preconditions.ifNoneMatch = some "*") (h : putCondition i b k opts = .ok ()) :
    ¬i.Bound b k := by
  rintro ⟨m, hm⟩
  have hany : opts.preconditions.any = true := by
    unfold Preconditions.any
    simp [hopts]
  unfold putCondition at h
  rw [if_pos hany, hm] at h
  unfold Preconditions.checkWrite at h
  rw [if_pos (by simp [hopts, Except.toOption])] at h
  exact nomatch h

/-- A write-once put that succeeds found no object and leaves one. -/
theorem put_writes {c : StoreCall} (hc : c.isWriteOnce b k = true) {v : Value}
    (h : (exec ce env (c.op ce s).prog s w).1.1 = .ok v) :
    ¬w.Bound b k ∧ (exec ce env (c.op ce s).prog s w).2.Bound b k := by
  cases c with
  | putObjectOpts b' k' bytes opts =>
    simp only [StoreCall.isWriteOnce, Bool.and_eq_true, beq_iff_eq] at hc
    obtain ⟨⟨rfl, rfl⟩, hopts⟩ := hc
    rw [← exec_alone] at h ⊢
    rcases putObjectOpts_cases ce env.granted b' k' bytes opts s w with
      ⟨⟨e, he⟩, -⟩ | ⟨cid, i, j, -, hi, hcond, hput, -, hf, -⟩
    · exact nomatch h.symm.trans he
    · constructor
      · rintro ⟨i', hi', hb⟩
        cases hi.symm.trans hi'
        exact putCondition_writeOnce hopts hcond hb
      · refine ⟨j, ?_, _, Index.head_put hput⟩
        rw [hf, Function.update_self]
        exact Index.decode_put hi hput
  | _ => exact nomatch hc

/-- A call that does not drop the key keeps its object, run to its end. -/
theorem exec_bound {c : StoreCall} (hc : c.Keeps ce b k) (h : w.Bound b k) :
    (exec ce env (c.op ce s).prog s w).2.Bound b k := by
  rw [← exec_alone]
  rcases index_cases ce env.granted c s w with hf | ⟨i, j, hi, -, hj, hed⟩
  · exact h.congr hf
  · obtain ⟨i', hi', hb⟩ := h
    cases hi.symm.trans hi'
    exact ⟨j, hj, Index.bound_edited hed (fun e he => hc _ _ e he) hb⟩

/-- ... and cut short anywhere: the index file is the old one or the new one. -/
theorem cut_bound {c : StoreCall} (hc : c.Keeps ce b k) (h : w.Bound b k) (n : Nat) :
    (((c.op ce s).prog s).cut (perform ce env) n w).Bound b k := by
  have hatomic : Atomic ce env .index (c.op ce s).prog := atomic_prog c s
  rcases hatomic s w n with hf | hf
  · exact h.congr hf
  · exact (exec_bound (s := s) hc h).congr hf

/-! ## Turns one after another -/

/-- The turn was a write-once put of the key, and it succeeded. -/
def wroteOnce (b k : String) (e : Turn P Request × Option (Except Failure Value)) : Bool :=
  e.1.what.1.isWriteOnce b k && e.2.any (·.toBool)

theorem turn_bound {t : Turn P Request} (ht : t.what.1.Keeps ce b k) {x : World × (P → Store)}
    (h : x.1.Bound b k) : ((storeScheme ce).turn t x).1.1.Bound b k := by
  obtain ⟨p, ⟨c, env⟩, cut⟩ := t
  cases cut with
  | none => exact exec_bound ht h
  | some n => exact cut_bound ht h n

theorem turn_wrote {t : Turn P Request} {x : World × (P → Store)}
    (h : wroteOnce b k (t, ((storeScheme ce).turn t x).2) = true) :
    ¬x.1.Bound b k ∧ ((storeScheme ce).turn t x).1.1.Bound b k := by
  obtain ⟨p, ⟨c, env⟩, cut⟩ := t
  simp only [wroteOnce, Bool.and_eq_true] at h
  cases cut with
  | none =>
    obtain ⟨hc, hr⟩ := h
    cases hv : (exec ce env (c.op ce (x.2 p)).prog (x.2 p) x.1).1.1 with
    | error e =>
      have hr' : (some (exec ce env (c.op ce (x.2 p)).prog (x.2 p) x.1).1.1).any (·.toBool)
        = true := hr
      rw [hv] at hr'
      exact nomatch hr'
    | ok v => exact put_writes hc hv
  | some n => exact nomatch h.2

/-- Of turns one after another that keep the key, at most one write-once put
succeeds, and none where there already is an object. -/
theorem writeOnce_serial (ts : List (Turn P Request)) (hts : ∀ t ∈ ts, t.what.1.Keeps ce b k)
    (x : World × (P → Store)) :
    (x.1.Bound b k → (ts.zip ((storeScheme ce).serial ts x).2).countP (wroteOnce b k) = 0) ∧
      (ts.zip ((storeScheme ce).serial ts x).2).countP (wroteOnce b k) ≤ 1 := by
  induction ts generalizing x with
  | nil => exact ⟨fun _ => rfl, Nat.zero_le _⟩
  | cons t ts ih =>
    have ht := hts t List.mem_cons_self
    obtain ⟨hzero, hone⟩ := ih (fun t' ht' => hts t' (List.mem_cons_of_mem t ht'))
      ((storeScheme ce).turn t x).1
    rw [Scheme.serial, List.zip_cons_cons, List.countP_cons]
    by_cases hw : wroteOnce b k (t, ((storeScheme ce).turn t x).2) = true
    · obtain ⟨hbefore, hafter⟩ := turn_wrote hw
      rw [if_pos hw, hzero hafter]
      exact ⟨fun h => absurd h hbefore, Nat.le_refl 1⟩
    · rw [if_neg hw]
      exact ⟨fun h => hzero (turn_bound ht h), hone⟩

/-! ## Runs -/

/-- **Write-once holds while nobody reclaims a held lock.** In every run in which
no call drops the key or its bucket and no reclaim removes the lock file of a
process that holds the lock, at most one put of the key with `If-None-Match: *`
returns `Ok`. -/
theorem write_once_of_harmless (ce : CeRs) (b k : String) (w₀ : World) (handles : P → Store)
    (x : Handles P)
    (hx : Reach (Guarded.fire (storeScheme ce))
      (fun x e => Guarded.Harmless x e ∧ Guarded.Calls (fun t => t.1.Keeps ce b k) e)
      (Guarded.start (w₀, handles)) x) :
    x.sections.log.countP (wroteOnce b k) ≤ 1 := by
  have hI := Guarded.reach_inv (hx.mono fun _ _ h => h.1)
  have horder := Guarded.reach_order (A := fun t => t.1.Keeps ce b k) (fun _ _ h => h.2) hx
  have hlog : ∀ t ∈ x.sections.log.map Prod.fst, t.what.1.Keeps ce b k := by
    intro t ht
    obtain ⟨e, he, rfl⟩ := List.mem_map.mp ht
    exact horder _ (hI.mem_order he)
  rw [List.zip_of_prod rfl hI.serial.results.symm]
  exact (writeOnce_serial _ hlog _).2

/-! Two writers, one after the other: the second finds the first one's object. -/

private def onePhotos : World :=
  World.blank.setFile .index (some (.index (Index.empty.makeBucket "photos" 0).2))

private def writers : Handles (Fin 2) :=
  Guarded.start (onePhotos, fun p => Store.fresh p.val)

private def putOnce (bytes : Bytes) : Request :=
  (.putObjectOpts "photos" "a" bytes { preconditions := { ifNoneMatch := some "*" } },
    Env.calm CeRs.plain 7 "u")

private def inTurn : List (GuardedEvent (Fin 2) Request) :=
  [.begin early (putOnce [1]) true, .lock (.create early), .enter early true, .call early,
    .call early, .call early, .call early, .call early, .call early, .call early, .call early,
    .leave early, .drop early true, .begin late (putOnce [2]) true, .lock (.create late),
    .enter late true, .call late, .leave late, .drop late true]

private def oneWrote : Handles (Fin 2) :=
  (play (Guarded.fire (storeScheme CeRs.plain)) inTurn writers).getD writers

theorem write_once_of_harmless_inTurn :
    oneWrote.sections.log.countP (wroteOnce "photos" "a") ≤ 1 := by
  refine write_once_of_harmless CeRs.plain "photos" "a" onePhotos (fun p => Store.fresh p.val)
    oneWrote (reach_of_play inTurn (along_of_forall _ _ ?_) rfl)
  simp [inTurn, Guarded.Harmless, FileLock.Harmless, Guarded.Calls, putOnce, keeps_put]

/-! A slow writer: its upload takes longer than `STALE_AFTER`. Another writer
reclaims the lock, finds no object, and puts its own; then the slow one saves what
it loaded before. -/

private def slowWriter : List (GuardedEvent (Fin 2) Request) :=
  [.begin early (putOnce [1]) true, .lock (.create early), .enter early true, .call early,
    .call early, .call early, .lock (.tick (staleAfter + 1)), .begin late (putOnce [2]) true,
    .lock (.create late), .lock (.stat late true), .lock (.remove late true),
    .lock (.create late), .enter late true, .call late, .call late, .call late, .call late,
    .call late, .call late, .call late, .call late, .leave late, .drop late true, .call early,
    .call early, .call early, .call early, .call early, .leave early]

private def bothWrote : Handles (Fin 2) :=
  (play (Guarded.fire (storeScheme CeRs.plain)) slowWriter writers).getD writers

theorem slow_writer_breaks_write_once :
    ¬ ∀ (ce : CeRs) (b k : String) (P : Type) [DecidableEq P] (w₀ : World) (handles : P → Store)
      (x : Handles P),
      Reach (Guarded.fire (storeScheme ce))
        (fun _ e => Guarded.Calls (fun t => t.1.isWriteOnce b k = true) e)
        (Guarded.start (w₀, handles)) x →
      x.sections.log.countP (wroteOnce b k) ≤ 1 := by
  intro h
  have hx : Reach (Guarded.fire (storeScheme CeRs.plain))
      (fun _ e => Guarded.Calls (fun t => t.1.isWriteOnce "photos" "a" = true) e)
      (Guarded.start (onePhotos, fun p : Fin 2 => Store.fresh p.val)) bothWrote := by
    refine reach_of_play slowWriter (along_of_forall _ _ ?_) rfl
    simp [slowWriter, Guarded.Calls, putOnce, StoreCall.isWriteOnce]
  exact absurd (h CeRs.plain "photos" "a" (Fin 2) onePhotos _ bothWrote hx) (by decide)

end CeStorage
