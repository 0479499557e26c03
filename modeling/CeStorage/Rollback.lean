import CeStorage.CeRs
import CeStorage.Store.Verbs

/-!
# What a failed mutation leaves behind

A method of `Store` that fails should leave no trace: the index file as it was,
and in memory either the index from before the call or the one just loaded.

The file is always as it was (`transact_error`). The memory is not: every
method edits `self.index` in place and then saves it, and when the save fails
the edited index stays. `StoreCall.Unsaved` is that situation, told from the
state before the call: the save fails, and the edit the call makes on the index
it loads is neither that index nor the one in memory. A failed call leaves no
trace exactly when it is not in it.
-/

namespace CeStorage

open Lib

variable {ce : CeRs} {env : Env} {s : Store} {w : World} {c : StoreCall}

/-- A call went from `(s, w)` to the store and world of `r` without a trace. -/
def NoTrace (s : Store) (w : World) (r : (Except Failure Value × Store) × World) : Prop :=
  r.2.files .index = w.files .index ∧
    (r.1.2.index = s.index ∨ Index.decode (w.files .index) = .ok r.1.2.index)

/-- A call on the index: all methods but those on uploads. -/
def StoreCall.onIndex (c : StoreCall) : Prop :=
  match c with
  | .createMultipartUpload .. | .uploadPart .. | .completeMultipartUpload ..
  | .abortMultipartUpload .. => False
  | _ => True

/-- The call gets as far as saving an edited index, other than the one it loads
and the one in memory, and the save fails. -/
def StoreCall.Unsaved (ce : CeRs) (env : Env) (c : StoreCall) (s : Store) (w : World) : Prop :=
  env.lock = .ok () ∧ c.check s.maxObjectSize = .ok () ∧ env.saveFails .index ≠ none ∧
    ∃ d i j, c.plan ce env = some d ∧ env.loadIndex w = .ok i ∧ (d i).1.saves = some j ∧
      j ≠ i ∧ j ≠ s.index

theorem StoreCall.onIndex_plan (ce : CeRs) (env : Env) (h : c.onIndex) :
    ∃ d, c.plan ce env = some d := by
  cases c <;> first | exact ⟨_, rfl⟩ | exact h.elim

/-- A failed transaction: where it failed, and what it left. -/
theorem transact_error {wrap : String → Failure}
    {d : Index → Decision Failure Value × List (String × Bytes)} {e : Failure}
    (h : (env.transact wrap d s w).1.1 = .error e) :
    (env.transact wrap d s w).2.files = w.files ∧
      ((∃ m, env.loadIndex w = .error m) ∧ (env.transact wrap d s w).1.2 = s ∨
        ∃ i, env.loadIndex w = .ok i ∧
          ((env.transact wrap d s w).1.2 = { s with index := i } ∧ (d i).1.saves = none ∨
            ∃ j, (d i).1.saves = some j ∧ env.saveFails .index ≠ none ∧
              (env.transact wrap d s w).1.2 = { s with index := j })) := by
  rcases transact_cases env wrap d s w with
    ⟨m, hl, hr⟩ | ⟨i, hl, ⟨hs, hf, hend⟩ | ⟨j, a, hsave, hs, hend⟩⟩
  · exact ⟨by rw [hr], .inl ⟨⟨m, hl⟩, by rw [hr]⟩⟩
  · refine ⟨hf, .inr ⟨i, hl, .inl ⟨hs, ?_⟩⟩⟩
    rcases hend with ⟨_, hrefuse, -⟩ | ⟨a, -, hok⟩
    · rw [hrefuse]
      rfl
    · exact nomatch h.symm.trans hok
  · rcases hend with ⟨hfails, -, hf⟩ | ⟨-, hok, -⟩
    · exact ⟨hf, .inr ⟨i, hl, .inr ⟨j, by rw [hsave]; rfl, hfails, hs⟩⟩⟩
    · exact nomatch h.symm.trans hok

/-- **A failed call leaves no trace exactly when its edit is not lost in the
save.** -/
theorem noTrace_iff_not_unsaved (ce : CeRs) (env : Env) (c : StoreCall) (s : Store) (w : World)
    (hc : c.onIndex) (e : Failure) (he : (c.exec ce env s w).1.1 = .error e) :
    NoTrace s w (c.exec ce env s w) ↔ ¬ c.Unsaved ce env s w := by
  obtain ⟨d, hd⟩ := c.onIndex_plan ce env hc
  rw [StoreCall.exec_eq hd] at he ⊢
  unfold StoreCall.Unsaved
  -- the call fails at its check, at the lock, or in the transaction
  cases hcheck : c.check s.maxObjectSize with
  | error e' =>
    refine iff_of_true ⟨rfl, .inl rfl⟩ ?_
    rintro ⟨-, h, -⟩
    exact nomatch h
  | ok u =>
    cases hlock : env.lock with
    | error m =>
      refine iff_of_true ⟨rfl, .inl rfl⟩ ?_
      rintro ⟨h, -⟩
      exact nomatch h
    | ok u =>
      rw [hcheck, hlock] at he
      dsimp only at he ⊢
      obtain ⟨hf, hm⟩ := transact_error he
      unfold NoTrace
      rw [hf]
      rcases hm with ⟨⟨m, hl⟩, hm⟩ | ⟨i, hi, ⟨hm, hsave⟩ | ⟨j, hsave, hfail, hm⟩⟩
      · -- the load failed: nothing was edited
        refine iff_of_true ⟨rfl, .inl (by rw [hm])⟩ ?_
        rintro ⟨-, -, -, d', i, j, -, hi, -⟩
        rw [hl] at hi
        exact nomatch hi
      · -- the call failed before its save: the index just loaded is in memory
        refine iff_of_true ⟨rfl, .inr (by rw [hm]; exact Env.decode_of_loadIndex hi)⟩ ?_
        rintro ⟨-, -, -, d', i', j, hd', hi', hj, -⟩
        cases hd.symm.trans hd'
        cases hi.symm.trans hi'
        rw [hsave] at hj
        exact nomatch hj
      · -- the save failed: the edited index is in memory
        rw [hm, Env.decode_of_loadIndex hi]
        constructor
        · rintro ⟨-, hs⟩ ⟨-, -, -, d', i', j', hd', hi', hj', hne, hold⟩
          cases hd.symm.trans hd'
          cases hi.symm.trans hi'
          cases hsave.symm.trans hj'
          -- no trace means that `j` is what the handle or the file had
          rcases hs with hs | hs
          · exact hold hs
          · exact hne (by cases hs; rfl)
        · intro hn
          refine ⟨rfl, ?_⟩
          by_cases hold : j = s.index
          · exact .inl hold
          · by_cases hne : j = i
            · exact .inr (by rw [hne])
            · exact absurd ⟨rfl, rfl, hfail, d, i, j, hd, hi, hsave, hne, hold⟩ hn

/-- Everything goes well until the index is to be renamed into place. -/
private def renameFails : Env :=
  { Env.calm CeRs.plain 7 "u" with saveFails := fun _ => some .rename }

/-- The bucket that was not made. -/
private def unmade : (Except Failure Value × Store) × World :=
  (StoreCall.makeBucket "photos").exec CeRs.plain renameFails (Store.fresh 1) World.blank

/-- A `makeBucket` that fails because the index cannot be renamed into place
leaves the bucket in memory: not every failed call leaves no trace. -/
theorem failed_makeBucket_leaves_trace :
    ¬ ∀ (ce : CeRs) (env : Env) (c : StoreCall) (s : Store) (w : World) (e : Failure),
      c.onIndex → (c.exec ce env s w).1.1 = .error e → NoTrace s w (c.exec ce env s w) := by
  intro h
  have hn : NoTrace (Store.fresh 1) World.blank unmade :=
    h CeRs.plain renameFails (.makeBucket "photos") (Store.fresh 1) World.blank
      (.message "renaming index into place") trivial (by rfl)
  have hlist : unmade.1.2.index.listBuckets = ["photos"] := by decide
  obtain ⟨-, hm | hm⟩ := hn
  · rw [hm] at hlist
    exact absurd hlist (by decide)
  · have hempty : unmade.1.2.index = Index.empty := (Except.ok.inj hm).symm
    rw [hempty] at hlist
    exact absurd hlist (by decide)

/-- The theorem at that call: it left a trace because its edit was lost in the
save. -/
theorem noTrace_iff_not_unsaved_makeBucket :
    NoTrace (Store.fresh 1) World.blank unmade ↔
      ¬ (StoreCall.makeBucket "photos").Unsaved CeRs.plain renameFails (Store.fresh 1)
        World.blank :=
  noTrace_iff_not_unsaved CeRs.plain renameFails (.makeBucket "photos") (Store.fresh 1)
    World.blank trivial (.message "renaming index into place") (by rfl)

end CeStorage
