import Mathlib

/-!
# Runs of an event system

A system is a function `fire : ε → σ → Option σ`: what event `e` does to a
state, `none` when `e` cannot happen there. A run is any finite sequence of
events. `Reach ok s₀ s` says some run leads from `s₀` to `s` in which every
event met the condition `ok` in the state it happened in; `ok` is where the
assumptions about an environment go (no crash, a bounded hold time, ...).

`Reach.inv` is the one induction over runs. `play` runs a list of events, so a
run over fixed inputs is computed and `reach_of_play` makes a `Reach` of it.
-/

namespace CeStorage.Lib

variable {σ ε : Type}

/-- `s` is reached from `s₀` by events that each meet `ok`. -/
inductive Reach (fire : ε → σ → Option σ) (ok : σ → ε → Prop) (s₀ : σ) : σ → Prop where
  | start : Reach fire ok s₀ s₀
  | next {s s' : σ} {e : ε} : Reach fire ok s₀ s → ok s e → fire e s = some s' →
      Reach fire ok s₀ s'

variable {fire : ε → σ → Option σ} {ok ok' : σ → ε → Prop} {s₀ s₁ s : σ}

/-- What holds at the start and is preserved by every event holds in every
state reached. -/
theorem Reach.inv {I : σ → Prop} (h₀ : I s₀)
    (hstep : ∀ s e s', Reach fire ok s₀ s → I s → ok s e → fire e s = some s' → I s')
    (h : Reach fire ok s₀ s) : I s := by
  induction h with
  | start => exact h₀
  | next hr hok hf ih => exact hstep _ _ _ hr ih hok hf

/-- Asking less of the events reaches more states. -/
theorem Reach.mono (hok : ∀ s e, ok s e → ok' s e) (h : Reach fire ok s₀ s) :
    Reach fire ok' s₀ s := by
  induction h with
  | start => exact .start
  | next _ h1 h2 ih => exact .next ih (hok _ _ h1) h2

theorem Reach.trans (h : Reach fire ok s₀ s₁) (h' : Reach fire ok s₁ s) :
    Reach fire ok s₀ s := by
  induction h' with
  | start => exact h
  | next _ h1 h2 ih => exact .next ih h1 h2

/-! ## Runs over a given list of events -/

/-- The state after the events of a list, if each can happen in its turn. -/
def play (fire : ε → σ → Option σ) : List ε → σ → Option σ
  | [], s => some s
  | e :: es, s => (fire e s).bind (play fire es)

/-- Every event of the list meets `ok` in the state it happens in. -/
def Along (fire : ε → σ → Option σ) (ok : σ → ε → Prop) : List ε → σ → Prop
  | [], _ => True
  | e :: es, s => ok s e ∧ ∀ s', fire e s = some s' → Along fire ok es s'

theorem reach_of_play : ∀ (es : List ε) {s s' : σ}, Along fire ok es s →
    play fire es s = some s' → Reach fire ok s s'
  | [], s, s', _, h => by
    cases h
    exact .start
  | e :: es, s, s', hok, h => by
    obtain ⟨t, hf, hp⟩ := Option.bind_eq_some_iff.mp h
    have hfirst : Reach fire ok s t := .next .start hok.1 hf
    exact hfirst.trans (reach_of_play es (hok.2 t hf) hp)

/-- What an event does where it meets `ok`. -/
def fireIf (fire : ε → σ → Option σ) (ok : σ → ε → Prop) [∀ s e, Decidable (ok s e)] (e : ε)
    (s : σ) : Option σ := if ok s e then fire e s else none

/-- A run that checks `ok` before each event. -/
theorem reach_of_play_fireIf [∀ s e, Decidable (ok s e)] : ∀ (es : List ε) {s s' : σ},
    play (fireIf fire ok) es s = some s' → Reach fire ok s s'
  | [], s, s', h => by
    cases h
    exact .start
  | e :: es, s, s', h => by
    obtain ⟨t, hf, hp⟩ := Option.bind_eq_some_iff.mp h
    unfold fireIf at hf
    split at hf
    next hok => exact (Reach.next .start hok hf).trans (reach_of_play_fireIf es hp)
    next => exact nomatch hf

theorem reach_getD [∀ s e, Decidable (ok s e)] {es : List ε}
    (h : (play (fireIf fire ok) es s).isSome = true) :
    Reach fire ok s ((play (fireIf fire ok) es s).getD s) := by
  obtain ⟨s', hs'⟩ := Option.isSome_iff_exists.mp h
  rw [hs', Option.getD_some]
  exact reach_of_play_fireIf es hs'

/-- A run of events that meet `ok` in every state. -/
theorem along_of_forall : ∀ (es : List ε) (s : σ), (∀ e ∈ es, ∀ t, ok t e) → Along fire ok es s
  | [], _, _ => trivial
  | e :: es, s, h => ⟨h e List.mem_cons_self s,
      fun s' _ => along_of_forall es s' fun e' he => h e' (List.mem_cons_of_mem e he)⟩

/-- Where nothing is asked of the events, a list that goes through is a run. -/
theorem reach_play_getD (hok : ∀ s e, ok s e) {es : List ε}
    (h : (play fire es s).isSome = true) : Reach fire ok s ((play fire es s).getD s) := by
  obtain ⟨s', hs'⟩ := Option.isSome_iff_exists.mp h
  rw [hs', Option.getD_some]
  exact reach_of_play es (along_of_forall es s fun e _ t => hok t e) hs'

/-- A list whose events meet `ok` and that goes through is a run. -/
theorem reach_along_getD {es : List ε} (hok : Along fire ok es s)
    (h : (play fire es s).isSome = true) : Reach fire ok s ((play fire es s).getD s) := by
  obtain ⟨s', hs'⟩ := Option.isSome_iff_exists.mp h
  rw [hs', Option.getD_some]
  exact reach_of_play es hok hs'

/-- Under an invariant of the run, what `ok` says of each step implies `ok'`. -/
theorem Along.imp {I : σ → Prop} (hI : I s)
    (hstep : ∀ s e s', I s → ok s e → fire e s = some s' → I s')
    (himp : ∀ s e, I s → ok s e → ok' s e) {es : List ε} (h : Along fire ok es s) :
    Along fire ok' es s := by
  induction es generalizing s with
  | nil => exact trivial
  | cons e es ih =>
    exact ⟨himp s e hI h.1, fun s' hs' => ih (hstep s e s' hI h.1 hs') (h.2 s' hs')⟩

/-- Every state of the run meets `Q`, the first and the last included. -/
def Throughout (fire : ε → σ → Option σ) (Q : σ → Prop) : List ε → σ → Prop
  | [], s => Q s
  | e :: es, s => Q s ∧ ∀ s', fire e s = some s' → Throughout fire Q es s'

theorem Throughout.first {Q : σ → Prop} {es : List ε} (h : Throughout fire Q es s) : Q s := by
  cases es with
  | nil => exact h
  | cons e es => exact h.1

/-- Under an invariant `J` of the run for as long as it keeps `Q`, where `keeps` says exactly
which steps keep `Q`, a run keeps it throughout if and only if each of its steps does. -/
theorem throughout_iff_along_inv {J Q : σ → Prop} {ok keeps : σ → ε → Prop}
    (hoff : ∀ s e, fire e s = none → keeps s e)
    (hJ : ∀ s e s', J s → ok s e → fire e s = some s' → Q s → Q s' → J s')
    (hstep : ∀ s e s', J s → ok s e → fire e s = some s' → Q s → (Q s' ↔ keeps s e))
    {es : List ε} (hj : J s) (hq : Q s) (hok : Along fire ok es s) :
    Throughout fire Q es s ↔ Along fire keeps es s := by
  induction es generalizing s with
  | nil => exact iff_of_true hq trivial
  | cons e es ih =>
    have hone : ∀ t, fire e s = some t → (Q t ↔ keeps s e) :=
      fun t ht => hstep s e t hj hok.1 ht hq
    have hrest : ∀ t, fire e s = some t → Q t →
        (Throughout fire Q es t ↔ Along fire keeps es t) :=
      fun t ht hqt => ih (hJ s e t hj hok.1 ht hq hqt) hqt (hok.2 t ht)
    constructor
    · intro h
      refine ⟨?_, fun t ht => (hrest t ht (h.2 t ht).first).mp (h.2 t ht)⟩
      cases hfire : fire e s with
      | none => exact hoff s e hfire
      | some t => exact (hone t hfire).mp (h.2 t hfire).first
    · intro h
      exact ⟨hq, fun t ht => (hrest t ht ((hone t ht).mpr h.1)).mpr (h.2 t ht)⟩

/-- Where `keeps` says exactly which steps keep `Q`, a run keeps it throughout if and
only if each of its steps does. -/
theorem throughout_iff_along {Q : σ → Prop} {ok keeps : σ → ε → Prop}
    (htotal : ∀ s e, ∃ s', fire e s = some s')
    (hstep : ∀ s e s', ok s e → fire e s = some s' → Q s → (Q s' ↔ keeps s e))
    {es : List ε} (hq : Q s) (hok : Along fire ok es s) :
    Throughout fire Q es s ↔ Along fire keeps es s := by
  refine throughout_iff_along_inv (J := fun _ => True) ?_ (fun _ _ _ _ _ _ _ _ => trivial)
    (fun s e s' _ => hstep s e s') trivial hq hok
  intro s e hnone
  obtain ⟨t, ht⟩ := htotal s e
  exact nomatch hnone.symm.trans ht

/-! ## A ghost beside the state -/

/-- The system with a ghost that notes each event and the state it happens in. -/
def withGhost {γ : Type} (fire : ε → σ → Option σ) (note : ε → σ → γ → γ) (e : ε)
    (x : σ × γ) : Option (σ × γ) :=
  (fire e x.1).map fun s => (s, note e x.1 x.2)

theorem withGhost_eq_some {γ : Type} {note : ε → σ → γ → γ} {e : ε} {x x' : σ × γ} :
    withGhost fire note e x = some x' ↔ fire e x.1 = some x'.1 ∧ note e x.1 x.2 = x'.2 := by
  unfold withGhost
  rw [Option.map_eq_some_iff]
  constructor
  · rintro ⟨s, hs, rfl⟩
    exact ⟨hs, rfl⟩
  · rintro ⟨hs, hg⟩
    exact ⟨x'.1, hs, Prod.ext rfl hg⟩

end CeStorage.Lib
