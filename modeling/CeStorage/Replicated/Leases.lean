import CeStorage.Replicated.Steps

/-!
# What a record says of its leases

`Leases` is the expiry height last passed to a `replicate` call that a holder accepted. A
record is `Honest` if the height in it, after which rent is no longer guaranteed, is at
most that of each of its holders.

`put_object` records the height it has just passed to the holders that accepted. `maintain`
writes the height of its own pass into every record whose holders it changes, also for the
holders that were there before, whose leases it does not renew; and a lease that is taken
for one key can be shorter than the one that another key with the same bytes still counts
on. A run keeps every record honest exactly when neither happens (`honest_iff`).
-/

namespace CeStorage

open Lib

/-- The leases, by holder and CID. -/
abbrev Leases := String → String → Option Nat

/-- The holders accept a replica of `cid` until `expiryHeight`. -/
def Leases.accept (g : Leases) (holders : List String) (cid : String) (expiryHeight : Nat) :
    Leases :=
  fun h c => if h ∈ holders ∧ c = cid then some expiryHeight else g h c

/-- The leases after a wait: the holders that accept do so for what `replicate` was called
with. -/
def Leases.answered (g : Leases) (self : ReplicatedStore) (task : Task) (w : Wait) : Leases :=
  match task.replicateCall self with
  | some call => g.accept w.accepted call.cid call.expiryHeight
  | none => g

def Leases.note {P : Type} (e : NodeEvent P) (x : Node P) (g : Leases) : Leases :=
  match e with
  | .resume p w =>
    match x.handles p with
    | some (self, task) => g.answered self task w
    | none => g
  | _ => g

/-- The holder has a lease of the object at least until `height`. -/
def Leases.Until (g : Leases) (holder cid : String) (height : Nat) : Prop :=
  ∃ l, g holder cid = some l ∧ height ≤ l

def RecordEntry.Honest (g : Leases) (r : RecordEntry) : Prop :=
  ∀ h ∈ r.replicaHosts, g.Until h r.cid r.expiryHeight

def ReplicaIndex.Honest (g : Leases) (i : ReplicaIndex) : Prop :=
  ∀ b k r, i.getRecord b k = some r → r.Honest g

/-- The replica index file, and the one of every open handle. -/
structure Node.Honest {P : Type} (x : Node P × Leases) : Prop where
  file : (ReplicaIndex.loadFrom x.1.replicas).Honest x.2
  handles : ∀ p h, x.1.handles p = some h → h.1.index.Honest x.2

/-! ## The condition -/

/-- The record does not count on a later height for any of these holders. -/
def RecordEntry.Spared (holders : List String) (cid : String) (height : Nat) (r : RecordEntry) :
    Prop :=
  r.cid = cid → ∀ h ∈ r.replicaHosts, h ∈ holders → r.expiryHeight ≤ height

/-- No record counts on a later height, those at `skip` apart. -/
def ReplicaIndex.Spared (holders : List String) (cid : String) (height : Nat)
    (skip : String → String → Prop) (i : ReplicaIndex) : Prop :=
  ∀ b k r, ¬skip b k → i.getRecord b k = some r → r.Spared holders cid height

/-- The record that the answer to a wait replaces in the handle's own index. -/
def Task.Replaces (w : Wait) (task : Task) (b k : String) : Prop :=
  (∃ a, task.putting = some a ∧ a.bucket = b ∧ a.key = k) ∨
    ∃ pass a, task.object = some (pass, a) ∧ a.updated w.accepted ≠ a.record.replicaHosts ∧
      a.bucket = b ∧ a.key = k

/-- Holders that accept a replica take no lease that ends before another record of the same
object says. -/
def Node.SparesRecords {P : Type} (x : Node P) (p : P) (self : ReplicatedStore) (task : Task)
    (w : Wait) : Prop :=
  ∀ call, task.replicateCall self = some call →
    (ReplicaIndex.loadFrom x.replicas).Spared w.accepted call.cid call.expiryHeight
        (fun _ _ => False) ∧
      self.index.Spared w.accepted call.cid call.expiryHeight (task.Replaces w) ∧
      ∀ q h, q ≠ p → x.handles q = some h →
        h.1.index.Spared w.accepted call.cid call.expiryHeight fun _ _ => False

/-- When a pass changes the holders of an object, each holder that stays has a lease at least
to the height of the pass. -/
def Task.SurvivorsLast (repairPlan : RepairPlanner) (g : Leases) (task : Task) (w : Wait) : Prop :=
  ∀ pass a, task.object = some (pass, a) → task.Ends repairPlan w →
    a.updated w.accepted ≠ a.record.replicaHosts →
      ∀ h ∈ a.healthy, h ∉ w.accepted → g.Until h a.record.cid pass.expiryHeight

def Node.KeepsLeases {P : Type} (repairPlan : RepairPlanner) (x : Node P × Leases) :
    NodeEvent P → Prop
  | .resume p w => ∀ self task, x.1.handles p = some (self, task) →
      x.1.SparesRecords p self task w ∧ task.SurvivorsLast repairPlan x.2 w
  | _ => True

/-! ## Records and leases -/

variable {g : Leases} {i : ReplicaIndex} {r : RecordEntry} {holders : List String}
  {cid : String} {height : Nat} {skip : String → String → Prop}

theorem Leases.accept_nil : g.accept [] cid height = g := by
  funext h c
  exact if_neg fun hc => nomatch hc.1

theorem Leases.until_accept {h c : String} {n : Nat} :
    (g.accept holders cid height).Until h c n
      ↔ if h ∈ holders ∧ c = cid then n ≤ height else g.Until h c n := by
  unfold Until accept
  split
  · exact ⟨fun ⟨l, hl, hn⟩ => by cases hl; exact hn, fun hn => ⟨height, rfl, hn⟩⟩
  · exact Iff.rfl

theorem RecordEntry.honest_accept (h : r.Honest g) :
    r.Honest (g.accept holders cid height) ↔ r.Spared holders cid height := by
  unfold Honest Spared
  constructor
  · intro hacc hcid holder hr hin
    have := Leases.until_accept.mp (hacc holder hr)
    rwa [if_pos ⟨hin, hcid⟩] at this
  · intro hsp holder hr
    rw [Leases.until_accept]
    split
    next hc => exact hsp hc.2 holder hr hc.1
    next => exact h holder hr

/-- An honest index after some holders have accepted. -/
theorem ReplicaIndex.honest_accept (h : i.Honest g) :
    i.Honest (g.accept holders cid height) ↔ i.Spared holders cid height fun _ _ => False :=
  ⟨fun hacc b k r _ hr => (RecordEntry.honest_accept (h b k r hr)).mp (hacc b k r hr),
    fun hsp b k r hr => (RecordEntry.honest_accept (h b k r hr)).mpr (hsp b k r not_false hr)⟩

/-- The same where one record is replaced. -/
theorem ReplicaIndex.honest_replaced {j : ReplicaIndex} {bucket key : String} {r' : RecordEntry}
    (h : i.Honest g)
    (hj : ∀ b k, j.getRecord b k = if bucket = b ∧ key = k then some r' else i.getRecord b k) :
    j.Honest (g.accept holders cid height)
      ↔ r'.Honest (g.accept holders cid height) ∧
        i.Spared holders cid height fun b k => bucket = b ∧ key = k := by
  constructor
  · intro hacc
    refine ⟨hacc bucket key r' (by rw [hj, if_pos ⟨rfl, rfl⟩]), fun b k r hskip hr => ?_⟩
    exact (RecordEntry.honest_accept (h b k r hr)).mp (hacc b k r (by rw [hj, if_neg hskip, hr]))
  · rintro ⟨hnew, hsp⟩ b k r hr
    rw [hj] at hr
    split at hr
    next =>
      cases hr
      exact hnew
    next hskip => exact (RecordEntry.honest_accept (h b k r hr)).mpr (hsp b k r hskip hr)

theorem ReplicaIndex.spared_nil : i.Spared [] cid height skip :=
  fun _ _ _ _ _ _ _ _ h => nomatch h

theorem Audit.mem_updated {a : Audit} {newHosts : List String} {h : String} :
    h ∈ a.updated newHosts ↔ h ∈ a.healthy ∨ h ∈ newHosts := by
  unfold updated
  induction newHosts generalizing a with
  | nil => simp
  | cons n ns ih =>
    have hstep := ih (a := { a with
      healthy := if a.healthy.contains n then a.healthy else a.healthy ++ [n] })
    rw [List.foldl_cons, hstep, List.mem_cons]
    dsimp only
    split
    next hn =>
      have hmem := List.contains_iff_mem.mp hn
      constructor
      · rintro (hh | hh)
        · exact .inl hh
        · exact .inr (.inr hh)
      · rintro (hh | rfl | hh)
        · exact .inl hh
        · exact .inl hmem
        · exact .inr hh
    next =>
      rw [List.mem_append, List.mem_singleton, or_assoc]

/-! ## One step -/

variable {repairPlan : RepairPlanner} {self : ReplicatedStore} {task : Task} {w : Wait}

theorem Leases.answered_nil (hw : w.accepted = []) : g.answered self task w = g := by
  unfold answered
  cases task.replicateCall self with
  | none => rfl
  | some call =>
    dsimp only
    rw [hw, accept_nil]

/-- An index that the answer to a wait does not touch. -/
theorem ReplicaIndex.honest_answered (h : i.Honest g) :
    i.Honest (g.answered self task w) ↔ ∀ call, task.replicateCall self = some call →
      i.Spared w.accepted call.cid call.expiryHeight fun _ _ => False := by
  unfold Leases.answered
  cases hcall : task.replicateCall self with
  | none => exact iff_of_true h nofun
  | some call =>
    dsimp only
    rw [honest_accept h]
    exact ⟨fun hsp _ hc => by cases hc; exact hsp, fun hsp => hsp call rfl⟩

/-- The answer to a wait where one record of the handle's index is replaced. -/
theorem Leases.answered_replaced {expiryHeight : Nat} {j : ReplicaIndex} {bucket key : String}
    {r' : RecordEntry} (hi : i.Honest g)
    (hj : ∀ b k, j.getRecord b k = if bucket = b ∧ key = k then some r' else i.getRecord b k)
    (hskip : ∀ b k, skip b k ↔ bucket = b ∧ key = k)
    (hcall : w.accepted = [] ∨ ∃ call, task.replicateCall self = some call ∧ call.cid = cid ∧
      call.expiryHeight = expiryHeight) :
    j.Honest (g.answered self task w)
      ↔ r'.Honest (g.accept w.accepted cid expiryHeight) ∧
        ∀ call, task.replicateCall self = some call →
          i.Spared w.accepted call.cid call.expiryHeight skip := by
  have heq : (fun b k => bucket = b ∧ key = k) = skip := by
    funext b k
    exact propext (hskip b k).symm
  rcases hcall with hw | ⟨call, hc, rfl, rfl⟩
  · have hnil : g.accept [] cid expiryHeight = g := accept_nil
    rw [answered_nil hw, hw, ← hnil, ReplicaIndex.honest_replaced hi hj, hnil]
    exact and_congr_right fun _ =>
      iff_of_true ReplicaIndex.spared_nil fun _ _ => ReplicaIndex.spared_nil
  · unfold answered
    rw [hc]
    dsimp only
    rw [ReplicaIndex.honest_replaced hi hj, heq]
    exact and_congr_right fun _ =>
      ⟨fun hsp _ h => by cases h; exact hsp, fun hsp => hsp call rfl⟩

/-- A wait of a put replaces the record that the put binds. -/
theorem Task.replaces_of_putting {a : Putting} (hput : task.putting = some a)
    (hobject : task.object = none) (b k : String) :
    task.Replaces w b k ↔ a.bucket = b ∧ a.key = k := by
  unfold Task.Replaces
  rw [hput, hobject]
  simp

/-- A wait of a pass replaces the record of the object whose holders change. -/
theorem Task.replaces_of_object {pass : Pass} {a : Audit} (hput : task.putting = none)
    (hobject : task.object = some (pass, a)) (hne : a.updated w.accepted ≠ a.record.replicaHosts)
    (b k : String) : task.Replaces w b k ↔ a.bucket = b ∧ a.key = k := by
  unfold Task.Replaces
  rw [hput, hobject]
  simp [hne]

/-- New holders have just accepted; those that stay have what they had. -/
theorem RecordEntry.honest_updated {a : Audit} {accepted : List String} {expiryHeight : Nat} :
    RecordEntry.Honest (g.accept accepted a.record.cid expiryHeight)
        { a.record with replicaHosts := a.updated accepted, expiryHeight }
      ↔ ∀ h ∈ a.healthy, h ∉ accepted → g.Until h a.record.cid expiryHeight := by
  unfold RecordEntry.Honest
  dsimp only
  constructor
  · intro hall h hin hnot
    have haccept := Leases.until_accept.mp (hall h (Audit.mem_updated.mpr (.inl hin)))
    rwa [if_neg fun hc => hnot hc.1] at haccept
  · intro hall h hin
    rw [Leases.until_accept]
    split
    next => exact Nat.le_refl _
    next hnot =>
      have hfresh : h ∉ accepted := fun hacc => hnot ⟨hacc, rfl⟩
      exact hall h ((Audit.mem_updated.mp hin).resolve_right hfresh) hfresh

/-- What a wait makes of the handle's own index. -/
theorem resumed_honest {h : ReplicatedStore × Task} (hi : self.index.Honest g)
    (hheld : Node.Held (self, task)) (hr : Resumed repairPlan self w task h) :
    h.1.index.Honest (g.answered self task w)
      ↔ (∀ call, task.replicateCall self = some call →
          self.index.Spared w.accepted call.cid call.expiryHeight (task.Replaces w)) ∧
        task.SurvivorsLast repairPlan g w := by
  cases hr with
  | on hw _ hends _ _ _ =>
    rw [Leases.answered_nil hw, hw]
    refine iff_of_true hi ⟨fun _ _ => ReplicaIndex.spared_nil, ?_⟩
    exact fun _ _ _ h => absurd h hends
  | @bind a expiryHeight hput hcall =>
    have hobject : task.object = none := by
      cases task <;> first | rfl | exact nomatch hput
    have hnew : (a.entry w.accepted expiryHeight).Honest
        (g.accept w.accepted a.cid expiryHeight) := by
      intro holder hin
      exact Leases.until_accept.mpr (by rw [if_pos ⟨hin, rfl⟩]; exact Nat.le_refl _)
    have hindex := Leases.answered_replaced hi
      (getRecord_bindRecord self a expiryHeight w.accepted)
      (Task.replaces_of_putting (w := w) hput hobject) hcall
    refine hindex.trans ⟨fun h => ⟨h.2, ?_⟩, fun h => ⟨hnew, h.1⟩⟩
    exact fun _ _ ho => nomatch hobject.symm.trans ho
  | @back pass pass' a hobject hends hpass hcall =>
    have hput : task.putting = none := by
      cases task <;> first | rfl | exact nomatch hobject
    have hlast : task.SurvivorsLast repairPlan g w
        ↔ (a.updated w.accepted ≠ a.record.replicaHosts →
          ∀ h ∈ a.healthy, h ∉ w.accepted → g.Until h a.record.cid pass.expiryHeight) := by
      refine ⟨fun h => h pass a hobject hends, fun h pass₀ a₀ h₀ _ => ?_⟩
      cases hobject.symm.trans h₀
      exact h
    rw [hlast]
    by_cases hsame : a.updated w.accepted = a.record.replicaHosts
    · -- the holders are the ones in the record, which stays as it is
      have hskip : task.Replaces w = fun _ _ => False := by
        funext b k
        refine propext (iff_of_false ?_ not_false)
        rintro (⟨_, h, _⟩ | ⟨_, _, h, hne, _⟩)
        · exact nomatch hput.symm.trans h
        · cases hobject.symm.trans h
          exact hne hsame
      rw [writeBack_of_eq hsame, hskip, ReplicaIndex.honest_answered hi]
      exact (and_iff_left fun hne => absurd hsame hne).symm
    · have hnew : RecordEntry.Honest (g.accept w.accepted a.record.cid pass.expiryHeight)
          { a.record with
            replicaHosts := a.updated w.accepted, expiryHeight := pass'.expiryHeight }
          ↔ ∀ h ∈ a.healthy, h ∉ w.accepted → g.Until h a.record.cid pass.expiryHeight := by
        rw [hpass]
        exact RecordEntry.honest_updated
      have hindex := Leases.answered_replaced hi
        (getRecord_writeBack pass' (hheld pass a hobject) hsame)
        (Task.replaces_of_object hput hobject hsame) hcall
      rw [hindex, hnew]
      exact ⟨fun h => ⟨h.2, fun _ => h.1⟩, fun h => ⟨h.2 hsame, h.1⟩⟩

/-! ## Runs -/

section
variable {P : Type} [DecidableEq P] {ce : CeRs} {x x' : Node P} {g' : Leases}

/-- What one event does to the records' honesty. -/
theorem fire_honest {e : NodeEvent P} (hheld : ∀ p h, x.handles p = some h → Node.Held h)
    (hx : Node.Honest (x, g)) (hf : Node.fire ce repairPlan e x = some x') :
    Node.Honest (x', Leases.note e x g) ↔ Node.KeepsLeases repairPlan (x, g) e := by
  have others : ∀ p q h, q ≠ p → x.handles q = some h → h.1.index.Honest g :=
    fun _ q h _ hq => hx.handles q h hq
  have own : ∀ {p : P} {self : ReplicatedStore} {task : Task}, x.handles p = some (self, task) →
      self.index.Honest g := fun hp => hx.handles _ _ hp
  -- a handle moves on, its records as honest as before
  have moved : ∀ (p : P) (h : ReplicatedStore × Task) (y : Node P), h.1.index.Honest g →
      y.handles = x.handles → y.replicas = x.replicas → Node.Honest (y.goto p h, g) := by
    intro p h y hh hhandles hreplicas
    refine ⟨?_, Node.forall_goto.mpr ⟨hh, ?_⟩⟩
    · rw [Node.replicas_goto, hreplicas]
      exact hx.file
    · rw [hhandles]
      exact others p
  -- and writes them over the file, or not
  have written : ∀ (y : Node P) (i : ReplicaIndex) (saved : Bool), i.Honest g →
      Node.Honest (y, g) → Node.Honest (y.write i saved, g) := by
    intro y i saved hi hy
    refine ⟨?_, fun p h hp => hy.handles p h (by rwa [Node.handles_write] at hp)⟩
    unfold Node.write
    split
    · exact hi
    · exact hy.file
  cases Node.fire_step hf with
  | core => exact iff_of_true ⟨hx.file, hx.handles⟩ trivial
  | «open» hp hs =>
    refine iff_of_true (moved _ _ x ?_ rfl rfl) trivial
    rw [Node.index_openAt hs]
    exact hx.file
  | close p =>
    refine iff_of_true ⟨hx.file, fun q h hq => ?_⟩ trivial
    rcases update_eq_some.mp hq with ⟨_, hh⟩ | ⟨_, hh⟩
    · exact nomatch hh
    · exact hx.handles q h hh
  | makeBucket hp | put hp | maintain hp =>
    have hown := own hp
    exact iff_of_true (moved _ _ _ hown rfl rfl) trivial
  | makeBucketPolicy hp | setPolicy hp | savePut hp | saveMaintain hp =>
    have hown := own hp
    exact iff_of_true (written _ _ _ hown (moved _ _ _ hown rfl rfl)) trivial
  | @resume p w self task h hp hr =>
    have hown := resumed_honest (hx.handles p _ hp) (hheld p _ hp) hr
    have hnote : Leases.note (.resume p w) x g = g.answered self task w := by
      unfold Leases.note
      dsimp only
      rw [hp]
    have hkeeps : Node.KeepsLeases repairPlan (x, g) (.resume p w)
        ↔ x.SparesRecords p self task w ∧ task.SurvivorsLast repairPlan g w := by
      refine ⟨fun h => h self task hp, fun h self' task' hp' => ?_⟩
      cases hp.symm.trans hp'
      exact h
    rw [hnote, hkeeps]
    constructor
    · intro hall
      have hgoto := Node.forall_goto.mp hall.handles
      have hmine := hown.mp hgoto.1
      refine ⟨fun call hcall => ⟨?_, hmine.1 call hcall, fun q h' hq hh => ?_⟩, hmine.2⟩
      · exact (ReplicaIndex.honest_answered hx.file).mp hall.file call hcall
      · exact (ReplicaIndex.honest_answered (hx.handles q h' hh)).mp (hgoto.2 q h' hq hh) call hcall
    · rintro ⟨hsp, hlast⟩
      refine ⟨?_, Node.forall_goto.mpr
        ⟨hown.mpr ⟨fun call hcall => (hsp call hcall).2.1, hlast⟩, ?_⟩⟩
      · exact (ReplicaIndex.honest_answered hx.file).mpr fun call hcall => (hsp call hcall).1
      · intro q h' hq hh
        exact (ReplicaIndex.honest_answered (hx.handles q h' hh)).mpr
          fun call hcall => (hsp call hcall).2.2 q h' hq hh

/-- An event that cannot happen breaks nothing. -/
theorem keepsLeases_of_none {e : NodeEvent P} (hf : Node.fire ce repairPlan e x = none) :
    Node.KeepsLeases repairPlan (x, g) e := by
  cases e with
  | resume p w =>
    intro self task hp
    have hnone : self.resume repairPlan w task = none := by
      simp only [Node.fire] at hf
      rw [hp] at hf
      exact Option.map_eq_none_iff.mp hf
    obtain ⟨hcall, hends⟩ := not_ends_of_none hnone
    refine ⟨fun call hc => ?_, fun _ _ _ h => absurd h hends⟩
    rcases hcall with hw | hno
    · rw [hw]
      exact ⟨ReplicaIndex.spared_nil, ReplicaIndex.spared_nil,
        fun _ _ _ _ => ReplicaIndex.spared_nil⟩
    · cases hno.symm.trans hc
  | _ => trivial

omit [DecidableEq P] in
theorem start_honest (w : World) (g : Leases) : Node.Honest ((Node.start w : Node P), g) where
  file _ _ _ h := nomatch ReplicaIndex.getRecord_empty.symm.trans h
  handles _ _ h := nomatch h

/-- **Honest leases.** From a node without a replica index, whatever the tips of the chain, the
audits, the placements and the interleaving of the handles: every record of every replica
index, on file and in memory, is honest in every state of the run, if and only if no step of
it takes a lease shorter than another record says, or bumps a record over the lease of a
holder that stays. -/
theorem honest_iff (ce : CeRs) (repairPlan : RepairPlanner) (w : World) (es : List (NodeEvent P)) :
    Throughout (withGhost (Node.fire ce repairPlan) Leases.note) Node.Honest es
        (Node.start w, fun _ _ => none)
      ↔ Along (withGhost (Node.fire ce repairPlan) Leases.note) (Node.KeepsLeases repairPlan) es
        (Node.start w, fun _ _ => none) := by
  have hok : Along (withGhost (Node.fire ce repairPlan) Leases.note) (fun _ _ => True) es
      (Node.start w, fun _ _ => none) := along_of_forall _ _ fun _ _ _ => trivial
  refine throughout_iff_along_inv
    (J := fun x => ∀ p h, x.1.handles p = some h → Node.Held h) ?_ ?_ ?_
    (fun _ _ h => nomatch h) (start_honest w _) hok
  · intro x e hnone
    exact keepsLeases_of_none (Option.map_eq_none_iff.mp hnone)
  · intro x e x' hheld _ hf _ _
    exact Node.fire_held hheld (withGhost_eq_some.mp hf).1
  · intro x e x' hheld _ hf hx
    obtain ⟨hfire, hnote⟩ := withGhost_eq_some.mp hf
    rw [← Prod.eta x', ← hnote]
    exact fire_honest hheld hx hfire

end

/-! A put is accepted by two holders until height 110. At height 200 one of them fails its
audit and no other is found: the record of the one that is left says 210. -/

private def shortfall : RepairPlanner := fun replicas healthy factor =>
  { toPlace := factor - healthy.length, exclude := replicas.map (·.holder) }

private def overstating : List (NodeEvent Unit) :=
  let env := Env.calm CeRs.plain 1 "u"
  [.open () ⟨"caps", 2, "0", 10, 100, 7⟩ env true, .makeBucket () "photos" none env true,
    .put () "photos" "cat" [1] "" none env, .resume () (.tip (some 100)),
    .resume () (.candidates (.ok ["h1", "h2"])), .resume () (.replicate (.ok ["h1", "h2"])),
    .save () true, .maintain (), .resume () (.tip (some 200)), .resume () .next,
    .resume () (.audit (.ok true)), .resume () (.audit (.ok false)), .resume () .next,
    .resume () (.candidates (.error "timeout")), .resume () .next, .save () true]

private def unreplicated : Node Unit × Leases := (Node.start World.blank, fun _ _ => none)

private def overstated : Node Unit × Leases :=
  (play (withGhost (Node.fire CeRs.plain shortfall) Leases.note) overstating unreplicated).getD
    unreplicated

private theorem overstated_record :
    ((ReplicaIndex.loadFrom overstated.1.replicas).getRecord "photos" "cat").map
      (fun r => (r.replicaHosts, r.expiryHeight, overstated.2 "h1" r.cid))
        = some (["h1"], 210, some 110) := by decide +kernel

theorem survivor_overstated : ¬∀ x : Node Unit × Leases,
    Reach (withGhost (Node.fire CeRs.plain shortfall) Leases.note) (fun _ _ => True)
      unreplicated x → Node.Honest x := by
  intro h
  have hreach : Reach (withGhost (Node.fire CeRs.plain shortfall) Leases.note) (fun _ _ => True)
      unreplicated overstated :=
    reach_play_getD (fun _ _ => trivial) (by decide +kernel : (play _ overstating _).isSome = true)
  obtain ⟨r, hr, heq⟩ := Option.map_eq_some_iff.mp overstated_record
  simp only [Prod.mk.injEq] at heq
  obtain ⟨hhosts, hexpiry, hlease⟩ := heq
  -- the record says 210, and the lease of its holder ends at 110
  obtain ⟨l, hl, hle⟩ := (h overstated hreach).file "photos" "cat" r hr "h1" (by rw [hhosts]; simp)
  rw [hlease] at hl
  cases hl
  omega

end CeStorage
