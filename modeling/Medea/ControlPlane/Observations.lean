import Medea.ControlPlane.Supervision
import Medea.Rollout.Members

/-!
# What a run shows

The events that statements about runs talk about: the calls a pass over a pool makes for a node, and
the machine rollout records that are written. A node is identified by the key of its record, that is
by its cluster and its address.

`recordState_moves` relates the records in the store to the writes seen in the run.
-/

set_option autoImplicit false

namespace Medea

open Medea.Interaction

/-- The clients belong to a pass over a pool. -/
def Client.ofPool (c : Client) : Bool :=
  match c.work with
  | .rollout job => job.kind == .talos
  | _ => false

/-- The node a client addresses. -/
def Client.node (c : Client) (addr : String) : String := ckey c.cluster addr

namespace Lbl

/-- The machine rollout record written: its key and its state. -/
def recorded : Lbl → Option (String × RolloutState)
  | .act _ ⟨.store (.putMachineRollout r), .ok _⟩ => some (ckey r.cluster r.addr, r.state)
  | _ => none

/-- A machine rollout record could not be written. -/
def recordFails : Lbl → Bool
  | .act _ ⟨.store (.putMachineRollout _), .error _⟩ => true
  | _ => false

/-- A cluster was deleted. -/
def deletesCluster : Lbl → Bool
  | .act _ ⟨.store (.deleteCluster _), .ok _⟩ => true
  | _ => false

/-- The node for which a record of a finished upgrade is written, done or failed. -/
def settles (l : Lbl) : Option String :=
  match l.recorded with
  | some (k, .done) => some k
  | some (k, .failed) => some k
  | _ => none

/-- The node that a pass over a pool upgrades. -/
def upgrades : Lbl → Option String
  | .act .rollouts ⟨.talos client (.upgradeOS addr _), _⟩ =>
    if client.ofPool then some (client.node addr) else none
  | _ => none

/-- The node for which a pass over a pool takes a snapshot, drains or upgrades. -/
def disrupts : Lbl → Option String
  | .act .rollouts ⟨.talos client (.upgradeOS addr _), _⟩ =>
    if client.ofPool then some (client.node addr) else none
  | .act .rollouts ⟨.talos client (.etcdSnapshot addr _), _⟩ =>
    if client.ofPool then some (client.node addr) else none
  | .act .rollouts ⟨.kube client member (.drain _ _), _⟩ =>
    if client.ofPool then some (client.node member) else none
  | _ => none

/-! Calls for nodes are those of the executor, and only the executor keeps machine records. -/

theorem disrupts_other {i : Who} {e : Ev} (hi : i ≠ .rollouts) : disrupts (.act i e) = none := by
  cases i <;> first | rfl | exact absurd rfl hi

theorem upgrades_other {i : Who} {e : Ev} (hi : i ≠ .rollouts) : upgrades (.act i e) = none := by
  cases i <;> first | rfl | exact absurd rfl hi

theorem recorded_other {D : Discipline} {i : Who} {t : Task} {e : Ev} (hal : D.Allows t e.op) :
    recorded (.act i e) = none := by
  obtain ⟨op, rep⟩ := e
  cases op with
  | store op =>
    cases op with
    | putMachineRollout r => exact absurd hal.writes id
    | _ => rfl
  | _ => rfl

end Lbl

/-! ## Where the calls come from -/

namespace Stage

/-- The state of the record written at a stage. -/
def marks : Stage → Option RolloutState
  | .markDraining => some .draining
  | .markUpgrading => some .upgrading
  | .markWaiting => some .waitingHealthy
  | .markDone => some .done
  | .markFailed _ => some .failed
  | _ => none

/-- The recorded state of the member after a stage whose write succeeded. -/
def stateAfter (stage : Stage) (state : Option RolloutState) : Option RolloutState :=
  match stage.marks with
  | some s => some s
  | none => state

/-- The stages that issue the upgrade call. -/
def upgrades : Stage → Bool
  | .upgrade _ => true
  | _ => false

/-- The stages that issue a call which disrupts the node. -/
def disrupts : Stage → Bool
  | .snapshot | .drain | .upgrade _ => true
  | _ => false

end Stage

namespace RolloutExecutor

variable {e : RolloutExecutor}

/-- The clients of a Talos job are those of a pass over a pool. -/
theorem reconcilerOf_ofPool {f : JobFrame} (hk : f.job.kind = .talos) :
    (e.reconcilerOf f).client.ofPool = true := by
  show (f.job.kind == .talos) = true
  rw [hk]
  rfl

/-- The node of a member is the one of the record that the pass keeps for it. -/
theorem reconcilerOf_node {f : JobFrame} {view : PoolView} (hv : view.Coherent f) (addr : String) :
    (e.reconcilerOf f).client.node addr = ckey view.cluster addr := by
  rw [hv.cluster]
  rfl

/-- Outside the visits nothing is disrupted and no machine record is written. -/
theorem quiet_outside {pos : ExecPos} {ev : Ev} (hcoh : pos.Coherent)
    (hop : e.issues pos = some ev.op)
    (hout : ∀ f view visited addr todo stage, pos ≠ .pool f (.member view visited addr todo stage)) :
    Lbl.disrupts (.act .rollouts ev) = none ∧ Lbl.upgrades (.act .rollouts ev) = none ∧
      Lbl.recorded (.act .rollouts ev) = none := by
  obtain ⟨op, rep⟩ := ev
  cases pos with
  | pool f pos =>
    cases pos with
    | member view visited addr todo stage => exact absurd rfl (hout f view visited addr todo stage)
    | _ =>
      cases hop
      exact ⟨rfl, rfl, rfl⟩
  | k8s f pos =>
    -- the snapshot of a Kubernetes job goes through clients of another kind
    have hkind : (e.reconcilerOf f).client.ofPool = false := by
      show (f.job.kind == .talos) = false
      rw [hcoh.2]
      rfl
    cases pos with
    | snapshot cpIP src =>
      cases hop
      exact ⟨if_neg (by rw [hkind]; exact Bool.false_ne_true), rfl, rfl⟩
    | _ =>
      cases hop
      exact ⟨rfl, rfl, rfl⟩
  | _ => cases hop <;> exact ⟨rfl, rfl, rfl⟩

section Visit

variable {f : JobFrame} {view : PoolView} {visited todo : List String} {addr : String}
  {stage : Stage} {ev : Ev}
  (hcoh : (ExecPos.pool f (.member view visited addr todo stage)).Coherent)
  (hop : e.issues (.pool f (.member view visited addr todo stage)) = some ev.op)

include hcoh hop

/-- What a stage disrupts and what it upgrades is the member. -/
theorem downs_at_stage :
    (Lbl.disrupts (.act .rollouts ev) =
      if stage.disrupts then some (ckey view.cluster addr) else none) ∧
    Lbl.upgrades (.act .rollouts ev) =
      if stage.upgrades then some (ckey view.cluster addr) else none := by
  obtain ⟨hact, hkind, hview, _⟩ := hcoh
  have hpool := reconcilerOf_ofPool (e := e) hkind
  have hnode := reconcilerOf_node (e := e) hview addr
  obtain ⟨op, rep⟩ := ev
  constructor <;> cases stage <;> cases hop <;>
    first | rfl | exact (if_pos hpool).trans (congrArg some hnode)

omit hcoh in
/-- A record write that succeeds is one of the member. -/
theorem recorded_at_stage (hok : Lbl.recordFails (.act .rollouts ev) = false) :
    Lbl.recorded (.act .rollouts ev) = stage.marks.map fun s => (ckey view.cluster addr, s) := by
  obtain ⟨op, rep⟩ := ev
  cases stage <;> cases hop <;> first | rfl | (cases rep with
    | error err => cases hok
    | ok v => rfl)

end Visit

/-- A step that is not part of a visit of the node. -/
structure Elsewhere (e : RolloutExecutor) (k : String) (pos : ExecPos) (ev : Ev) : Prop where
  visit : ∀ f view visited addr todo stage, pos = .pool f (.member view visited addr todo stage) →
    ckey view.cluster addr ≠ k
  disrupts : Lbl.disrupts (.act .rollouts ev) ≠ some k
  upgrades : Lbl.upgrades (.act .rollouts ev) ≠ some k
  recorded : ∀ s, Lbl.recorded (.act .rollouts ev) ≠ some (k, s)

/-- Where no visit of the node was going on, one begins at the record. -/
theorem Elsewhere.next_atMember {k : String} {pos : ExecPos} {ev : Ev} (h : e.Elsewhere k pos ev)
    (hop : e.issues pos = some ev.op) {P : PoolView → String → Stage → Prop}
    (hrecord : ∀ view addr, P view addr .record) :
    (e.next pos ev).AtMember fun view addr stage => ckey view.cluster addr = k → P view addr stage :=
  RolloutExecutor.next_atMember hop (fun view addr _ => hrecord view addr)
    fun f view visited addr todo stage _ hpos _ hk => absurd hk (h.visit f view visited addr todo stage hpos)

theorem visit_or_elsewhere {pos : ExecPos} {ev : Ev} (k : String) (hcoh : pos.Coherent)
    (hop : e.issues pos = some ev.op) (hok : Lbl.recordFails (.act .rollouts ev) = false) :
    (∃ f view visited addr todo stage, pos = .pool f (.member view visited addr todo stage) ∧
      ckey view.cluster addr = k) ∨ e.Elsewhere k pos ev := by
  by_cases hmem : ∃ f view visited addr todo stage, pos = .pool f (.member view visited addr todo stage)
  · obtain ⟨f, view, visited, addr, todo, stage, rfl⟩ := hmem
    by_cases hk : ckey view.cluster addr = k
    · exact Or.inl ⟨f, view, visited, addr, todo, stage, rfl, hk⟩
    · -- a visit of another node
      right
      constructor
      · rintro _ _ _ _ _ _ ⟨⟩
        exact hk
      · rw [(downs_at_stage hcoh hop).1]
        split <;> simp [hk]
      · rw [(downs_at_stage hcoh hop).2]
        split <;> simp [hk]
      · intro s hs
        rw [recorded_at_stage hop hok] at hs
        obtain ⟨s', -, he⟩ := Option.map_eq_some_iff.1 hs
        exact hk (congrArg Prod.fst he)
  · have hout : ∀ f view visited addr todo stage,
        pos ≠ .pool f (.member view visited addr todo stage) :=
      fun f view visited addr todo stage hpos => hmem ⟨f, view, visited, addr, todo, stage, hpos⟩
    obtain ⟨hdis, hup, hrec⟩ := quiet_outside hcoh hop hout
    right
    constructor
    · exact fun f view visited addr todo stage hpos => absurd hpos (hout f view visited addr todo stage)
    · simp [hdis]
    · simp [hup]
    · simp [hrec]

end RolloutExecutor

/-! ## Records and their writes -/

variable {w w' : World} {cfg : Settings}

/-- What a call on the store does to the file: it commits what it writes, or leaves the file alone, and
then a write has failed. -/
theorem World.handles_db {op : StoreOp} {rep : Except StoreError op.Value}
    (hw : w.handles ⟨.store op, rep⟩ w') :
    (w'.store.db = w.store.db ∧ (op.writes = true → ∃ e, rep = .error e)) ∨
      ∃ db v, op.committed w.store = some db ∧ rep = .ok v ∧
        w'.store.db = { db with revision := w.store.db.revision + 1 } := by
  rcases hw with ⟨rfl, rfl⟩ | ⟨-, ⟨msg, rfl⟩, rfl⟩
  · exact StoreOp.exec_db w.store op
  · exact Or.inl ⟨rfl, fun _ => ⟨_, rfl⟩⟩

/-- The recorded state of a node. -/
def Store.recordState (s : Store) (k : String) : Option RolloutState :=
  s.db.machineRollouts[k]?.map (·.state)

theorem Store.recordState_put {s s' : Store} {r : MachineRollout} {db : DB} {rev : Nat}
    (hc : (StoreOp.putMachineRollout r).committed s = some db)
    (hdb : s'.db = { db with revision := rev }) (k : String) :
    s'.recordState k = if ckey r.cluster r.addr = k then some r.state else s.recordState k := by
  cases hc
  rw [recordState, hdb]
  show ((s.db.machineRollouts.insert _ _)[k]?).map _ = _
  rw [Bucket.get_insert]
  split <;> rfl

/-- What a call does to the recorded states: a committed record write sets one of them, a deleted
cluster may lose some, and nothing else touches them. -/
theorem recordState_call (i : Who) {e : Ev} (hw : w.handles e w') (k : String) :
    (w'.store.recordState k =
      match Lbl.recorded (.act i e) with
      | some (k', state) => if k' = k then some state else w.store.recordState k
      | none => w.store.recordState k) ∨
      Lbl.deletesCluster (.act i e) = true ∧ w'.store.recordState k = none := by
  obtain ⟨op, rep⟩ := e
  cases op with
  | store op =>
    rcases World.handles_db hw with ⟨hdb, herr⟩ | ⟨db, v, hc, rfl, hdb⟩
    · left
      rw [Store.recordState, hdb]
      cases op with
      | putMachineRollout r =>
        obtain ⟨e, rfl⟩ := herr rfl
        rfl
      | _ => rfl
    cases op with
    | putMachineRollout r => exact Or.inl (Store.recordState_put hc hdb k)
    | deleteCluster c =>
      cases hc
      rw [Store.recordState, hdb]
      show ((Store.deleteByClusterPrefix _ c)[k]?).map _ = _ ∨
        _ ∧ ((Store.deleteByClusterPrefix _ c)[k]?).map _ = none
      rw [Bucket.get_deleteByClusterPrefix]
      split
      · exact Or.inr ⟨rfl, rfl⟩
      · exact Or.inl rfl
    | _ => cases hc <;> exact Or.inl (by rw [Store.recordState, hdb]; rfl)
  | _ =>
    cases hw
    exact Or.inl rfl

/-- The store answers a read of the record with what it holds. -/
theorem read_record {cluster addr : String} {rep : Except StoreError (Option MachineRollout)}
    (hw : w.handles (ev (.store (.getMachineRollout cluster addr)) rep) w') :
    readState rep = w.store.recordState (ckey cluster addr) := by
  rcases hw with ⟨hrep, _⟩ | ⟨hwr, _⟩
  · rw [hrep]
    rfl
  · cases hwr

/-- Unless a cluster is deleted, the recorded states change as the writes of the run say. -/
theorem recordState_moves {l : Lbl} (hm : Supervision.Moves (controlPlane cfg) w l w')
    (hd : l.deletesCluster = false) (k : String) :
    w'.store.recordState k =
      match l.recorded with
      | some (k', state) => if k' = k then some state else w.store.recordState k
      | none => w.store.recordState k := by
  cases l with
  | start i t =>
    obtain ⟨_, rfl⟩ := hm
    rfl
  | crash =>
    cases hm
    rfl
  | act i e =>
    exact (recordState_call i hm k).resolve_right fun h => Bool.false_ne_true (hd.symm.trans h.1)

/-- A step that writes no record of a node leaves its recorded state alone. -/
theorem recordState_of_quiet {l : Lbl} {k : String} (hm : Supervision.Moves (controlPlane cfg) w l w')
    (hd : l.deletesCluster = false) (hr : ∀ s, l.recorded ≠ some (k, s)) :
    w'.store.recordState k = w.store.recordState k := by
  rw [recordState_moves hm hd k]
  cases hl : l.recorded with
  | none => rfl
  | some p =>
    obtain ⟨k', s⟩ := p
    exact if_neg fun he => hr s (by rw [hl, he])

/-- A recorded state was written by the step or was there before. -/
theorem recordState_origin {l : Lbl} {k : String} {s : RolloutState}
    (hm : Supervision.Moves (controlPlane cfg) w l w') (hs : w'.store.recordState k = some s) :
    l.recorded = some (k, s) ∨ w.store.recordState k = some s := by
  have hmoves : w'.store.recordState k =
      match l.recorded with
      | some (k', state) => if k' = k then some state else w.store.recordState k
      | none => w.store.recordState k := by
    cases l with
    | act i e =>
      refine (recordState_call i hm k).resolve_right fun h => ?_
      rw [h.2] at hs
      cases hs
    | _ => exact recordState_moves hm rfl k
  rw [hmoves] at hs
  split at hs
  next k' state hl =>
    split at hs
    next hk => exact Or.inl (by rw [hl, hk, Option.some.inj hs])
    next => exact Or.inr hs
  next => exact Or.inr hs

/-- The executor deletes no cluster. -/
theorem RolloutExecutor.not_deletesCluster {e : RolloutExecutor} {pos : ExecPos} {ev : Ev}
    (hop : e.issues pos = some ev.op) : Lbl.deletesCluster (.act .rollouts ev) = false := by
  obtain ⟨op, rep⟩ := ev
  cases op with
  | store op =>
    have hof := RolloutExecutor.issues_ofRollouts hop
    cases op <;> first | rfl | cases hof
  | _ => rfl

/-- What a visit does to the recorded states. -/
theorem RolloutExecutor.recordState_at_stage {f : JobFrame} {view : PoolView}
    {visited todo : List String} {addr : String} {stage : Stage} {ev : Ev}
    (hop : cfg.rollouts.issues (.pool f (.member view visited addr todo stage)) = some ev.op)
    (hw : w.handles ev w') (hok : Lbl.recordFails (.act .rollouts ev) = false) (k : String) :
    w'.store.recordState k =
      if ckey view.cluster addr = k then stage.stateAfter (w.store.recordState k)
      else w.store.recordState k := by
  have hmoves : Supervision.Moves (controlPlane cfg) w (.act .rollouts ev) w' := hw
  rw [recordState_moves hmoves (not_deletesCluster hop) k, recorded_at_stage hop hok,
    Stage.stateAfter]
  cases stage.marks with
  | none => exact (ite_self _).symm
  | some s => rfl

end Medea
