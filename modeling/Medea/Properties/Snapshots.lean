import Medea.ControlPlane.PassLog

/-!
# Snapshots before upgrades

A visit takes a snapshot of a control-plane member before it upgrades it if the strategy of the pool
asks for one. No task writes a pool with such a strategy: seeding and bootstrapping create pools
without it, and the requests that rewrite a pool keep what they read. So no pass over a pool ever
takes a snapshot, and `upgrade_without_snapshot` says so for every upgrade call of every run.
-/

set_option autoImplicit false
set_option maxRecDepth 100000

namespace Medea

open Medea.Interaction

/-- The member an upgrade call of the executor is for. -/
def Lbl.upgradedMember : Lbl → Option String
  | .act .rollouts ⟨.talos _ (.upgradeOS addr _), _⟩ => some addr
  | _ => none

theorem Lbl.upgradedMember_eq {i : Who} {e : Ev} {addr : String}
    (h : Lbl.upgradedMember (.act i e) = some addr) :
    i = .rollouts ∧ ∃ client image, e.op = .talos client (.upgradeOS addr image) := by
  unfold Lbl.upgradedMember at h
  split at h
  next client addr' image rep heq =>
    cases heq
    cases h
    exact ⟨rfl, client, image, rfl⟩
  next => cases h

namespace Snapshots

/-- What is known of the pool of a pass: it was read in this pass, does not ask for snapshots, and
none has been taken. -/
structure Unprotected (log : PassLog) (cluster : String) (np : NodePool) : Prop where
  pool : log.pool = some (cluster, np)
  strategy : np.snapshotBeforeControlPlane = false
  none : log.snapshots = []

/-- What is known at the places of a pass. -/
def PassOk (log : PassLog) (f : JobFrame) : PoolPos → Prop
  | .cluster np => Unprotected log f.cl.name np
  | .nodes np _ => Unprotected log f.cl.name np
  | .member view _ _ _ stage => Unprotected log view.cluster view.np ∧ stage.taking = false
  | _ => True

variable {log : PassLog} {f : JobFrame} {view : PoolView} {r : RolloutReconciler}

/-- Without the strategy a visit does not come to the stages of a snapshot. -/
theorem taking_next {addr : String} {stage stage' : Stage} {e : Ev}
    (hs : view.np.snapshotBeforeControlPlane = false) (h : stage.taking = false)
    (hmove : RolloutReconciler.StageMove r view addr stage e (.at stage')) :
    stage'.taking = false := by
  cases hmove with
  | snapshotFirst _ _ hsnap => simp [RolloutReconciler.snapshots, hs] at hsnap
  | dirMade | opened | streamed => cases h
  | _ => rfl

/-- Outside those stages a visit leaves the log of snapshots empty. -/
theorem unprotected_see {addr : String} {stage : Stage} {e : Ev}
    (h : Unprotected log view.cluster view.np) (ht : stage.taking = false)
    (hop : r.stageIssues view addr stage = e.op) :
    Unprotected (log.see (.act .rollouts e)) view.cluster view.np := by
  refine ⟨(PassLog.see_at_stage hop).pool.trans h.pool, h.strategy, ?_⟩
  obtain ⟨op, rep⟩ := e
  have hnone := h.none
  cases stage with
  | snapshot => cases ht
  | check | report =>
    cases hop
    cases rep <;> exact hnone
  | upgrade image =>
    cases hop
    show log.snapshots.filter _ = []
    rw [hnone]
    rfl
  | _ =>
    cases hop
    exact hnone

/-- A step of a pass. The pool comes from the store, where no pool asks for snapshots. -/
theorem poolNext_ok {pos : PoolPos} {e : Ev} (h : PassOk log f pos) (hread : Discipline.own.reads e)
    (hop : r.poolIssues f.cl.name f.job.pool pos = some e.op) :
    PassOk (log.see (.act .rollouts e)) f (r.poolNext f.cl.name f.job.pool pos e) := by
  have hmove := RolloutReconciler.poolNext_moves hop
  generalize r.poolNext f.cl.name f.job.pool pos e = pos' at hmove
  cases hmove with
  | pinned | unpinned =>
    have hpool : Discipline.own.PoolOk _ := hread.2
    exact ⟨rfl, (hpool.bare trivial).1, rfl⟩
  | targeted => exact ⟨h.pool, h.strategy, h.none⟩
  | entered => exact ⟨h, rfl⟩
  | inVisit hstep =>
    exact ⟨unprotected_see h.1 h.2 (Option.some.inj hop), taking_next h.1.strategy h.2 hstep⟩
  | nextVisit => exact ⟨unprotected_see h.1 h.2 (Option.some.inj hop), rfl⟩
  | _ => trivial

/-- The upgrade call is for a member of the pool the pass has read, which does not ask for
snapshots, and no snapshot of it was taken in the pass. -/
def Bare (past : List Lbl) (l : Lbl) : Prop :=
  ∀ addr, l.upgradedMember = some addr → ∃ cluster np, (passLog past).pool = some (cluster, np) ∧
    addr ∈ np.members ∧ np.snapshotBeforeControlPlane = false ∧ addr ∉ (passLog past).snapshots

theorem bare_invariant (cfg : Settings) :
    RunInvariant cfg .own (fun _ _ => True) Bare
      (fun _ m ls => m.pos.InPool (PassOk (passLog ls))) where
  initial := trivial
  start {w m ls i t} _ h _ := by
    refine ⟨nofun, ?_⟩
    rw [passLog_snoc]
    show (if i = Who.rollouts then ExecPos.clusters else m.pos).InPool _
    split
    · trivial
    · exact h
  crash _ _ := ⟨nofun, trivial⟩
  exec {w m ls e w'} h hstore ht _ hop hw := by
    have hcoh := ht.coherent
    refine ⟨fun addr hu => ?_, ?_⟩
    · obtain ⟨_, client, image, hupgrade⟩ := Lbl.upgradedMember_eq hu
      rw [hupgrade] at hop
      obtain ⟨f, view, visited, todo, stage, -, hpos, -⟩ := RolloutExecutor.visit_of_issues hop rfl
      rw [hpos] at h hcoh
      obtain ⟨hun, _⟩ : Unprotected (passLog ls) view.cluster view.np ∧ stage.taking = false := h
      obtain ⟨_, _, _, hm⟩ := hcoh
      have hmem : addr ∈ view.members := by simp [hm]
      refine ⟨view.cluster, view.np, hun.pool, PoolView.mem_members.1 hmem, hun.strategy, ?_⟩
      rw [hun.none]
      exact List.not_mem_nil
    · rw [passLog_snoc]
      refine RolloutExecutor.next_inPool hop (fun _ => trivial) fun f pos hpos hissues => ?_
      rw [hpos] at h
      exact poolNext_ok h (hstore.handles_reads hw) hissues
  other {w m ls i t e w'} hi h _ _ _ _ _ _ := by
    rw [passLog_snoc, PassLog.see_other hi]
    exact ⟨fun addr hu => absurd (Lbl.upgradedMember_eq hu).1 hi, h⟩

end Snapshots

/-- In every run, every upgrade call of the executor is for a member of the pool that its pass has
read, the strategy of that pool does not ask for snapshots, whatever its role, and in that pass no
snapshot of the member has succeeded since the member was last upgraded. -/
theorem upgrade_without_snapshot {cfg : Settings} {ls : List Lbl} {c : State} {n : Nat}
    {addr : String} (h : Reaches cfg ls c) (hu : ls[n]?.bind Lbl.upgradedMember = some addr) :
    ∃ cluster np, (passLog (ls.take n)).pool = some (cluster, np) ∧ addr ∈ np.members ∧
      np.snapshotBeforeControlPlane = false ∧ addr ∉ (passLog (ls.take n)).snapshots := by
  obtain ⟨l, hn, hl⟩ := Option.bind_eq_some_iff.1 hu
  have hassumed : Throughout (fun _ _ => True) ls := fun _ _ _ => trivial
  exact ((Snapshots.bare_invariant cfg).along h hassumed).1 n l hn addr hl

theorem node_in_time_without_snapshot : ∃ cluster np,
    (passLog ((runScript Script.settings Script.nodeInTime State.initial).1.take 34)).pool =
      some (cluster, np) ∧
    "10.0.0.1" ∈ np.members ∧ np.snapshotBeforeControlPlane = false ∧
    "10.0.0.1" ∉
      (passLog ((runScript Script.settings Script.nodeInTime State.initial).1.take 34)).snapshots :=
  upgrade_without_snapshot (reaches_script Script.settings Script.nodeInTime) (by decide +kernel)

/-- A control-plane node seeded from the live cluster is upgraded without a snapshot. -/
theorem control_plane_upgraded_bare : ∃ ls c n addr cluster np, Reaches Script.settings ls c ∧
    ls[n]?.bind Lbl.upgradedMember = some addr ∧
    (passLog (ls.take n)).pool = some (cluster, np) ∧ np.role = .controlplane ∧
    addr ∈ np.members ∧ addr ∉ (passLog (ls.take n)).snapshots := by
  refine ⟨_, _, 34, "10.0.0.1", _, _, reaches_script Script.settings Script.nodeInTime,
    ?_, rfl, ?_, ?_, ?_⟩
  · decide +kernel
  · decide +kernel
  · decide +kernel
  · decide +kernel

end Medea
