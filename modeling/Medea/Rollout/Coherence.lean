import Medea.Rollout.Transitions

/-!
# Coherent places

What every place the executor can reach says about the data it carries: the cluster in hand was
listed as enabled, the job in hand was listed as actionable, a pool pass runs for a Talos job, was
not paused when it started, has a target, and walks the members in order.
-/

set_option autoImplicit false

namespace Medea

open Medea.Interaction

/-- The job in hand may run. -/
structure JobFrame.Active (f : JobFrame) : Prop where
  enabled : f.cl.rolloutsEnabled = true
  actionable : Medea.actionable f.job.state = true

/-- The data of a pass that visits members. -/
structure PoolView.Coherent (view : PoolView) (f : JobFrame) : Prop where
  cluster : view.cluster = f.cl.name
  running : view.np.paused = false
  target : view.target ≠ ""

/-- The order of the visits leaves nobody out. -/
theorem PoolView.mem_members {view : PoolView} {addr : String} :
    addr ∈ view.members ↔ addr ∈ view.np.members :=
  (List.perm_insertionSort _ _).mem_iff

def PoolPos.Coherent (f : JobFrame) : PoolPos → Prop
  | .pool => True
  | .cluster np => np.paused = false
  | .nodes np target => np.paused = false ∧ target ≠ ""
  -- the visited members, this one and those to come are the members in order
  | .member view visited addr todo _ =>
    view.Coherent f ∧ view.members = visited ++ addr :: todo
  | .returned _ => True

def ExecPos.Coherent : ExecPos → Prop
  | .idle => True
  | .clusters => True
  | .jobs cl _ => cl.rolloutsEnabled = true
  | .connect f => f.Active
  | .markRunning f => f.Active ∧ f.job.kind = .talos
  | .pool f pos => f.Active ∧ f.job.kind = .talos ∧ pos.Coherent f
  | .connectK8s f => f.Active ∧ f.job.kind = .kubernetes
  | .markRunningK8s f => f.Active ∧ f.job.kind = .kubernetes
  | .k8s f _ => f.Active ∧ f.job.kind = .kubernetes
  | .reject f _ => f.Active

namespace RolloutReconciler

/-- A pass stays at coherent places. -/
theorem poolNext_coherent {r : RolloutReconciler} {f : JobFrame} {pos : PoolPos} {pool : String}
    {ev : Ev} (h : pos.Coherent f) (hop : r.poolIssues f.cl.name pool pos = some ev.op) :
    (r.poolNext f.cl.name pool pos ev).Coherent f := by
  have hmove := poolNext_moves hop
  generalize r.poolNext f.cl.name pool pos ev = pos' at hmove
  cases hmove with
  | pinned hp ht => exact ⟨hp, ht⟩
  | unpinned hp _ => exact hp
  | targeted ht => exact ⟨h, ht⟩
  | entered hm => exact ⟨⟨rfl, h.1, h.2⟩, hm⟩
  | inVisit _ => exact h
  | nextVisit _ =>
    -- the visit is over, and its member joins the visited ones
    refine ⟨h.1, ?_⟩
    rw [h.2, List.append_assoc]
    rfl
  | _ => trivial

end RolloutReconciler

namespace RolloutExecutor

variable {e : RolloutExecutor} {f : JobFrame}

theorem scanClusters_coherent (todo : List Cluster) : (scanClusters todo).Coherent := by
  induction todo with
  | nil => trivial
  | cons cl todo ih =>
    rw [scanClusters]
    split
    next hen => exact hen
    next => exact ih

theorem scanJobs_coherent {cl : Cluster} (hen : cl.rolloutsEnabled = true) (todo : List Cluster)
    (jobs : List Rollout) : (scanJobs cl todo jobs).Coherent := by
  induction jobs with
  | nil => exact scanClusters_coherent todo
  | cons job jobs ih =>
    rw [scanJobs]
    split
    next hact => exact ⟨hen, hact⟩
    next => exact ih

theorem afterJob_coherent (h : f.Active) : (afterJob f).Coherent :=
  scanJobs_coherent h.enabled f.clusters f.jobs

theorem dispatch_coherent (h : f.Active) : (e.dispatch f).Coherent := by
  rw [dispatch]
  cases hk : f.job.kind with
  | talos => exact ⟨h, hk⟩
  | kubernetes =>
    dsimp only
    split
    · exact ⟨h, hk⟩
    · exact h
  | unspecified => exact h

/-- The executor stays at coherent places. -/
theorem next_coherent {pos : ExecPos} {ev : Ev} (h : pos.Coherent)
    (hop : e.issues pos = some ev.op) : (e.next pos ev).Coherent := by
  have hmove := next_moves hop
  generalize e.next pos ev = pos' at hmove
  cases hmove with
  | clustersFailed | jobsFailed => trivial
  | clustersListed => exact scanClusters_coherent _
  | jobsListed => exact scanJobs_coherent h _ _
  | connected => exact dispatch_coherent h
  | connectedK8s | begunK8s | upgrades _ => exact h
  | begun => exact ⟨h.1, h.2, trivial⟩
  | passes hpool => exact ⟨h.1, h.2.1, RolloutReconciler.poolNext_coherent h.2.2 hpool⟩
  | unconnected | rejected => exact afterJob_coherent h
  | unconnectedK8s | concluded | concludedK8s => exact afterJob_coherent h.1

/-- Places along an execution are coherent. -/
theorem foldl_next_coherent {pos : ExecPos} {t : Trace medeaSig} (hc : pos.Coherent)
    (ht : Along e.next (fun pos ev => e.issues pos = some ev.op) pos t) :
    (t.foldl e.next pos).Coherent := by
  induction t generalizing pos with
  | nil => exact hc
  | cons ev t ih => exact ih (next_coherent hc ht.1) ht.2

end RolloutExecutor

end Medea
