import Medea.Rollout.Members

/-!
# What a pass of the executor holds

A pass lists the clusters once and works from that list to its end. `ExecPos.pending` are the listed
clusters for which jobs may still be started from a place, and `ExecPos.started` is the job that has
been started and not ended. A pass over a pool reads the pool once, and `ExecPos.carried` is the
record it works from. The lemmas say where each of them comes from.
-/

set_option autoImplicit false

namespace Medea

open Medea.Interaction

/-- The clusters whose jobs come after the job in hand. -/
def JobFrame.pending (f : JobFrame) : List Cluster :=
  if f.jobs.any (fun job => actionable job.state) then f.cl :: f.clusters else f.clusters

namespace ExecPos

/-- The listed clusters for which jobs may still be started. -/
def pending : ExecPos → List Cluster
  | .idle | .clusters => []
  | .jobs cl todo => cl :: todo
  | .connect f => f.cl :: f.clusters
  | .markRunning f | .pool f _ | .connectK8s f | .markRunningK8s f | .k8s f _ | .reject f _ =>
    f.pending

/-- The job that has been started and not ended. -/
def started : ExecPos → Option JobFrame
  | .idle | .clusters | .jobs _ _ | .connect _ => none
  | .markRunning f | .pool f _ | .connectK8s f | .markRunningK8s f | .k8s f _ | .reject f _ =>
    some f

/-- The property holds if the executor is in a Kubernetes upgrade. -/
def InK8s (P : JobFrame → K8sPos → Prop) : ExecPos → Prop
  | .k8s f pos => P f pos
  | _ => True

end ExecPos

namespace RolloutExecutor

variable {e : RolloutExecutor} {cl : Cluster} {f : JobFrame} {pos : ExecPos}
  {P : JobFrame → K8sPos → Prop}

theorem pending_scanClusters {todo : List Cluster} (h : cl ∈ (scanClusters todo).pending) :
    cl ∈ todo := by
  induction todo with
  | nil => cases h
  | cons cl' todo ih =>
    rw [scanClusters] at h
    split at h
    · exact h
    · exact List.mem_cons_of_mem _ (ih h)

theorem pending_scanJobs {cl' : Cluster} {todo : List Cluster} {jobs : List Rollout}
    (h : cl ∈ (scanJobs cl' todo jobs).pending) :
    cl ∈ todo ∨ cl = cl' ∧ jobs.any (fun job => actionable job.state) = true := by
  induction jobs with
  | nil => exact Or.inl (pending_scanClusters h)
  | cons job jobs ih =>
    rw [scanJobs] at h
    split at h
    next hact =>
      rcases List.mem_cons.1 h with heq | hmem
      · exact Or.inr ⟨heq, by simp [hact]⟩
      · exact Or.inl hmem
    next =>
      rcases ih h with hmem | ⟨heq, hany⟩
      · exact Or.inl hmem
      · exact Or.inr ⟨heq, by simp [hany]⟩

/-- After a job only what was pending behind it is pending. -/
theorem pending_afterJob (h : cl ∈ (afterJob f).pending) : cl ∈ f.pending := by
  rw [JobFrame.pending]
  rcases pending_scanJobs h with hmem | ⟨rfl, hany⟩
  · split
    · exact List.mem_cons_of_mem _ hmem
    · exact hmem
  · rw [if_pos hany]
    exact List.mem_cons_self

theorem pending_of_frame (h : cl ∈ f.pending) : cl ∈ f.cl :: f.clusters := by
  rw [JobFrame.pending] at h
  split at h
  · exact h
  · exact List.mem_cons_of_mem _ h

theorem dispatch_places : (e.dispatch f).pending = f.pending ∧ (e.dispatch f).started = some f := by
  rw [dispatch]
  cases f.job.kind with
  | talos | unspecified => exact ⟨rfl, rfl⟩
  | kubernetes =>
    dsimp only
    split <;> exact ⟨rfl, rfl⟩

/-- A cluster is pending because it was before, or because it has just been listed. -/
theorem pending_next {ev : Ev} (hop : e.issues pos = some ev.op) (h : cl ∈ (e.next pos ev).pending) :
    cl ∈ pos.pending ∨ ∃ cls, ev = Medea.ev (.store .listClusters) (.ok cls) ∧ cl ∈ cls := by
  have hmove := next_moves hop
  generalize e.next pos ev = pos' at hmove h
  cases hmove with
  | clustersFailed | jobsFailed => cases h
  | clustersListed => exact Or.inr ⟨_, rfl, pending_scanClusters h⟩
  | jobsListed =>
    rcases pending_scanJobs h with hmem | ⟨rfl, _⟩
    · exact Or.inl (List.mem_cons_of_mem _ hmem)
    · exact Or.inl List.mem_cons_self
  | unconnected => exact Or.inl (pending_of_frame (pending_afterJob h))
  | connected =>
    rw [dispatch_places.1] at h
    exact Or.inl (pending_of_frame h)
  | begun | passes _ | connectedK8s | begunK8s | upgrades _ => exact Or.inl h
  | unconnectedK8s | concluded | concludedK8s | rejected => exact Or.inl (pending_afterJob h)

theorem started_scanClusters (todo : List Cluster) : (scanClusters todo).started = none := by
  induction todo with
  | nil => rfl
  | cons cl todo ih =>
    rw [scanClusters]
    split
    · rfl
    · exact ih

theorem started_scanJobs (cl : Cluster) (todo : List Cluster) (jobs : List Rollout) :
    (scanJobs cl todo jobs).started = none := by
  induction jobs with
  | nil => exact started_scanClusters todo
  | cons job jobs ih =>
    rw [scanJobs]
    split
    · rfl
    · exact ih

/-- A started job is the one that was in hand, or its clients have just been built. -/
theorem started_next {ev : Ev} (hop : e.issues pos = some ev.op) (h : (e.next pos ev).started = some f) :
    pos.started = some f ∨ pos = .connect f ∧
      ev = Medea.ev (.connect f.cl (.rollout f.job)) (.ok ()) := by
  have hmove := next_moves hop
  generalize e.next pos ev = pos' at hmove h
  cases hmove with
  | clustersFailed | jobsFailed => cases h
  | clustersListed => exact absurd (h.symm.trans (started_scanClusters _)) nofun
  | connected =>
    rw [dispatch_places.2] at h
    cases h
    exact Or.inr ⟨rfl, rfl⟩
  | begun | passes _ | connectedK8s | begunK8s | upgrades _ => exact Or.inl h
  | jobsListed | unconnected | unconnectedK8s | concluded | concludedK8s | rejected =>
    exact absurd (h.symm.trans (started_scanJobs _ _ _)) nofun

/-! ## In a Kubernetes upgrade -/

theorem inK8s_of_not_started (h : pos.started = none) :
    pos.InK8s P := by
  cases pos with
  | k8s f pos => cases h
  | _ => trivial

/-- A step keeps a property of Kubernetes upgrades that holds when one begins, if the steps of an
upgrade keep it. -/
theorem next_inK8s {ev : Ev}
    (hop : e.issues pos = some ev.op)
    (hbegin : ∀ f, P f (RolloutReconciler.k8sStart f.cl.name f.job.targetVersion))
    (hk8s : ∀ f pos', pos = .k8s f pos' →
      (e.reconcilerOf f).k8sIssues f.cl.name f.job.targetVersion pos' = some ev.op →
      P f (RolloutReconciler.k8sNext f.job.targetVersion pos' ev)) :
    (e.next pos ev).InK8s P := by
  have hmove := next_moves hop
  generalize e.next pos ev = pos' at hmove
  cases hmove with
  | clustersFailed | jobsFailed | connectedK8s | begun | passes _ => trivial
  | clustersListed => exact inK8s_of_not_started (started_scanClusters _)
  | connected =>
    rw [dispatch]
    split
    · trivial
    · split <;> trivial
    · trivial
  | begunK8s => exact hbegin _
  | upgrades hissues => exact hk8s _ _ rfl hissues
  | jobsListed | unconnected | unconnectedK8s | concluded | concludedK8s | rejected =>
    exact inK8s_of_not_started (started_scanJobs _ _ _)

end RolloutExecutor

/-! ## The pool of a pass -/

/-- The pool record a pass works from. -/
def PoolPos.carried : PoolPos → Option NodePool
  | .cluster np | .nodes np _ => some np
  | .member view _ _ _ _ => some view.np
  | .pool | .returned _ => none

/-- The job in hand and the pool record its pass works from. -/
def ExecPos.carried : ExecPos → Option (JobFrame × NodePool)
  | .pool f pos => pos.carried.map fun np => (f, np)
  | _ => none

namespace RolloutReconciler

variable {r : RolloutReconciler} {cluster pool : String} {np : NodePool}

/-- A pass works from the pool it worked from before, or from the one it has just read. -/
theorem carried_poolNext {pos : PoolPos} {e : Ev}
    (hop : r.poolIssues cluster pool pos = some e.op)
    (h : (r.poolNext cluster pool pos e).carried = some np) :
    pos.carried = some np ∨ pos = .pool ∧
      ∃ rev, e = ev (.store (.getNodePool cluster pool)) (.ok (some np, rev)) := by
  have hmove := poolNext_moves hop
  generalize r.poolNext cluster pool pos e = pos' at hmove h
  cases hmove with
  | pinned | unpinned =>
    cases h
    exact Or.inr ⟨rfl, _, rfl⟩
  | targeted | entered | inVisit | nextVisit =>
    cases h
    exact Or.inl rfl
  | _ => cases h

end RolloutReconciler

namespace RolloutExecutor

/-- The executor works from the pool it worked from before, or its job has just read one. -/
theorem carried_next {x : RolloutExecutor} {pos : ExecPos} {e : Ev} {f : JobFrame} {np : NodePool}
    (hop : x.issues pos = some e.op) (h : (x.next pos e).carried = some (f, np)) :
    pos.carried = some (f, np) ∨ pos = .pool f .pool ∧
      ∃ rev, e = ev (.store (.getNodePool f.cl.name f.job.pool)) (.ok (some np, rev)) := by
  have hin : (x.next pos e).InPool fun f' pos' => pos'.carried = some np → f' = f →
      pos.carried = some (f, np) ∨ pos = .pool f .pool ∧
        ∃ rev, e = ev (.store (.getNodePool f.cl.name f.job.pool)) (.ok (some np, rev)) := by
    refine next_inPool hop (fun _ hc => nomatch hc) ?_
    rintro f' pos' rfl hissues hc rfl
    rcases RolloutReconciler.carried_poolNext hissues hc with hc | ⟨rfl, hread⟩
    · left
      rw [ExecPos.carried, hc]
      rfl
    · exact Or.inr ⟨rfl, hread⟩
  cases hpos : x.next pos e with
  | pool f' pos' =>
    rw [hpos] at h hin
    obtain ⟨np', hc, hf⟩ := Option.map_eq_some_iff.1 h
    cases hf
    exact hin hc rfl
  | _ =>
    rw [hpos] at h
    cases h

end RolloutExecutor

end Medea
