import Medea.Rollout.Control

/-!
# The executor conforms to its control machine

`RolloutExecutor.runOnce_conforms`: the program of one pass, started at the place `clusters`, issues
at every place exactly the operation of the machine and is back at `idle` when it returns. There is
one lemma per function of the source, in the order of the calls; each of them executes the function
symbolically and says at which place it returns.
-/

set_option autoImplicit false

namespace Medea

open Medea.Interaction RolloutReconciler

namespace RolloutExecutor

variable (e : RolloutExecutor) {α : Type} {pos : ExecPos}

/-- Symbolic execution of one operation. -/
theorem conforms_call {Q : α → ExecPos → Prop} {op : Op} {k : op.Reply → Prog α}
    (hop : e.issues pos = some op) (hk : ∀ rep, (k rep).Keeps e.control Q (e.next pos ⟨op, rep⟩)) :
    (call op >>= k).Keeps e.control Q pos := by
  show (Program.request (S := medeaSig) op k).Keeps e.control Q pos
  rw [control, Program.keeps_quiet_request]
  exact fun rep _ => ⟨hop, hk rep⟩

theorem conforms_done {Q : α → ExecPos → Prop} {a : α} (h : Q a pos) :
    (pure a : Prog α).Keeps e.control Q pos := Program.keeps_quiet_done.2 h

section Visit

variable (f : JobFrame) (view : PoolView) (visited : List String) (addr : String)
  (todo : List String)

/-- A stage of the visit of `addr`. -/
abbrev atStage (s : Stage) : ExecPos := .pool f (.member view visited addr todo s)

/-- The place after a step inside the visit of `addr`. -/
abbrev afterStep (step : StageStep) : ExecPos :=
  .pool f (RolloutReconciler.settleStep view addr visited todo step)

@[simp] theorem next_atStage (s : Stage) (ev : Ev) :
    e.next (atStage f view visited addr todo s) ev =
      afterStep f view visited addr todo ((e.reconcilerOf f).stageNext view addr s ev) := rfl

variable {f view visited addr todo}

theorem setState_conforms {Q : α → ExecPos → Prop} {k : Unit → Prog α} {s : Stage}
    {state : RolloutState} {msg : String}
    (hs : (e.reconcilerOf f).stageIssues view addr s =
      .store (.putMachineRollout (memberRecord view addr state msg)))
    (hk : ∀ rep, (k ()).Keeps e.control Q (afterStep f view visited addr todo
      ((e.reconcilerOf f).stageNext view addr s
        ⟨.store (.putMachineRollout (memberRecord view addr state msg)), rep⟩))) :
    (setState view.cluster addr state view.target msg >>= k).Keeps e.control Q
      (atStage f view visited addr todo s) := by
  rw [setState, Program.bind_bind]
  exact e.conforms_call (congrArg some hs) hk

/-- Marking a member failed ends its visit with the error. -/
theorem fail_conforms (msg : String) :
    (fail view.cluster addr view.target msg).Keeps e.control
      (fun res pos => pos = afterStep f view visited addr todo
        (.leave (haltOnError res)))
      (atStage f view visited addr todo (.markFailed msg)) :=
  e.setState_conforms rfl fun _ => e.conforms_done rfl

/-- One poll ends the wait or goes on to its select. -/
theorem poll_conforms (left : Nat) :
    ((e.reconcilerOf f).poll addr (view.name addr)).Keeps e.control
      (fun p pos => pos = atStage f view visited addr todo
        (if p.1 && p.2 == view.target then .uncordon else .wait left p.1 p.2))
      (atStage f view visited addr todo (.ready left)) :=
  e.conforms_call rfl fun _ => e.conforms_call rfl fun _ => e.conforms_done rfl

theorem waitHealthy_conforms (left : Nat) :
    ((e.reconcilerOf f).waitHealthy addr (view.name addr) view.target left).Keeps e.control
      (fun res pos => pos = atStage f view visited addr todo
        (match res with | .ok () => .uncordon | .error msg => .markFailed msg))
      (atStage f view visited addr todo (.ready left)) := by
  -- on the polls left; each poll is two calls and, if it fails, a select
  induction left with
  | zero =>
    refine (e.poll_conforms 0).bind ?_
    rintro ⟨ready, version⟩ _ rfl
    dsimp only
    split
    · exact e.conforms_done rfl
    · exact e.conforms_call rfl fun _ => e.conforms_done rfl
  | succ left ih =>
    refine (e.poll_conforms (left + 1)).bind ?_
    rintro ⟨ready, version⟩ _ rfl
    dsimp only
    split
    · exact e.conforms_done rfl
    · refine e.conforms_call rfl fun done => ?_
      cases done with
      | true => exact e.conforms_done rfl
      | false => exact ih

theorem finishUpgrade_conforms :
    ((e.reconcilerOf f).finishUpgrade view.cluster addr (view.name addr) view.target).Keeps
      e.control
      (fun res pos => pos = afterStep f view visited addr todo
        (.leave (haltOnError res)))
      (atStage f view visited addr todo (enterFinish view addr)) := by
  rw [finishUpgrade, enterFinish]
  split
  · exact e.fail_conforms _
  · refine e.setState_conforms rfl fun _ => ?_
    refine (e.waitHealthy_conforms (e.reconcilerOf f).polls).bind ?_
    rintro (msg | ⟨⟩) _ rfl
    · exact e.fail_conforms msg
    · refine e.conforms_call rfl fun rep => ?_
      rcases rep with msg | ⟨⟩
      · exact e.fail_conforms _
      · exact e.setState_conforms rfl fun _ => e.conforms_done rfl

theorem drainAndUpgrade_conforms :
    ((e.reconcilerOf f).drainAndUpgrade view.cluster view.np addr (view.name addr)
      view.target).Keeps e.control
      (fun res pos => pos = afterStep f view visited addr todo
        (.leave (haltOnError res)))
      (atStage f view visited addr todo .markDraining) := by
  rw [drainAndUpgrade]
  refine e.setState_conforms rfl fun _ => e.conforms_call rfl fun drained => ?_
  rcases drained with msg | ⟨⟩
  · exact e.fail_conforms _
  refine e.setState_conforms rfl fun _ => e.conforms_call rfl fun image => ?_
  rcases image with msg | image
  · exact e.fail_conforms _
  refine e.conforms_call rfl fun upgraded => ?_
  rcases upgraded with msg | ⟨⟩
  · exact e.fail_conforms _
  · exact e.finishUpgrade_conforms

theorem snapshot_conforms :
    ((e.reconcilerOf f).snapshot view.cluster addr).Keeps e.control
      (fun res pos => pos = atStage f view visited addr todo
        (orFail "etcd snapshot: " (fun _ => .markDraining) res))
      (atStage f view visited addr todo .mkdir) := by
  rw [snapshot]
  refine e.conforms_call rfl fun made => ?_
  rcases made with msg | ⟨⟩
  · exact e.conforms_done rfl
  refine e.conforms_call rfl fun opened => ?_
  rcases opened with msg | ⟨⟩
  · exact e.conforms_done rfl
  refine e.conforms_call rfl fun taken => ?_
  rcases taken with msg | ⟨⟩
  · exact e.conforms_call rfl fun _ => e.conforms_done rfl
  -- the close is the last call: its answer is returned as it is
  · rw [← Program.bind_done (call _)]
    exact e.conforms_call rfl fun _ => e.conforms_done rfl

theorem upgradeNode_conforms :
    ((e.reconcilerOf f).upgradeNode view.cluster view.np addr (view.name addr) view.target).Keeps
      e.control
      (fun res pos => pos = afterStep f view visited addr todo
        (.leave (haltOnError res)))
      (atStage f view visited addr todo (enterUpgrade view addr)) := by
  rw [upgradeNode, enterUpgrade]
  split
  · exact e.fail_conforms _
  split
  · refine e.snapshot_conforms.bind ?_
    rintro (msg | ⟨⟩) _ rfl
    · exact e.fail_conforms _
    · exact e.drainAndUpgrade_conforms
  · exact e.drainAndUpgrade_conforms

/-- The visit of a member starts at its record and leaves with the decision it returns. -/
theorem visit_conforms :
    ((e.reconcilerOf f).visit view.cluster view.np view.target view.nodes addr).Keeps e.control
      (fun v pos => pos = afterStep f view visited addr todo (.leave v))
      (atStage f view visited addr todo .record) := by
  -- the read of the record, and where its state leads
  have hrecord : (machineState view.cluster addr).Keeps e.control
      (fun state pos => pos = atStage f view visited addr todo
        (if state = .upgrading ∨ state = .waitingHealthy then
          enterFinish view addr else .check))
      (atStage f view visited addr todo .record) := by
    refine e.conforms_call rfl fun rep => ?_
    rcases rep with err | (_ | mr)
    · exact e.conforms_done rfl
    · exact e.conforms_done rfl
    · exact e.conforms_done rfl
  refine hrecord.bind ?_
  rintro state _ rfl
  split
  -- left in flight
  · refine e.finishUpgrade_conforms.bind ?_
    rintro res _ rfl
    exact e.conforms_done rfl
  refine e.conforms_call rfl fun rep => ?_
  rcases rep with msg | cur
  · refine (e.fail_conforms ("read version: " ++ msg)).bind ?_
    rintro res _ rfl
    exact e.conforms_done rfl
  -- program and machine decide on the version with the same tests in the same order
  simp only [next_atStage, stageNext, afterCheck]
  split
  · exact e.setState_conforms rfl fun _ => e.conforms_done rfl
  split
  next h =>
    rw [if_pos (show view.overBudget addr from h)]
    exact e.conforms_done rfl
  next h =>
    rw [if_neg (show ¬view.overBudget addr from h)]
    refine e.upgradeNode_conforms.bind ?_
    rintro res _ rfl
    exact e.conforms_done rfl

end Visit

section Pass

variable {f : JobFrame}

theorem members_conform (view : PoolView) (visited todo : List String) :
    (Program.untilSome
      ((e.reconcilerOf f).visit view.cluster view.np view.target view.nodes) todo).Keeps e.control
      (fun ended pos => pos = .pool f (.returned (ended.getD (.ok ()))))
      (.pool f (nextMember view visited todo)) := by
  -- on the members to come; those behind are only remembered by the machine
  induction todo generalizing visited with
  | nil => exact e.conforms_done rfl
  | cons addr todo ih =>
    refine (@visit_conforms e f view visited addr todo).bind ?_
    rintro (_ | res) _ rfl
    · exact ih (visited ++ [addr])
    · exact e.conforms_done rfl

theorem targetVersion_conforms (np : NodePool) :
    (targetVersion f.cl.name np).Keeps e.control
      (fun res pos => pos = .pool f (match res with
        | .error msg => .returned (.error msg)
        | .ok target => withTarget f.cl.name f.job.pool np target))
      (.pool f (if np.desiredTalosVersion ≠ "" then
        withTarget f.cl.name f.job.pool np np.desiredTalosVersion
        else .cluster np)) := by
  rw [targetVersion]
  split
  · exact e.conforms_done rfl
  · refine e.conforms_call rfl fun rep => ?_
    rcases rep with err | ⟨_ | cl, rev⟩
    · exact e.conforms_done rfl
    · exact e.conforms_done rfl
    · exact e.conforms_done rfl

/-- A pass over a pool starts by reading the pool and ends with what it returns. -/
theorem reconcilePool_conforms :
    ((e.reconcilerOf f).reconcilePool f.cl.name f.job.pool).Keeps e.control
      (fun res pos => pos = .pool f (.returned res)) (.pool f .pool) := by
  refine e.conforms_call rfl fun rep => ?_
  rcases rep with err | ⟨_ | np, rev⟩
  · exact e.conforms_done rfl
  · exact e.conforms_done rfl
  -- paused, target, node list: each may end the pass before it visits anybody
  simp only [next, poolNext, withPool]
  split
  · exact e.conforms_done rfl
  refine (e.targetVersion_conforms np).bind ?_
  rintro (msg | target) _ rfl
  · exact e.conforms_done rfl
  simp only [withTarget]
  split
  · exact e.conforms_done rfl
  refine e.conforms_call rfl fun rep => ?_
  rcases rep with msg | nodes
  · exact e.conforms_done rfl
  refine (e.members_conform ⟨f.cl.name, np, target, nodes⟩ [] (sortStrings np.members)).bind ?_
  rintro ended _ rfl
  exact e.conforms_done rfl

end Pass

section Kubernetes

variable {f : JobFrame}

theorem setClusterPhase_conforms {Q : α → ExecPos → Prop} {k : Unit → Prog α}
    {pos : K8sPos} {phase : ClusterRolloutPhase} {msg : String}
    (hs : e.issues (.k8s f pos) = some (.store (.putClusterRollout
      ⟨f.cl.name, phase, f.job.targetVersion, msg, 0⟩)))
    (hk : ∀ rep, (k ()).Keeps e.control Q (e.next (.k8s f pos)
      ⟨.store (.putClusterRollout ⟨f.cl.name, phase, f.job.targetVersion, msg, 0⟩), rep⟩)) :
    (setClusterPhase f.cl.name phase f.job.targetVersion msg >>= k).Keeps
      e.control Q (.k8s f pos) := by
  rw [setClusterPhase, Program.bind_bind]
  exact e.conforms_call hs hk

theorem failCluster_conforms (msg : String) :
    (failCluster f.cl.name f.job.targetVersion msg).Keeps e.control
      (fun res pos => pos = .k8s f (.returned res))
      (.k8s f (k8sFailed msg)) :=
  e.setClusterPhase_conforms rfl fun _ => e.conforms_done rfl

theorem settle_conforms :
    (do setClusterPhase f.cl.name .idle f.job.targetVersion ""
        return Except.ok () : Prog (Except String Unit)).Keeps e.control
      (fun res pos => pos = .k8s f (.returned res)) (.k8s f (.settle .idle "")) :=
  e.setClusterPhase_conforms rfl fun _ => e.conforms_done rfl

theorem verifyNodes_conforms :
    ((e.reconcilerOf f).verifyNodes f.cl.name f.job.targetVersion).Keeps e.control
      (fun res pos => pos = .k8s f (.returned res)) (.k8s f .verify) := by
  refine e.conforms_call rfl fun rep => ?_
  rcases rep with msg | nodes
  · exact e.failCluster_conforms _
  simp only [next, k8sNext, k8sOrFail,
    afterVerify]
  -- the first node that is not at the target, if any
  cases nodes.find? fun n => !sameVersion n.kubeletVersion f.job.targetVersion with
  | some n => exact e.failCluster_conforms _
  | none => exact e.settle_conforms

theorem k8sSnapshot_conforms (cpIP src : String) :
    ((e.reconcilerOf f).snapshot f.cl.name cpIP).Keeps e.control
      (fun res pos => pos = .k8s f
        (k8sOrFail "etcd snapshot: " (fun _ => .upgrade src) res))
      (.k8s f (.mkdir cpIP src)) := by
  rw [snapshot]
  refine e.conforms_call rfl fun made => ?_
  rcases made with msg | ⟨⟩
  · exact e.conforms_done rfl
  refine e.conforms_call rfl fun opened => ?_
  rcases opened with msg | ⟨⟩
  · exact e.conforms_done rfl
  refine e.conforms_call rfl fun taken => ?_
  rcases taken with msg | ⟨⟩
  · exact e.conforms_call rfl fun _ => e.conforms_done rfl
  · rw [← Program.bind_done (call _)]
    exact e.conforms_call rfl fun _ => e.conforms_done rfl

theorem reconcileK8s_conforms :
    ((e.reconcilerOf f).reconcileK8s f.cl.name f.job.targetVersion).Keeps e.control
      (fun res pos => pos = .k8s f (.returned res))
      (.k8s f (k8sStart f.cl.name f.job.targetVersion)) := by
  rw [reconcileK8s, k8sStart]
  split
  · exact e.conforms_done rfl
  refine e.setClusterPhase_conforms rfl fun _ => e.conforms_call rfl fun rep => ?_
  rcases rep with msg | nodes
  · exact e.failCluster_conforms _
  simp only [next, k8sNext, k8sOrFail,
    afterNodes]
  split
  · exact e.failCluster_conforms _
  split
  · exact e.settle_conforms
  refine (e.k8sSnapshot_conforms _ (controlPlaneOf nodes).2).bind ?_
  rintro (msg | ⟨⟩) _ rfl
  · exact e.failCluster_conforms _
  refine e.conforms_call rfl fun upgraded => ?_
  rcases upgraded with msg | ⟨⟩
  · exact e.failCluster_conforms _
  · exact e.verifyNodes_conforms

end Kubernetes

section Jobs

theorem putJob_conforms {f : JobFrame} {job : Rollout}
    (hs : e.issues pos = some (.store (.putRolloutJob job)))
    (hk : ∀ rep, e.next pos ⟨.store (.putRolloutJob job), rep⟩ = afterJob f) :
    (do let _ ← callStore (.putRolloutJob job); return () : Prog Unit).Keeps e.control
      (fun _ pos => pos = afterJob f) pos :=
  e.conforms_call hs fun rep => e.conforms_done (hk rep)

theorem runKubernetes_conforms (f : JobFrame) :
    (e.runKubernetes f.cl f.job).Keeps e.control (fun _ pos => pos = afterJob f)
      (if e.k8sFactory then .connectK8s f
        else .reject f "kubernetes upgrader not configured") := by
  rw [runKubernetes]
  split
  · refine e.conforms_call rfl fun rep => ?_
    rcases rep with msg | ⟨⟩
    · exact e.conforms_done rfl
    refine e.conforms_call rfl fun _ => ?_
    refine e.reconcileK8s_conforms.bind ?_
    rintro (msg | ⟨⟩) _ rfl
    · exact e.putJob_conforms rfl fun _ => rfl
    · exact e.putJob_conforms rfl fun _ => rfl
  · exact e.putJob_conforms rfl fun _ => rfl

theorem runJob_conforms (f : JobFrame) (hen : f.cl.rolloutsEnabled = true) :
    (e.runJob f.cl f.job).Keeps e.control (fun _ pos => pos = afterJob f) (.connect f) := by
  -- the guard holds of the listed cluster, so the second look at it passes
  rw [runJob, if_pos hen]
  refine e.conforms_call rfl fun rep => ?_
  rcases rep with msg | ⟨⟩
  · exact e.conforms_done rfl
  simp only [next, dispatch]
  cases f.job.kind with
  | unspecified => exact e.putJob_conforms rfl fun _ => rfl
  | talos =>
    refine e.conforms_call rfl fun _ => ?_
    refine e.reconcilePool_conforms.bind ?_
    rintro (msg | ⟨⟩) _ rfl
    · exact e.putJob_conforms rfl fun _ => rfl
    · exact e.putJob_conforms rfl fun _ => rfl
  | kubernetes => exact e.runKubernetes_conforms f

/-- An execution of a job walks along its places; at its end it is past the job. -/
theorem runJob_along (f : JobFrame) (hen : f.cl.rolloutsEnabled = true) {t : Trace medeaSig}
    {q : Prog Unit} (h : (e.runJob f.cl f.job).Steps t q) :
    Along e.next (fun pos ev => e.issues pos = some ev.op) (.connect f) t ∧
      (q = .done () → t.foldl e.next (.connect f) = afterJob f) := by
  have hadmits : Along e.control.next e.control.admits (.connect f) t :=
    along_of_split fun _ _ _ _ => trivial
  obtain ⟨halong, hend⟩ := (e.runJob_conforms f hen).steps h hadmits
  refine ⟨halong, ?_⟩
  rintro rfl
  exact hend.of_done

theorem runJobs_conforms (cl : Cluster) (hen : cl.rolloutsEnabled = true) (todo : List Cluster)
    (jobs : List Rollout) :
    (e.runJobs cl jobs).Keeps e.control (fun _ pos => pos = scanClusters todo)
      (scanJobs cl todo jobs) := by
  -- a job that is not actionable leaves both the loop and the machine where they are
  induction jobs with
  | nil => exact e.conforms_done rfl
  | cons job jobs ih =>
    rw [runJobs, Program.forEach, scanJobs]
    split
    · refine (e.runJob_conforms ⟨todo, cl, jobs, job⟩ hen).bind ?_
      rintro _ _ rfl
      exact ih
    · exact ih

theorem runClusters_conforms (clusters : List Cluster) :
    (Program.untilSome e.runCluster clusters).Keeps e.control (fun _ pos => pos = .idle)
      (scanClusters clusters) := by
  -- the machine skips disabled clusters at once, the loop one by one
  induction clusters with
  | nil => exact e.conforms_done rfl
  | cons cl todo ih =>
    rw [Program.untilSome, scanClusters, runCluster]
    split
    next hen =>
      simp only [Program.bind_bind]
      refine e.conforms_call rfl fun rep => ?_
      rcases rep with err | jobs
      · exact e.conforms_done rfl
      · simp only [Program.bind_bind]
        refine (e.runJobs_conforms cl hen todo jobs).bind ?_
        rintro _ _ rfl
        exact ih
    next => exact ih

/-- The executor is its machine. -/
theorem runOnce_conforms :
    e.runOnce.Keeps e.control (fun _ pos => pos = .idle) .clusters := by
  refine e.conforms_call rfl fun rep => ?_
  rcases rep with err | clusters
  · exact e.conforms_done rfl
  · exact e.runClusters_conforms clusters

end Jobs

end RolloutExecutor

end Medea
