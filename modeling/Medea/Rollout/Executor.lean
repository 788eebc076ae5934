import Medea.Rollout.Reconciler

/-!
# The rollout executor

`internal/rollout/executor.go`. One pass visits the enabled clusters in the order they are listed
and runs their actionable jobs one after the other. The clients of a job are built when the job
starts; a failed factory leaves the job for the next pass.
-/

set_option autoImplicit false

namespace Medea

open Medea.Interaction

def actionable (s : RolloutJobState) : Bool := s == .pending || s == .running

/-- The key a job is stored under. -/
def Rollout.key (job : Rollout) : String := ckey job.cluster job.pool

structure RolloutExecutor where
  snapshotDir : String
  polls : Nat
  /-- Whether the Kubernetes upgrader is wired in. -/
  k8sFactory : Bool

namespace RolloutExecutor

variable (e : RolloutExecutor)

/-- The reconciler of a job, over the clients built for it. -/
def reconciler (cl : Cluster) (job : Rollout) : RolloutReconciler where
  client := { cluster := cl.name, work := .rollout job }
  snapshotDir := e.snapshotDir
  polls := e.polls

/-- Record the outcome of a job. Best effort, like every write of the executor. -/
def finish (job : Rollout) (state : RolloutJobState) (msg : String) : Prog Unit := do
  let _ ← callStore (.putRolloutJob { job with state := state, message := msg })
  return ()

/-- Record the job as running. -/
def markRunning (job : Rollout) : Prog Unit := do
  let _ ← callStore (.putRolloutJob { job with state := .running })
  return ()

/-- Record what a pass returned. -/
def conclude (job : Rollout) : Except String Unit → Prog Unit
  | .error e => finish job .failed e
  | .ok () => finish job .done ""

def runTalos (cl : Cluster) (job : Rollout) : Prog Unit := do
  markRunning job
  conclude job (← (e.reconciler cl job).reconcilePool cl.name job.pool)

def runKubernetes (cl : Cluster) (job : Rollout) : Prog Unit :=
  if e.k8sFactory then do
    match ← call (.connectK8s cl (.rollout job)) with
    -- no client for the upgrade: the job keeps its state and comes again
    | .error _ => return ()
    | .ok () => do
        markRunning job
        conclude job (← (e.reconciler cl job).reconcileK8s cl.name job.targetVersion)
  else finish job .failed "kubernetes upgrader not configured"

def runJob (cl : Cluster) (job : Rollout) : Prog Unit :=
  -- the flag as listed, not read again
  if cl.rolloutsEnabled then do
    match ← call (.connect cl (.rollout job)) with
    -- no client for the cluster: the job keeps its state and comes again
    | .error _ => return ()
    | .ok () =>
      match job.kind with
      | .talos => e.runTalos cl job
      | .kubernetes => e.runKubernetes cl job
      | .unspecified => finish job .failed "unknown rollout kind"
  else return ()

/-- The jobs of one cluster. -/
def runJobs (cl : Cluster) (jobs : List Rollout) : Prog Unit :=
  Program.forEach (fun job => if actionable job.state then e.runJob cl job else return ()) jobs

/-- One cluster of a pass; a store error ends the pass. -/
def runCluster (cl : Cluster) : Prog (Option String) :=
  if cl.rolloutsEnabled then do
    match ← callStore (.listRolloutJobs cl.name) with
    -- the clusters that come after are not looked at
    | .error e => return some e.text
    | .ok jobs => do
        e.runJobs cl jobs
        return none
  else return none

/-- Every actionable job on every enabled cluster. -/
def runOnce : Prog (Option String) := do
  match ← callStore .listClusters with
  | .error e => return some e.text
  | .ok clusters => Program.untilSome e.runCluster clusters

end RolloutExecutor

end Medea
