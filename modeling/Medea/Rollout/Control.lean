import Medea.Rollout.Executor

/-!
# The control state of the rollout executor

The executor is a sequential program; this file names the places where it can stand between two
operations. `ExecPos.issues` is the operation issued at a place and `ExecPos.next` the place reached
with its answer. What a job does to one member of a pool is the part `Stage`: read the record, check
the version, take the snapshot, drain, upgrade, wait, uncordon, and write the outcome.

`RolloutExecutor.control` is the machine as a contract. The program keeps it: started at the top,
each operation it issues is the one of its place, for every answer. Invariants of runs are then
proved over the places, one case per stage, and not over the text of the program.
-/

set_option autoImplicit false

namespace Medea

open Medea.Interaction

/-! ## Places -/

/-- The place inside the visit of one member. -/
inductive Stage where
  | record
  | check
  | mkdir
  | openFile
  | snapshot
  | closeFile (result : Except String Unit)
  | markDraining
  | drain
  | markUpgrading
  | image
  | upgrade (image : String)
  | markWaiting
  | ready (left : Nat)
  | report (left : Nat) (ready : Bool)
  | wait (left : Nat) (ready : Bool) (version : String)
  | uncordon
  | markDone
  | markFailed (msg : String)

/-- What a pass has read before it visits the members. -/
structure PoolView where
  cluster : String
  np : NodePool
  target : String
  nodes : List NodeInfo

/-- The members in the order of the visit. -/
def PoolView.members (view : PoolView) : List String := sortStrings view.np.members

def PoolView.name (view : PoolView) (addr : String) : String := nameOf view.nodes addr

/-- Too many other members are unavailable to start with this one. -/
def PoolView.overBudget (view : PoolView) (addr : String) : Prop :=
  unavailableOthers view.nodes view.members addr ≥ view.np.maxUnavail

instance (view : PoolView) (addr : String) : Decidable (view.overBudget addr) :=
  inferInstanceAs (Decidable (_ ≥ _))

/-- The place inside a pass over a pool. -/
inductive PoolPos where
  | pool
  | cluster (np : NodePool)
  | nodes (np : NodePool) (target : String)
  | member (view : PoolView) (visited : List String) (addr : String) (todo : List String)
      (stage : Stage)
  | returned (result : Except String Unit)

/-- The place inside a Kubernetes upgrade. -/
inductive K8sPos where
  | start
  | nodes
  | mkdir (cpIP src : String)
  | openFile (cpIP src : String)
  | snapshot (cpIP src : String)
  | closeFile (cpIP src : String) (result : Except String Unit)
  | upgrade (src : String)
  | verify
  | settle (phase : ClusterRolloutPhase) (msg : String)
  | returned (result : Except String Unit)

/-- The job in hand and the loops around it: the jobs of its cluster and the clusters to come. -/
structure JobFrame where
  clusters : List Cluster
  cl : Cluster
  jobs : List Rollout
  job : Rollout

/-- The place of the executor. -/
inductive ExecPos where
  | idle
  | clusters
  | jobs (cl : Cluster) (todo : List Cluster)
  | connect (f : JobFrame)
  | markRunning (f : JobFrame)
  | pool (f : JobFrame) (pos : PoolPos)
  | connectK8s (f : JobFrame)
  | markRunningK8s (f : JobFrame)
  | k8s (f : JobFrame) (pos : K8sPos)
  | reject (f : JobFrame) (msg : String)

/-! ## One member -/

/-- Inside a visit, or out of it with a decision. -/
inductive StageStep where
  | at (s : Stage)
  | leave (v : Visit)

namespace RolloutReconciler

variable (r : RolloutReconciler) (view : PoolView) (addr : String)

/-- The record written for a member. -/
def memberRecord (state : RolloutState) (msg : String) : MachineRollout where
  cluster := view.cluster
  addr := addr
  state := state
  targetTalosVersion := view.target
  message := msg

/-- The operation issued at a stage. -/
def stageIssues : Stage → Op
  | .record => .store (.getMachineRollout view.cluster addr)
  -- the first read of the version decides whether there is anything to do
  | .check => .talos r.client (.version addr)
  | .mkdir => .mkdirAll r.snapshotDir
  | .openFile => .openFile (r.snapshotPath view.cluster addr)
  | .snapshot => .talos r.client (.etcdSnapshot addr (r.snapshotPath view.cluster addr))
  | .closeFile _ => .closeFile (r.snapshotPath view.cluster addr)
  | .markDraining => .store (.putMachineRollout (memberRecord view addr .draining "draining"))
  | .drain => .kube r.client addr (.drain (view.name addr) view.np.drainTimeout)
  | .markUpgrading => .store (.putMachineRollout (memberRecord view addr .upgrading "upgrading"))
  | .image => .talos r.client (.installImage addr)
  | .upgrade image => .talos r.client (.upgradeOS addr image)
  | .markWaiting =>
    .store (.putMachineRollout (memberRecord view addr .waitingHealthy "waiting for healthy"))
  -- a poll has two halves and a select
  | .ready _ => .kube r.client addr (.nodeReady (view.name addr))
  | .report _ _ => .talos r.client (.version addr)
  | .wait left _ _ => .wait r.client left
  | .uncordon => .kube r.client addr (.uncordon (view.name addr))
  | .markDone => .store (.putMachineRollout (memberRecord view addr .done ""))
  | .markFailed msg => .store (.putMachineRollout (memberRecord view addr .failed msg))

/-- Where the tail of an upgrade starts. -/
def enterFinish : Stage :=
  -- a member without a node fails before it is waited for
  if view.name addr = "" then .markFailed "node not found in cluster (cannot wait for health)"
  else .markWaiting

/-- Where the upgrade of a node starts. -/
def enterUpgrade : Stage :=
  if view.name addr = "" then .markFailed "node not found in cluster (cannot drain)"
  else if snapshots view.np then .mkdir else .markDraining

/-- The stage after the record has been read. -/
def afterRecord (rep : Except StoreError (Option MachineRollout)) : Stage :=
  let state := match rep with
    | .ok (some mr) => mr.state
    | _ => .unspecified
  -- the re-entry of a node in flight, past snapshot, drain and upgrade
  if state = .upgrading ∨ state = .waitingHealthy then enterFinish view addr else .check

/-- The decision on a member that is not in flight. -/
def afterCheck : Except String String → StageStep
  | .error e => .at (.markFailed ("read version: " ++ e))
  | .ok cur =>
    if cur = view.target then .at .markDone
    -- not an error: the job is recorded as done
    else if view.overBudget addr then .leave (some (.ok ()))
    else .at (enterUpgrade view addr)

/-- A failed call marks the member failed. -/
def orFail {α : Type} (what : String) (k : α → Stage) : Except String α → Stage
  | .error e => .markFailed (what ++ e)
  | .ok a => k a

/-- The stage after the second half of a poll. -/
def afterReport (left : Nat) (ready : Bool) (rep : Except String String) : Stage :=
  let version := rep.toOption.getD ""
  if ready && version == view.target then .uncordon else .wait left ready version

/-- The stage after the select of a poll: the last one always ends the wait. -/
def afterWait (ready : Bool) (version : String) : Nat → Bool → Stage
  | 0, _ => .markFailed (timedOutMessage addr view.target ready version)
  | left + 1, done =>
    if done then .markFailed (timedOutMessage addr view.target ready version) else .ready left

/-- The place after an event of a visit. -/
def stageNext : Stage → Ev → StageStep
  | .record, ⟨.store (.getMachineRollout _ _), rep⟩ => .at (afterRecord view addr rep)
  | .check, ⟨.talos _ (.version _), rep⟩ => afterCheck view addr rep
  | .mkdir, ⟨.mkdirAll _, rep⟩ => .at (orFail "etcd snapshot: " (fun _ => .openFile) rep)
  | .openFile, ⟨.openFile _, rep⟩ => .at (orFail "etcd snapshot: " (fun _ => .snapshot) rep)
  | .snapshot, ⟨.talos _ (.etcdSnapshot _ _), rep⟩ => .at (.closeFile rep)
  -- the stream has failed, so the result of the close does not count
  | .closeFile (.error e), _ => .at (.markFailed ("etcd snapshot: " ++ e))
  | .closeFile (.ok ()), ⟨.closeFile _, rep⟩ =>
    .at (orFail "etcd snapshot: " (fun _ => .markDraining) rep)
  -- writes of records are best effort: any answer will do
  | .markDraining, _ => .at .drain
  | .drain, ⟨.kube _ _ (.drain _ _), rep⟩ => .at (orFail "drain: " (fun _ => .markUpgrading) rep)
  | .markUpgrading, _ => .at .image
  | .image, ⟨.talos _ (.installImage _), rep⟩ =>
    .at (orFail "read install image: "
      (fun curImage => .upgrade (deriveInstallerImage curImage view.target)) rep)
  | .upgrade _, ⟨.talos _ (.upgradeOS _ _), rep⟩ =>
    .at (orFail "upgrade: " (fun _ => enterFinish view addr) rep)
  | .markWaiting, _ => .at (.ready r.polls)
  | .ready left, ⟨.kube _ _ (.nodeReady _), rep⟩ => .at (.report left (rep.toOption.getD false))
  | .report left ready, ⟨.talos _ (.version _), rep⟩ => .at (afterReport view left ready rep)
  | .wait left ready version, ⟨.wait _ _, done⟩ => .at (afterWait view addr ready version left done)
  | .uncordon, ⟨.kube _ _ (.uncordon _), rep⟩ => .at (orFail "uncordon: " (fun _ => .markDone) rep)
  | .markDone, _ => .leave none
  | .markFailed msg, _ => .leave (some (.error ("rollout halted at " ++ addr ++ ": " ++ msg)))
  -- an event of another operation, which is not issued here
  | s, _ => .at s

/-! ## One pass -/

/-- The next member, or the end of the pass. -/
def nextMember (visited : List String) : List String → PoolPos
  | [] => .returned (.ok ())
  | addr :: todo => .member view visited addr todo .record

/-- The place after a step inside a visit. -/
def settleStep (visited : List String) (todo : List String) : StageStep → PoolPos
  | .at s => .member view visited addr todo s
  | .leave none => nextMember view (visited ++ [addr]) todo
  | .leave (some result) => .returned result

/-- The pass knows its target. -/
def withTarget (cluster pool : String) (np : NodePool) (target : String) : PoolPos :=
  if target = "" then
    .returned (.error ("rollout: no target Talos version for " ++ cluster ++ "/" ++ pool))
  else .nodes np target

/-- The pass has read its pool. -/
def withPool (cluster pool : String) (np : NodePool) : PoolPos :=
  if np.paused then .returned (.ok ())
  else if np.desiredTalosVersion ≠ "" then withTarget cluster pool np np.desiredTalosVersion
  else .cluster np

def poolIssues (cluster pool : String) : PoolPos → Option Op
  | .pool => some (.store (.getNodePool cluster pool))
  | .cluster _ => some (.store (.getCluster cluster))
  | .nodes _ _ => some (.kube r.client "" .listNodes)
  | .member view _ addr _ stage => some (r.stageIssues view addr stage)
  | .returned _ => none

def poolNext (cluster pool : String) : PoolPos → Ev → PoolPos
  | .pool, ⟨.store (.getNodePool _ _), rep⟩ =>
    match rep with
    | .error e => .returned (.error e.text)
    | .ok (none, _) =>
      .returned (.error
        ("rollout: nodepool " ++ quote cluster ++ "/" ++ quote pool ++ " not found"))
    | .ok (some np, _) => withPool cluster pool np
  | .cluster np, ⟨.store (.getCluster _), rep⟩ =>
    match rep with
    | .error e => .returned (.error e.text)
    | .ok (none, _) => .returned (.error ("rollout: cluster " ++ quote cluster ++ " not found"))
    | .ok (some cl, _) => withTarget cluster pool np cl.desiredTalosVersion
  | .nodes np target, ⟨.kube _ _ .listNodes, rep⟩ =>
    match rep with
    | .error e => .returned (.error ("list nodes: " ++ e))
    | .ok nodes => nextMember ⟨cluster, np, target, nodes⟩ [] (sortStrings np.members)
  | .member view visited addr todo stage, ev =>
    settleStep view addr visited todo (r.stageNext view addr stage ev)
  | pos, _ => pos

/-! ## One Kubernetes upgrade -/

/-- Mark the cluster failed and end. -/
def k8sFailed (msg : String) : K8sPos := .settle .failed msg

def k8sIssues (cluster target : String) : K8sPos → Option Op
  | .start => some (.store (.putClusterRollout
      { cluster, phase := .upgrading, targetKubernetesVersion := target, message := "upgrading" }))
  | .nodes => some (.kube r.client "" .listNodes)
  | .mkdir _ _ => some (.mkdirAll r.snapshotDir)
  | .openFile cpIP _ => some (.openFile (r.snapshotPath cluster cpIP))
  | .snapshot cpIP _ =>
    some (.talos r.client (.etcdSnapshot cpIP (r.snapshotPath cluster cpIP)))
  | .closeFile cpIP _ _ => some (.closeFile (r.snapshotPath cluster cpIP))
  | .upgrade src => some (.upgradeK8s r.client src target)
  | .verify => some (.kube r.client "" .listNodes)
  | .settle phase msg => some (.store (.putClusterRollout
      { cluster, phase, targetKubernetesVersion := target, message := msg }))
  | .returned _ => none

/-- The first node that did not converge decides. -/
def afterVerify (target : String) (nodes : List NodeInfo) : K8sPos :=
  match nodes.find? fun n => !sameVersion n.kubeletVersion target with
  | some n => k8sFailed ("node " ++ n.name ++ " at " ++ n.kubeletVersion ++ ", want " ++ target)
  | none => .settle .idle ""

/-- The decision on the first node list. -/
def afterNodes (target : String) (nodes : List NodeInfo) : K8sPos :=
  if (controlPlaneOf nodes).1 = "" then k8sFailed "no control-plane node found"
  else if sameVersion (controlPlaneOf nodes).2 target then .settle .idle ""
  else .mkdir (controlPlaneOf nodes).1 (controlPlaneOf nodes).2

def k8sOrFail {α : Type} (what : String) (k : α → K8sPos) : Except String α → K8sPos
  | .error e => k8sFailed (what ++ e)
  | .ok a => k a

def k8sNext (target : String) : K8sPos → Ev → K8sPos
  | .start, _ => .nodes
  | .nodes, ⟨.kube _ _ .listNodes, rep⟩ => k8sOrFail "list nodes: " (afterNodes target) rep
  | .mkdir cpIP src, ⟨.mkdirAll _, rep⟩ =>
    k8sOrFail "etcd snapshot: " (fun _ => .openFile cpIP src) rep
  | .openFile cpIP src, ⟨.openFile _, rep⟩ =>
    k8sOrFail "etcd snapshot: " (fun _ => .snapshot cpIP src) rep
  | .snapshot cpIP src, ⟨.talos _ (.etcdSnapshot _ _), rep⟩ => .closeFile cpIP src rep
  | .closeFile _ _ (.error e), _ => k8sFailed ("etcd snapshot: " ++ e)
  | .closeFile _ src (.ok ()), ⟨.closeFile _, rep⟩ =>
    k8sOrFail "etcd snapshot: " (fun _ => .upgrade src) rep
  | .upgrade _, ⟨.upgradeK8s _ _ _, rep⟩ => k8sOrFail "upgrade-k8s: " (fun _ => .verify) rep
  | .verify, ⟨.kube _ _ .listNodes, rep⟩ =>
    k8sOrFail "post-upgrade list nodes: " (afterVerify target) rep
  -- the phase tells the two ends apart
  | .settle .idle _, _ => .returned (.ok ())
  | .settle _ msg, _ => .returned (.error ("k8s rollout halted: " ++ msg))
  | pos, _ => pos

/-- The first place of a Kubernetes upgrade. -/
def k8sStart (cluster target : String) : K8sPos :=
  if target = "" then
    .returned (.error ("rollout: no target Kubernetes version for " ++ cluster))
  else .start

end RolloutReconciler

/-! ## The executor -/

namespace RolloutExecutor

/-- The record of a job that ended. -/
def outcome (job : Rollout) : Except String Unit → Rollout
  | .error e => { job with state := .failed, message := e }
  | .ok () => { job with state := .done, message := "" }

/-- The next enabled cluster, or the end of the pass. -/
def scanClusters : List Cluster → ExecPos
  | [] => .idle
  | cl :: todo => if cl.rolloutsEnabled then .jobs cl todo else scanClusters todo

/-- The next actionable job of the cluster, or the next cluster. -/
def scanJobs (cl : Cluster) (todo : List Cluster) : List Rollout → ExecPos
  | [] => scanClusters todo
  | job :: jobs =>
    if actionable job.state then .connect ⟨todo, cl, jobs, job⟩ else scanJobs cl todo jobs

/-- The job in hand is over. -/
def afterJob (f : JobFrame) : ExecPos := scanJobs f.cl f.clusters f.jobs

variable (e : RolloutExecutor)

/-- The reconciler of the job in hand. -/
def reconcilerOf (f : JobFrame) : RolloutReconciler := e.reconciler f.cl f.job

/-- Where a job goes once its clients are built. -/
def dispatch (f : JobFrame) : ExecPos :=
  match f.job.kind with
  | .talos => .markRunning f
  | .kubernetes =>
    if e.k8sFactory then .connectK8s f else .reject f "kubernetes upgrader not configured"
  | .unspecified => .reject f "unknown rollout kind"

/-- The operation issued at a place. -/
def issues : ExecPos → Option Op
  | .idle => none
  | .clusters => some (.store .listClusters)
  | .jobs cl _ => some (.store (.listRolloutJobs cl.name))
  | .connect f => some (.connect f.cl (.rollout f.job))
  | .markRunning f => some (.store (.putRolloutJob { f.job with state := .running }))
  -- a pass that has returned has its job to record, with the frame it was listed with
  | .pool f (.returned result) => some (.store (.putRolloutJob (outcome f.job result)))
  | .pool f pos => (e.reconcilerOf f).poolIssues f.cl.name f.job.pool pos
  | .connectK8s f => some (.connectK8s f.cl (.rollout f.job))
  | .markRunningK8s f => some (.store (.putRolloutJob { f.job with state := .running }))
  | .k8s f (.returned result) => some (.store (.putRolloutJob (outcome f.job result)))
  | .k8s f pos => (e.reconcilerOf f).k8sIssues f.cl.name f.job.targetVersion pos
  | .reject f msg => some (.store (.putRolloutJob { f.job with state := .failed, message := msg }))

/-- The place after an event. -/
def next : ExecPos → Ev → ExecPos
  | .clusters, ⟨.store .listClusters, rep⟩ =>
    match rep with
    -- the pass is given up
    | .error _ => .idle
    | .ok clusters => scanClusters clusters
  | .jobs cl todo, ⟨.store (.listRolloutJobs _), rep⟩ =>
    match rep with
    | .error _ => .idle
    | .ok jobs => scanJobs cl todo jobs
  | .connect f, ⟨.connect _ _, rep⟩ =>
    match rep with
    -- the job is left as it is, and the next one comes
    | .error _ => afterJob f
    | .ok () => e.dispatch f
  | .markRunning f, _ => .pool f .pool
  | .pool f (.returned _), _ => afterJob f
  | .pool f pos, ev => .pool f ((e.reconcilerOf f).poolNext f.cl.name f.job.pool pos ev)
  | .connectK8s f, ⟨.connectK8s _ _, rep⟩ =>
    match rep with
    | .error _ => afterJob f
    | .ok () => .markRunningK8s f
  | .markRunningK8s f, _ =>
    .k8s f (RolloutReconciler.k8sStart f.cl.name f.job.targetVersion)
  | .k8s f (.returned _), _ => afterJob f
  | .k8s f pos, ev => .k8s f (RolloutReconciler.k8sNext f.job.targetVersion pos ev)
  | .reject f _, _ => afterJob f
  | pos, _ => pos

/-- The machine as a contract: only the executor moves, and every answer is possible. -/
def control : Contract medeaSig ExecPos :=
  .quiet (fun _ _ => True) (fun pos ev => e.issues pos = some ev.op) e.next

end RolloutExecutor

end Medea
