import Mathlib.Algebra.Group.Int.Defs
import Mathlib.Data.List.Basic

/-!
# The records of the control plane

The messages of `medea.v1` and the node view of the kube client, field by field. A submessage that
may be absent is an `Option`; a map field is a list of pairs with distinct keys. Enumerations list
the values the schema declares. Revisions are natural numbers: the counter is a `uint64` and the
model does not wrap it.
-/

set_option autoImplicit false

namespace Medea

/-- Opaque file or message contents. -/
abbrev Bytes := List UInt8

/-- Role of a node or a node pool. -/
inductive Role where
  | unspecified
  | controlplane
  | worker
  deriving DecidableEq, Inhabited

/-- How rollouts are triggered; `unspecified` counts as manual. -/
inductive ClusterMode where
  | unspecified
  | manual
  | auto
  deriving DecidableEq, Inhabited

structure ClusterDesired where
  talosVersion : String := ""
  kubernetesVersion : String := ""
  deriving DecidableEq, Inhabited

structure ClusterObserved where
  kubernetesVersion : String := ""
  controlPlaneReady : Bool := false
  deriving DecidableEq, Inhabited

structure ClusterEndpoints where
  talos : List String := []
  kube : String := ""
  deriving DecidableEq, Inhabited

/-- Cluster-wide desired state and the two per-cluster guards. -/
structure Cluster where
  name : String
  desired : Option ClusterDesired := none
  observed : Option ClusterObserved := none
  endpoints : Option ClusterEndpoints := none
  revision : Nat := 0
  mode : ClusterMode := .unspecified
  rolloutsEnabled : Bool := false
  provisioningEnabled : Bool := false
  deriving DecidableEq, Inhabited

structure NodePoolDesired where
  /-- Empty means the cluster's version. -/
  talosVersion : String := ""
  deriving DecidableEq, Inhabited

/-- `google.protobuf.Duration`. -/
structure ProtoDuration where
  seconds : Int
  nanos : Int
  deriving DecidableEq, Inhabited

structure RolloutStrategy where
  maxUnavailable : Nat := 0
  drainTimeout : Option ProtoDuration := none
  haltOnFailure : Bool := false
  snapshotBeforeControlPlane : Bool := false
  deriving DecidableEq, Inhabited

/-- A group of like nodes. -/
structure NodePool where
  cluster : String
  name : String
  role : Role := .unspecified
  members : List String := []
  desired : Option NodePoolDesired := none
  strategy : Option RolloutStrategy := none
  paused : Bool := false
  revision : Nat := 0
  replicas : Nat := 0
  selector : List (String × String) := []
  extensions : List String := []
  deriving DecidableEq, Inhabited

inductive HostState where
  | unspecified
  | registered
  | allocated
  | provisioning
  | ready
  | failed
  | deprovisioning
  deriving DecidableEq, Inhabited

/-- A piece of bare metal, identified by its MAC. -/
structure Host where
  cluster : String
  mac : String
  pool : String := ""
  labels : List (String × String) := []
  addr : String := ""
  role : Role := .unspecified
  state : HostState := .unspecified
  message : String := ""
  revision : Nat := 0
  provisioningStartedAt : String := ""
  deriving DecidableEq, Inhabited

inductive MachinePhase where
  | unspecified
  | provisioning
  | booting
  | joining
  | ready
  | draining
  | resetting
  | notReady
  deriving DecidableEq, Inhabited

structure MachineObserved where
  phase : MachinePhase := .unspecified
  talosVersion : String := ""
  kubernetesVersion : String := ""
  healthy : Bool := false
  deriving DecidableEq, Inhabited

/-- One node, identified by its Talos endpoint. -/
structure Machine where
  cluster : String
  pool : String := ""
  talosEndpoint : String
  role : Role := .unspecified
  observed : Option MachineObserved := none
  revision : Nat := 0
  deriving DecidableEq, Inhabited

inductive RolloutState where
  | unspecified
  | idle
  | draining
  | upgrading
  | waitingHealthy
  | done
  | failed
  deriving DecidableEq, Inhabited

/-- Progress of one node towards a Talos version. -/
structure MachineRollout where
  cluster : String
  addr : String
  state : RolloutState := .unspecified
  targetTalosVersion : String := ""
  message : String := ""
  revision : Nat := 0
  deriving DecidableEq, Inhabited

inductive ClusterRolloutPhase where
  | unspecified
  | idle
  | upgrading
  | failed
  deriving DecidableEq, Inhabited

/-- Progress of a cluster-wide Kubernetes upgrade. -/
structure ClusterRollout where
  cluster : String
  phase : ClusterRolloutPhase := .unspecified
  targetKubernetesVersion : String := ""
  message : String := ""
  revision : Nat := 0
  deriving DecidableEq, Inhabited

inductive ClusterBootstrapPhase where
  | unspecified
  | notBootstrapped
  | generatingSecrets
  | staging
  | awaitingInstall
  | bootstrapping
  | awaitingHealthy
  | fetchingKubeconfig
  | ready
  | failed
  deriving DecidableEq, Inhabited

/-- Creation of a new single-control-plane cluster. -/
structure ClusterBootstrap where
  cluster : String
  phase : ClusterBootstrapPhase := .unspecified
  cpMac : String := ""
  cpEndpoint : String := ""
  cpIp : String := ""
  talosVersion : String := ""
  kubernetesVersion : String := ""
  installDisk : String := ""
  extensions : List String := []
  message : String := ""
  startedAt : String := ""
  revision : Nat := 0
  cni : String := ""
  disableKubeProxy : Bool := false
  patches : List Bytes := []
  deriving DecidableEq, Inhabited

inductive RolloutKind where
  | unspecified
  | talos
  | kubernetes
  deriving DecidableEq, Inhabited

inductive RolloutJobState where
  | unspecified
  | pending
  | running
  | paused
  | failed
  | done
  | cancelled
  deriving DecidableEq, Inhabited

/-- The job that authorizes and tracks an upgrade. -/
structure Rollout where
  cluster : String
  pool : String := ""
  kind : RolloutKind := .unspecified
  targetVersion : String := ""
  state : RolloutJobState := .unspecified
  createdBy : String := ""
  createdAt : String := ""
  plannedTargets : List String := []
  message : String := ""
  revision : Nat := 0
  deriving DecidableEq, Inhabited

/-- The kube client's view of a node. -/
structure NodeInfo where
  name : String
  internalIP : String
  role : String
  kubeletVersion : String
  ready : Bool
  deriving DecidableEq, Inhabited

/-- The node a map keyed by internal address holds: later entries overwrite earlier ones. -/
def nodeAt (nodes : List NodeInfo) (addr : String) : Option NodeInfo :=
  nodes.reverse.find? fun n => n.internalIP == addr

/-! ## Getters on absent submessages -/

/-- `GetDesired().GetTalosVersion()`. -/
def NodePool.desiredTalosVersion (np : NodePool) : String :=
  (np.desired.map (·.talosVersion)).getD ""

/-- `GetDesired().GetTalosVersion()`. -/
def Cluster.desiredTalosVersion (c : Cluster) : String :=
  (c.desired.map (·.talosVersion)).getD ""

/-- `GetDesired().GetKubernetesVersion()`. -/
def Cluster.desiredKubernetesVersion (c : Cluster) : String :=
  (c.desired.map (·.kubernetesVersion)).getD ""

/-- `GetStrategy().GetMaxUnavailable()`. -/
def NodePool.strategyMaxUnavailable (np : NodePool) : Nat :=
  (np.strategy.map (·.maxUnavailable)).getD 0

/-- `GetStrategy().GetSnapshotBeforeControlPlane()`. -/
def NodePool.snapshotBeforeControlPlane (np : NodePool) : Bool :=
  (np.strategy.map (·.snapshotBeforeControlPlane)).getD false

/-- `AsDuration`: nanoseconds, saturating at the bounds of an `int64`. -/
def ProtoDuration.asDuration (d : ProtoDuration) : Int :=
  let whole := d.seconds * 1000000000
  let total := whole + d.nanos
  if whole < -2 ^ 63 ∨ 2 ^ 63 ≤ whole ∨ total < -2 ^ 63 ∨ 2 ^ 63 ≤ total then
    if d.seconds < 0 then -2 ^ 63 else 2 ^ 63 - 1
  else total

/-- `GetStrategy().GetDrainTimeout().AsDuration()`, zero when absent. -/
def NodePool.strategyDrainTimeout (np : NodePool) : Int :=
  ((np.strategy.bind (·.drainTimeout)).map (·.asDuration)).getD 0

/-- `GetEndpoints().GetKube()`. -/
def Cluster.kubeEndpoint (c : Cluster) : String :=
  (c.endpoints.map (·.kube)).getD ""

end Medea
