import Medea.Interaction.System
import Medea.Inventory.Store
import Medea.Inventory.Text

/-!
# The operations of the control plane

Everything the control plane does to the outside is one of these operations: the calls on the
store interface, the calls on the Talos and kube clients, the boot provisioner, the credential
store, files and the clock. `StoreOp.exec` answers a store call; what the other calls answer is
left open, so a statement about programs holds for every sequence of responses.

A client value stands for the object a factory returned. The code builds fresh clients for every
piece of work, so a client carries the work it was built for: the job, for a rollout. A kube call
also carries the address of the pool member it is made for, and a provisioner call the cluster;
neither has any influence on the call.
-/

set_option autoImplicit false

namespace Medea

open Medea.Interaction

/-- The calls on the store interface. -/
inductive StoreOp where
  | getCluster (cluster : String)
  | listClusters
  | putClusterDesired (c : Cluster) (expected : Nat)
  | getNodePool (cluster name : String)
  | listNodePools (cluster : String)
  | putNodePoolDesired (np : NodePool) (expected : Nat)
  | getMachine (cluster addr : String)
  | listMachines (cluster pool : String)
  | putMachineDesired (m : Machine) (expected : Nat)
  | deleteMachine (cluster addr : String)
  | getHost (cluster mac : String)
  | listHosts (cluster pool : String)
  | putHostDesired (h : Host) (expected : Nat)
  | deleteHost (cluster mac : String)
  | deleteCluster (cluster : String)
  | getMachineRollout (cluster addr : String)
  | putMachineRollout (r : MachineRollout)
  | getClusterRollout (cluster : String)
  | putClusterRollout (r : ClusterRollout)
  | getClusterBootstrap (cluster : String)
  | putClusterBootstrap (r : ClusterBootstrap)
  | listClusterBootstraps
  | getRolloutJob (cluster pool : String)
  | listRolloutJobs (cluster : String)
  | putRolloutJob (r : Rollout)
  | setClusterObserved (cluster : String) (o : ClusterObserved)
  | setMachineObserved (cluster addr : String) (o : MachineObserved)
  deriving DecidableEq

/-- What a store call returns when it does not fail. -/
@[reducible] def StoreOp.Value : StoreOp → Type
  | .getCluster _ => Option Cluster × Nat
  | .listClusters => List Cluster
  | .putClusterDesired _ _ => Nat
  | .getNodePool _ _ => Option NodePool × Nat
  | .listNodePools _ => List NodePool
  | .putNodePoolDesired _ _ => Nat
  | .getMachine _ _ => Option Machine × Nat
  | .listMachines _ _ => List Machine
  | .putMachineDesired _ _ => Nat
  | .deleteMachine _ _ => Unit
  | .getHost _ _ => Option Host × Nat
  | .listHosts _ _ => List Host
  | .putHostDesired _ _ => Nat
  | .deleteHost _ _ => Unit
  | .deleteCluster _ => Unit
  | .getMachineRollout _ _ => Option MachineRollout
  | .putMachineRollout _ => Unit
  | .getClusterRollout _ => Option ClusterRollout
  | .putClusterRollout _ => Unit
  | .getClusterBootstrap _ => Option ClusterBootstrap
  | .putClusterBootstrap _ => Unit
  | .listClusterBootstraps => List ClusterBootstrap
  | .getRolloutJob _ _ => Option Rollout
  | .listRolloutJobs _ => List Rollout
  | .putRolloutJob _ => Unit
  | .setClusterObserved _ _ => Unit
  | .setMachineObserved _ _ _ => Unit

/-- The answer of an open store to a call, and the store after it. -/
def StoreOp.exec (s : Store) : (op : StoreOp) → Except StoreError op.Value × Store
  | .getCluster cluster => (.ok (s.getCluster cluster), s)
  | .listClusters => (.ok s.listClusters, s)
  | .putClusterDesired c expected => s.putClusterDesired c expected
  | .getNodePool cluster name => (.ok (s.getNodePool cluster name), s)
  | .listNodePools cluster => (.ok (s.listNodePools cluster), s)
  | .putNodePoolDesired np expected => s.putNodePoolDesired np expected
  | .getMachine cluster addr => (.ok (s.getMachine cluster addr), s)
  | .listMachines cluster pool => (.ok (s.listMachines cluster pool), s)
  | .putMachineDesired m expected => s.putMachineDesired m expected
  | .deleteMachine cluster addr => s.deleteMachine cluster addr
  | .getHost cluster mac => (.ok (s.getHost cluster mac), s)
  | .listHosts cluster pool => (.ok (s.listHosts cluster pool), s)
  | .putHostDesired h expected => s.putHostDesired h expected
  | .deleteHost cluster mac => s.deleteHost cluster mac
  | .deleteCluster cluster => s.deleteCluster cluster
  | .getMachineRollout cluster addr => (.ok (s.getMachineRollout cluster addr), s)
  | .putMachineRollout r => s.putMachineRollout r
  | .getClusterRollout cluster => (.ok (s.getClusterRollout cluster), s)
  | .putClusterRollout r => s.putClusterRollout r
  | .getClusterBootstrap cluster => (.ok (s.getClusterBootstrap cluster), s)
  | .putClusterBootstrap r => s.putClusterBootstrap r
  | .listClusterBootstraps => (.ok s.listClusterBootstraps, s)
  | .getRolloutJob cluster pool => (.ok (s.getRolloutJob cluster pool), s)
  | .listRolloutJobs cluster => (.ok (s.listRolloutJobs cluster), s)
  | .putRolloutJob r => s.putRolloutJob r
  | .setClusterObserved cluster o => (.ok (), s.setClusterObserved cluster o)
  | .setMachineObserved cluster addr o => (.ok (), s.setMachineObserved cluster addr o)

/-- The calls that write the file, which may fail. -/
def StoreOp.writes : StoreOp → Bool
  | .putClusterDesired _ _ | .putNodePoolDesired _ _ | .putMachineDesired _ _
  | .deleteMachine _ _ | .putHostDesired _ _ | .deleteHost _ _ | .deleteCluster _
  | .putMachineRollout _ | .putClusterRollout _ | .putClusterBootstrap _ | .putRolloutJob _ => true
  | _ => false

/-- What a set of clients was built for. -/
inductive Work where
  | seeding
  | refresh
  | rollout (job : Rollout)
  | provisioning (pool : String)
  | bootstrap
  deriving DecidableEq

/-- The clients of one cluster, built for one piece of work. -/
structure Client where
  cluster : String
  work : Work
  deriving DecidableEq

/-- Calls on a Talos client. A snapshot is streamed into the file at `path`. -/
inductive TalosOp where
  | version (node : String)
  | installImage (node : String)
  | upgradeOS (node image : String)
  | etcdSnapshot (node path : String)
  | bootstrap (node : String)
  | kubeconfig (node : String)
  deriving DecidableEq

@[reducible] def TalosOp.Value : TalosOp → Type
  | .version _ => String
  | .installImage _ => String
  | .upgradeOS _ _ => Unit
  | .etcdSnapshot _ _ => Unit
  | .bootstrap _ => Unit
  | .kubeconfig _ => Bytes

/-- Calls on a kube client. -/
inductive KubeOp where
  | listNodes
  | drain (name : String) (timeout : Int)
  | uncordon (name : String)
  | nodeReady (name : String)
  deriving DecidableEq

@[reducible] def KubeOp.Value : KubeOp → Type
  | .listNodes => List NodeInfo
  | .drain _ _ => Unit
  | .uncordon _ => Unit
  | .nodeReady _ => Bool

/-- The network-boot configuration of a host. -/
structure Profile where
  kernel : String
  initrd : List String
  args : List String
  deriving DecidableEq

/-- Input of the configuration generator of the Talos machinery. -/
structure GeneratorInput where
  clusterName : String
  controlPlaneEndpoint : String
  kubernetesVersion : String
  installDisk : Option String := none
  installImage : Option String := none
  allowSchedulingOnControlPlanes : Option Bool := none
  secrets : Bytes
  deriving DecidableEq

/-- Calls on the boot provisioner. -/
inductive ProvisionerOp where
  | stage (mac : String) (profile : Profile) (machineConfig : Bytes)
  | unstage (mac : String)
  deriving DecidableEq

/-- Calls on the credential store. -/
inductive CredsOp where
  | talosConfig (cluster : String)
  | kubeConfig (cluster : String)
  | secrets (cluster : String)
  | put (cluster : String) (talos kube : Bytes)
  | putSecrets (cluster : String) (bundle : Bytes)
  | delete (cluster : String)
  deriving DecidableEq

@[reducible] def CredsOp.Value : CredsOp → Type
  | .talosConfig _ | .kubeConfig _ | .secrets _ => Bytes
  | .put _ _ _ | .putSecrets _ _ | .delete _ => Unit

/-- The parts of the Talos machinery that turn a secrets bundle into configurations. -/
inductive MachineryOp where
  | generateSecrets
  | marshalSecrets (bundle : Bytes)
  | loadSecrets (raw : Bytes)
  | workerConfig (input : GeneratorInput)
  | controlPlaneConfig (input : GeneratorInput)
  | talosconfig (input : GeneratorInput)
  | loadPatch (patch : Bytes)
  | applyPatches (config : Bytes) (patches : List Bytes)
  deriving DecidableEq

/-- gRPC status codes the server uses. -/
inductive Code where
  | invalidArgument
  | notFound
  | aborted
  | failedPrecondition
  | unimplemented
  | internal
  deriving DecidableEq

structure Status where
  code : Code
  message : String
  deriving DecidableEq

/-- The message an RPC returns. -/
inductive Response where
  | cluster (c : Cluster)
  | clusters (cs : List Cluster)
  | nodePools (nps : List NodePool)
  | machines (ms : List Machine)
  | hosts (hs : List Host)
  | host (h : Host)
  | credentials (talosconfig kubeconfig secrets : Option Bytes)
  | bootstrap (cb : ClusterBootstrap)
  | rollout (cluster : Option ClusterRollout) (machines : List MachineRollout)
  | job (r : Option Rollout)
  | jobs (rs : List Rollout)
  | revision (rev : Nat)
  | empty
  deriving DecidableEq

/-- Every operation the control plane can issue. -/
inductive Op where
  | store (op : StoreOp)
  /-- The client factory of the work. -/
  | connect (cl : Cluster) (work : Work)
  /-- The factory of the Kubernetes upgrader. -/
  | connectK8s (cl : Cluster) (work : Work)
  /-- The client of a control plane that is being created. -/
  | connectBootstrap (cluster : String) (talosconfig : Bytes) (node : String)
  | talos (client : Client) (call : TalosOp)
  | kube (client : Client) (member : String) (call : KubeOp)
  | upgradeK8s (client : Client) (src dst : String)
  /-- The select at the end of a health poll, with the number of polls the timeout still allows;
  the answer says whether the context is done. -/
  | wait (client : Client) (left : Nat)
  | mkdirAll (dir : String)
  | openFile (path : String)
  | closeFile (path : String)
  /-- The clock, in nanoseconds since the epoch. -/
  | now
  | provisioner (cluster : String) (call : ProvisionerOp)
  | resolve (extensions : List String)
  | creds (call : CredsOp)
  | machinery (call : MachineryOp)
  | respond (result : Except Status Response)

/-- The answer to an operation; errors of the outside are their texts. -/
@[reducible] def Op.Reply : Op → Type
  | .store op => Except StoreError op.Value
  | .connect _ _ | .connectK8s _ _ | .connectBootstrap _ _ _ => Except String Unit
  | .talos _ call => Except String call.Value
  | .kube _ _ call => Except String call.Value
  | .upgradeK8s _ _ _ => Except String Unit
  | .wait _ _ => Bool
  | .mkdirAll _ | .openFile _ | .closeFile _ => Except String Unit
  | .now => Nat
  | .provisioner _ _ => Except String Unit
  | .resolve _ => Except String String
  | .creds call => Except String call.Value
  | .machinery _ => Except String Bytes
  | .respond _ => Unit

/-- Everything may be answered. -/
theorem Op.reply_nonempty (op : Op) : Nonempty op.Reply := by
  cases op with
  | wait => exact ⟨true⟩
  | now => exact ⟨(0 : Nat)⟩
  | respond => exact ⟨()⟩
  | store => exact ⟨.error .conflict⟩
  | _ => exact ⟨.error ""⟩

/-- The signature of the control plane. -/
@[reducible] def medeaSig : Signature where
  Op := Op
  Reply := Op.Reply

/-- The programs of the control plane. -/
abbrev Prog := Program medeaSig

/-- The events of a run of the control plane. -/
abbrev Ev := Event medeaSig

/-- An event: the operation with its answer. -/
abbrev ev (op : Op) (r : op.Reply) : Ev := ⟨op, r⟩

/-- Issue one operation. -/
def call (op : Op) : Prog op.Reply := Program.perform (S := medeaSig) op

/-- Issue one call on the store. -/
def callStore (op : StoreOp) : Prog (Except StoreError op.Value) := call (.store op)

/-- Issue one call on a Talos client. -/
def callTalos (c : Client) (op : TalosOp) : Prog (Except String op.Value) := call (.talos c op)

/-- Issue one call on a kube client, for a pool member. -/
def callKube (c : Client) (member : String) (op : KubeOp) : Prog (Except String op.Value) :=
  call (.kube c member op)

end Medea
