import Medea.ControlPlane.Scope

/-!
# What the tasks write

Every task except a rollout pass is bound by one discipline on what it writes, given what it reads.
Node pools keep their strategy and their replicas, machine and cluster rollout records are not written
at all, jobs are written as ordered, and a chosen guard of a chosen cluster is never raised except by
the request that raises it. `Settings.task_follows` states it for all tasks; there is one lemma per
function.

A `Discipline` fixes the cluster names in use, the guard that is watched, and whether the records are
all of the server's own making. Then no pool has a strategy or replicas, and no host is used. With no
guard and all names it is a plain bound on the operations of the tasks.
-/

set_option autoImplicit false

namespace Medea

open Medea.Interaction

/-- The two guards of a cluster. -/
inductive Guard where
  | rollouts
  | provisioning
  deriving DecidableEq

/-- The flag of a guard. -/
def Guard.of : Guard → Cluster → Bool
  | .rollouts, cl => cl.rolloutsEnabled
  | .provisioning, cl => cl.provisioningEnabled

/-- The request that raises a guard. -/
def Guard.enable : Guard → String → Request
  | .rollouts, c => .enableRollouts c
  | .provisioning, c => .enableProvisioning c

/-- The cluster names a task brings with it. -/
def Request.clusters : Request → List String
  | .createCluster req => [req.name]
  | .createRollout req => [req.cluster]
  | .registerHost req => [req.cluster]
  | _ => []

def Task.clusters : Task → List String
  | .request req => req.clusters
  | .seed input => [input.cluster]
  | .inject job => [job.cluster]
  | _ => []

/-- The clusters of which a task brings the first records. -/
def Request.founds : Request → List String
  | .createCluster req => [req.name]
  | _ => []

def Task.founds : Task → List String
  | .request req => req.founds
  | .seed input => [input.cluster]
  | .inject job => [job.cluster]
  | _ => []

theorem Task.founds_subset_clusters (t : Task) : t.founds ⊆ t.clusters := by
  cases t with
  | request req =>
    cases req with
    | createCluster req => exact List.Subset.refl _
    | _ => exact List.nil_subset _
  | _ => exact List.Subset.refl _

/-- The task orders the job: a request to create it, or the record itself. -/
def Task.orders (job : Rollout) : Task → Prop
  | .request (.createRollout req) => job.cluster = req.cluster ∧ job.pool = req.pool
  | .inject job' => job = job'
  | _ => False

/-- Cluster names in use, and a guard of a cluster that is watched. To keep the hosts of one cluster
apart from those of another, the names have to be plain where provisioning is watched. -/
structure Discipline where
  named : String → Prop
  guard : Option (Guard × String)
  plain : ∀ {c a}, guard = some (.provisioning, c) → named a → PlainName a
  /-- No other tool has written records. -/
  fresh : Prop

namespace Discipline

variable (D : Discipline)

/-- A cluster record in order: its name is in use, and the watched guard is down. -/
structure ClusterOk (cl : Cluster) : Prop where
  named : D.named cl.name
  down : ∀ {g c}, D.guard = some (g, c) → cl.name = c → g.of cl = false

/-- A node pool in order: its cluster is in use, and as the server makes it, it asks neither for
snapshots nor for replicas. -/
structure PoolOk (np : NodePool) : Prop where
  named : D.named np.cluster
  bare : D.fresh → np.snapshotBeforeControlPlane = false ∧ np.replicas = 0

/-- A host in order: its cluster is in use, and where no pool has replicas it is only registered. -/
structure HostOk (h : Host) : Prop where
  named : D.named h.cluster
  unused : D.fresh → h.state = .registered ∧ h.addr = ""

/-- What the store returns, when its records are in order. -/
def reads : Ev → Prop
  | ⟨.store (.getCluster name), .ok (some cl, _)⟩ => cl.name = name ∧ D.ClusterOk cl
  | ⟨.store .listClusters, .ok cls⟩ => ∀ cl ∈ cls, D.ClusterOk cl
  | ⟨.store (.getNodePool cluster name), .ok (some np, _)⟩ =>
    ckey np.cluster np.name = ckey cluster name ∧ D.PoolOk np
  | ⟨.store (.getMachine cluster addr), .ok (some m, _)⟩ =>
    ckey m.cluster m.talosEndpoint = ckey cluster addr ∧ D.named m.cluster
  | ⟨.store (.getHost cluster mac), .ok (some h, _)⟩ =>
    ckey h.cluster h.mac = ckey cluster mac ∧ D.HostOk h
  | ⟨.store (.getClusterBootstrap _), .ok (some cb)⟩ => D.named cb.cluster
  | ⟨.store .listClusterBootstraps, .ok cbs⟩ => ∀ cb ∈ cbs, D.named cb.cluster
  | _ => True

/-- The task is the one that may raise the watched guard of the record. -/
def Raises (t : Task) (cl : Cluster) : Prop :=
  ∃ g c, D.guard = some (g, c) ∧ cl.name = c ∧ t = .request (g.enable c)

/-- What a task may write. -/
def writes (t : Task) : Op → Prop
  | .store (.putClusterDesired cl _) => D.ClusterOk cl ∨ D.named cl.name ∧ D.Raises t cl
  | .store (.putNodePoolDesired np _) => D.PoolOk np
  | .store (.putMachineDesired m _) => D.named m.cluster
  | .store (.putHostDesired h _) => D.HostOk h
  | .store (.putClusterBootstrap cb) => D.named cb.cluster
  | .store (.putRolloutJob job) => D.named job.cluster ∧ t.orders job ∧
      ∀ c req, t = .request req → D.guard = some (.rollouts, c) → job.cluster ≠ c
  | .store (.putMachineRollout _) => False
  | .store (.putClusterRollout _) => False
  | _ => True

/-- What a task may do: write in order, and leave a cluster alone whose provisioning is down. -/
structure Allows (t : Task) (op : Op) : Prop where
  writes : D.writes t op
  spares : ∀ {c}, t = .provisionPass → D.guard = some (.provisioning, c) → ¬op.touches c

/-- The program follows the discipline of the task. -/
abbrev Follows {α : Type} (t : Task) (Q : α → Prop) (p : Prog α) : Prop :=
  p.Within D.reads (D.Allows t) Q

/-- Following the discipline, whatever is returned. -/
abbrev Orderly {α : Type} (t : Task) (p : Prog α) : Prop := D.Follows t (fun _ => True) p

variable {D} {t : Task}

theorem follows_call {α : Type} {Q : α → Prop} {op : Op} {k : op.Reply → Prog α}
    (ha : D.Allows t op) (hk : ∀ rep, D.reads ⟨op, rep⟩ → D.Follows t Q (k rep)) :
    D.Follows t Q (call op >>= k) := ⟨ha, hk⟩

theorem orderly_last {op : Op} (ha : D.Allows t op) : D.Orderly t (call op) :=
  ⟨ha, fun _ _ => trivial⟩

theorem orderly_discard {α : Type} {p : Prog α} (hp : D.Orderly t p) : D.Orderly t (discard p) :=
  hp.bind fun _ _ => trivial

/-- A task other than a provisioning pass only has to write in order. -/
theorem Allows.of_writes {op : Op} (ht : t ≠ .provisionPass) (h : D.writes t op) :
    D.Allows t op where
  writes := h
  spares hp := absurd hp ht

theorem Allows.of_writeless (ht : t ≠ .provisionPass) (op : Op) (h : op.writeless = true) :
    D.Allows t op := by
  refine .of_writes ht ?_
  cases op with
  | store op => cases op <;> trivial
  | _ => trivial

/-- A new cluster record has both guards down. -/
theorem ClusterOk.of_new {cl : Cluster} (hn : D.named cl.name) (hr : cl.rolloutsEnabled = false)
    (hp : cl.provisioningEnabled = false) : D.ClusterOk cl where
  named := hn
  down {g c} _ _ := by
    cases g with
    | rollouts => exact hr
    | provisioning => exact hp

/-- A change that keeps the name and the guards keeps a cluster record in order. -/
theorem ClusterOk.of_same {cl cl' : Cluster} (h : D.ClusterOk cl) (hn : cl'.name = cl.name)
    (hg : ∀ g : Guard, g.of cl' = g.of cl) : D.ClusterOk cl' where
  named := hn ▸ h.named
  down hD hc := hg _ ▸ h.down hD (hn ▸ hc)

/-- A change that keeps the cluster, the strategy and the replicas keeps a pool in order. -/
theorem PoolOk.of_same {np np' : NodePool} (h : D.PoolOk np) (hc : np'.cluster = np.cluster)
    (hs : np'.strategy = np.strategy) (hr : np'.replicas = np.replicas) : D.PoolOk np' where
  named := hc ▸ h.named
  bare hf := by
    obtain ⟨hsnap, hreplicas⟩ := h.bare hf
    rw [NodePool.snapshotBeforeControlPlane] at hsnap ⊢
    rw [hs, hr]
    exact ⟨hsnap, hreplicas⟩

/-- A registration keeps a host in order. -/
theorem HostOk.registered {req : RegisterHostRequest} {role : Role} (hn : D.named req.cluster)
    {cur : Option Host} (h : ∀ host ∈ cur, D.HostOk host) :
    D.HostOk (Server.registeredHost req role cur) := by
  cases cur with
  | none => exact ⟨hn, fun _ => ⟨rfl, rfl⟩⟩
  | some host =>
    rw [Server.registeredHost]
    split
    · exact ⟨hn, (h host rfl).unused⟩
    · exact ⟨hn, fun _ => ⟨rfl, rfl⟩⟩

end Discipline

end Medea
