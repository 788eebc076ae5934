import Medea.Inventory.Operations

/-!
# Reading the live cluster: seeding and refreshing

`internal/seed/seed.go` writes the desired records of a cluster from its node list and the Talos
versions of its nodes. `internal/refresh/refresh.go` fills the observed cache of the store and
never writes a record.
-/

set_option autoImplicit false

namespace Medea

open Medea.Interaction

/-! ## Seeding -/

structure SeedInputs where
  cluster : String
  kubeEndpoint : String
  talosEndpoints : List String
  nodes : List NodeInfo
  deriving DecidableEq

structure SeedResult where
  cluster : String
  pools : List String
  machines : Nat
  talosSeed : String
  k8sSeed : String
  deriving DecidableEq

/-- A machine to record. -/
structure SeedMachine where
  addr : String
  pool : String
  role : Role
  deriving DecidableEq

/-- What the node loop collects. -/
structure SeedScan where
  machines : List SeedMachine := []
  clusterTalos : String := ""
  clusterK8s : String := ""
  deriving DecidableEq

namespace SeedInputs

def poolName (role : String) : String :=
  if role = "controlplane" then "controlplane" else "workers"

def pbRole (role : String) : Role :=
  if role = "controlplane" then .controlplane else .worker

variable (input : SeedInputs)

/-- The Talos lookup handed to the seeding. -/
def talosVersion (addr : String) : Prog (Except String String) :=
  callTalos { cluster := input.cluster, work := .seeding } (.version addr)

/-- The cluster-wide versions come from the last control-plane node. -/
def noteNode (scan : SeedScan) (n : NodeInfo) (tv : String) : SeedScan where
  machines := scan.machines ++ [⟨n.internalIP, poolName n.role, pbRole n.role⟩]
  -- no `break` in the loop of the source
  clusterTalos := if n.role = "controlplane" then tv else scan.clusterTalos
  clusterK8s := if n.role = "controlplane" then n.kubeletVersion else scan.clusterK8s

def scanNodes : List NodeInfo → SeedScan → Prog (Except String SeedScan)
  | [], scan => return .ok scan
  | n :: ns, scan =>
    if n.internalIP = "" then
      return .error ("seed: node " ++ quote n.name ++ " has no internal IP")
    else do
      match ← input.talosVersion n.internalIP with
      | .error e =>
        return .error ("seed: talos version for " ++ n.name ++ " (" ++ n.internalIP ++ "): " ++ e)
      | .ok tv => scanNodes ns (noteNode scan n tv)

/-- Without a control-plane node the first node gives the versions. -/
def fallback (scan : SeedScan) : Prog SeedScan :=
  -- also taken when the control plane reported an empty version
  if scan.clusterTalos = "" then do
    let tv ← input.talosVersion ((scan.machines.head?.map (·.addr)).getD "")
    return { scan with
      -- a failed lookup leaves the version empty
      clusterTalos := tv.toOption.getD ""
      clusterK8s := (input.nodes.head?.map (·.kubeletVersion)).getD "" }
  else return scan

def clusterRecord (scan : SeedScan) : Cluster where
  name := input.cluster
  desired := some ⟨scan.clusterTalos, scan.clusterK8s⟩
  endpoints := some ⟨input.talosEndpoints, input.kubeEndpoint⟩

/-- The pool names seen, sorted. -/
def pools (scan : SeedScan) : List String :=
  sortStrings (scan.machines.map (·.pool)).dedup

def poolRecord (scan : SeedScan) (pool : String) : NodePool where
  cluster := input.cluster
  name := pool
  role := (((scan.machines.filter (·.pool == pool)).getLast?).map (·.role)).getD .unspecified
  members := sortStrings ((scan.machines.filter (·.pool == pool)).map (·.addr))
  desired := some {}

def machineRecord (m : SeedMachine) : Machine where
  cluster := input.cluster
  pool := m.pool
  talosEndpoint := m.addr
  role := m.role

/-- Write the cluster over whatever revision it has. -/
def putCluster (scan : SeedScan) : Prog (Option String) := do
  match ← callStore (.getCluster input.cluster) with
  | .error e => return some e.text
  -- the record that was read is not merged in: desired versions, flags and pauses are reset
  | .ok (_, rev) =>
    match ← callStore (.putClusterDesired (input.clusterRecord scan) rev) with
    | .error e => return some e.text
    | .ok _ => return none

def putPool (scan : SeedScan) (pool : String) : Prog (Option String) := do
  match ← callStore (.getNodePool input.cluster pool) with
  | .error e => return some e.text
  | .ok (_, rev) =>
    match ← callStore (.putNodePoolDesired (input.poolRecord scan pool) rev) with
    | .error e => return some e.text
    | .ok _ => return none

def putMachine (m : SeedMachine) : Prog (Option String) := do
  match ← callStore (.getMachine input.cluster m.addr) with
  | .error e => return some e.text
  | .ok (_, rev) =>
    match ← callStore (.putMachineDesired (input.machineRecord m) rev) with
    | .error e => return some e.text
    | .ok _ => return none

/-- The cluster, its pools and its machines, up to the first error. -/
def write (scan : SeedScan) : Prog (Option String) := do
  match ← input.putCluster scan with
  | some e => return some e
  | none =>
    match ← Program.untilSome (input.putPool scan) (pools scan) with
    | some e => return some e
    | none => Program.untilSome input.putMachine scan.machines

/-- `seed.Apply`. -/
def apply : Prog (Except String SeedResult) :=
  if input.cluster = "" then return .error "seed: cluster name required"
  else do
    match ← input.scanNodes input.nodes {} with
    | .error e => return .error e
    | .ok scan =>
      if scan.machines = [] then return .error "seed: no nodes found"
      else do
        let scan ← input.fallback scan
        match ← input.write scan with
        | some e => return .error e
        | none =>
          return .ok
            { cluster := input.cluster, pools := pools scan, machines := scan.machines.length
              talosSeed := scan.clusterTalos, k8sSeed := scan.clusterK8s }

end SeedInputs

/-! ## Refreshing -/

namespace Refresher

def phase (ready : Bool) : MachinePhase := if ready then .ready else .notReady

/-- What is observed of a machine: the kube view, and the Talos version if the node answers. -/
def observedMachine (nodes : List NodeInfo) (addr : String) (version : Except String String) :
    MachineObserved :=
  let obs : MachineObserved :=
    match nodeAt nodes addr with
    | some n =>
      { kubernetesVersion := n.kubeletVersion, healthy := n.ready, phase := phase n.ready }
    | none => { phase := .notReady }
  match version with
  | .ok tv => { obs with talosVersion := tv }
  -- ready for Kubernetes, but its Talos API does not answer
  | .error _ => { obs with healthy := false }

/-- What is observed of a cluster: its last control-plane node. -/
def observedCluster (nodes : List NodeInfo) : ClusterObserved :=
  nodes.foldl
    (fun co n => if n.role = "controlplane" then ⟨n.kubeletVersion, n.ready⟩ else co) {}

def refreshMachine (client : Client) (nodes : List NodeInfo) (m : Machine) : Prog Unit := do
  let version ← callTalos client (.version m.talosEndpoint)
  let _ ← callStore (.setMachineObserved client.cluster m.talosEndpoint
    (observedMachine nodes m.talosEndpoint version))
  return ()

def refreshCluster (cl : Cluster) : Prog (Except String Unit) := do
  match ← call (.connect cl .refresh) with
  | .error e => return .error ("build clients: " ++ e)
  | .ok () => do
      let client : Client := { cluster := cl.name, work := .refresh }
      match ← callKube client "" .listNodes with
      | .error e => do
          -- an unreachable cluster is shown as one about which nothing is known
          let _ ← callStore (.setClusterObserved cl.name {})
          return .error ("list nodes: " ++ e)
      | .ok nodes =>
        match ← callStore (.listMachines cl.name "") with
        | .error e => return .error ("list machines: " ++ e.text)
        | .ok machines => do
            Program.forEach (refreshMachine client nodes) machines
            let _ ← callStore (.setClusterObserved cl.name (observedCluster nodes))
            return .ok ()

/-- The listed clusters; a failure on one does not stop the others. -/
def refreshAll : List Cluster → Prog (List String)
  | [] => return []
  | cl :: cls => do
      let result ← refreshCluster cl
      let errs ← refreshAll cls
      match result with
      | .error e => return ("cluster " ++ quote cl.name ++ ": " ++ e) :: errs
      | .ok () => return errs

/-- One refresh pass, with the errors it collected. -/
def once : Prog (List String) := do
  match ← callStore .listClusters with
  | .error e => return ["list clusters: " ++ e.text]
  | .ok clusters => refreshAll clusters

end Refresher

end Medea
