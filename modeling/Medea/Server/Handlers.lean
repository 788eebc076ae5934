import Medea.Inventory.Operations

/-!
# The API server

`internal/server/server.go`: the unary calls of the service. A mutation of a desired record is a
read, a change of the copy that was read, and a compare-and-swap of the result; `rmw` repeats such
a body once after a lost race, unless the caller pinned a revision. `Server.handle` runs a request
and sends its response.
-/

set_option autoImplicit false

namespace Medea

open Medea.Interaction

structure CreateClusterRequest where
  name : String
  cpEndpoint : String
  cpMac : String
  cpIp : String
  talosVersion : String
  kubernetesVersion : String
  installDisk : String := ""
  extensions : List String := []
  cni : String := ""
  disableKubeProxy : Bool := false
  patches : List Bytes := []
  confirm : Bool := false
  deriving DecidableEq

structure CreateRolloutRequest where
  cluster : String
  pool : String
  kind : RolloutKind
  targetVersion : String
  createdBy : String := ""
  deriving DecidableEq

structure RegisterHostRequest where
  cluster : String
  mac : String
  pool : String := ""
  role : Role := .unspecified
  labels : List (String × String) := []
  deriving DecidableEq

/-- The requests of the service. -/
inductive Request where
  | getCluster (cluster : String)
  | getCredentials (cluster : String) (talosconfig kubeconfig secrets : Bool)
  | createCluster (req : CreateClusterRequest)
  | listClusters
  | listNodePools (cluster : String)
  | listMachines (cluster pool : String)
  | getRollout (cluster pool : String)
  | setClusterVersions (cluster : String) (talosVersion kubernetesVersion : Option String)
      (expectedRevision : Nat)
  | setNodePoolVersion (cluster pool : String) (talosVersion : Option String)
      (expectedRevision : Nat)
  | pauseRollout (cluster pool : String)
  | resumeRollout (cluster pool : String)
  | enableRollouts (cluster : String)
  | disableRollouts (cluster : String)
  | enableProvisioning (cluster : String)
  | disableProvisioning (cluster : String)
  | createRollout (req : CreateRolloutRequest)
  | listRollouts (cluster : String)
  | listHosts (cluster pool : String)
  | registerHost (req : RegisterHostRequest)
  | deregisterHost (cluster mac : String)
  | deleteCluster (name : String)
  deriving DecidableEq

/-- What the body of a read-modify-write fails with. -/
inductive BodyError where
  | store (e : StoreError)
  | status (s : Status)
  deriving DecidableEq

/-- Whether credentials are configured. -/
structure Server where
  creds : Bool

namespace Server

/-- Store errors as statuses. -/
def mapErr : StoreError → Status
  | .conflict => ⟨.aborted, "write contention"⟩
  | .other msg => ⟨.internal, msg⟩

def clusterNotFound (cluster : String) : Status :=
  ⟨.notFound, "cluster " ++ quote cluster ++ " not found"⟩

def nodePoolNotFound (cluster pool : String) : Status :=
  ⟨.notFound, "nodepool " ++ quote cluster ++ "/" ++ quote pool ++ " not found"⟩

def revisionMismatch (have_ want : Nat) : Status :=
  ⟨.failedPrecondition, "revision mismatch: have " ++ toString have_ ++ ", want " ++ toString want⟩

/-- The attempts of a read-modify-write. -/
def rmwAttempts {α : Type} (body : Prog (Except BodyError α)) (expected : Nat) :
    Nat → Prog (Except Status α)
  | 0 => return .error ⟨.aborted, "write contention"⟩
  | attempts + 1 => do
      match ← body with
      | .ok a => return .ok a
      | .error (.store .conflict) =>
        -- a pinned revision cannot match any more, so there is no second attempt
        if expected ≠ 0 then return .error ⟨.aborted, "lost race against concurrent write"⟩
        else rmwAttempts body expected attempts
      | .error (.status s) => return .error s
      | .error (.store e) => return .error (mapErr e)

/-- A read-modify-write: retried once on a lost race when no revision is pinned. -/
def rmw {α : Type} (body : Prog (Except BodyError α)) (expected : Nat) : Prog (Except Status α) :=
  rmwAttempts body expected 2

/-- The answer to a store call that only has to succeed. -/
def orStatus {α β : Type} (r : Except StoreError α) (k : α → Prog (Except Status β)) :
    Prog (Except Status β) :=
  match r with
  | .error e => return .error (mapErr e)
  | .ok a => k a

/-- The response to an edit: its error, or the message made of its result. -/
def report {α : Type} (f : α → Response) (p : Prog (Except Status α)) :
    Prog (Except Status Response) := do
  match ← p with
  | .error s => return .error s
  | .ok a => return .ok (f a)

/-! ## Reads -/

def getCluster (cluster : String) : Prog (Except Status Response) :=
  if cluster = "" then return .error ⟨.invalidArgument, "cluster required"⟩
  else do
    orStatus (← callStore (.getCluster cluster)) fun c =>
      match c.1 with
      | none => return .error (clusterNotFound cluster)
      | some c => return .ok (.cluster c)

/-- One stored credential, or none when it was not asked for. -/
def credential (wanted : Bool) (what cluster : String) (op : Prog (Except String Bytes))
    (k : Option Bytes → Prog (Except Status Response)) : Prog (Except Status Response) :=
  if wanted then do
    match ← op with
    | .error e => return .error ⟨.notFound, what ++ " for " ++ quote cluster ++ ": " ++ e⟩
    | .ok b => k (some b)
  else k none

def getCredentials (s : Server) (cluster : String) (talosconfig kubeconfig secrets : Bool) :
    Prog (Except Status Response) :=
  if cluster = "" then return .error ⟨.invalidArgument, "cluster required"⟩
  else if !s.creds then return .error ⟨.unimplemented, "credential store not configured"⟩
  else do
    -- credentials of a cluster the inventory does not know are not handed out
    orStatus (← callStore (.getCluster cluster)) fun c =>
      match c.1 with
      | none => return .error (clusterNotFound cluster)
      | some _ =>
        -- without any choice the two client configurations are returned
        let dflt := !talosconfig && !kubeconfig && !secrets
        credential (talosconfig || dflt) "talosconfig" cluster (call (.creds (.talosConfig cluster)))
          fun t => credential (kubeconfig || dflt) "kubeconfig" cluster
            (call (.creds (.kubeConfig cluster)))
            fun k => credential secrets "secrets" cluster (call (.creds (.secrets cluster)))
              fun b => return .ok (.credentials t k b)

def listClusters : Prog (Except Status Response) := do
  orStatus (← callStore .listClusters) fun cs => return .ok (.clusters cs)

def listNodePools (cluster : String) : Prog (Except Status Response) :=
  if cluster = "" then return .error ⟨.invalidArgument, "cluster required"⟩
  else do
    orStatus (← callStore (.listNodePools cluster)) fun nps => return .ok (.nodePools nps)

def listMachines (cluster pool : String) : Prog (Except Status Response) :=
  if cluster = "" then return .error ⟨.invalidArgument, "cluster required"⟩
  else do
    orStatus (← callStore (.listMachines cluster pool)) fun ms => return .ok (.machines ms)

def listHosts (cluster pool : String) : Prog (Except Status Response) :=
  if cluster = "" then return .error ⟨.invalidArgument, "cluster required"⟩
  else do
    orStatus (← callStore (.listHosts cluster pool)) fun hs => return .ok (.hosts hs)

def listRollouts (cluster : String) : Prog (Except Status Response) :=
  if cluster = "" then return .error ⟨.invalidArgument, "cluster required"⟩
  else do
    orStatus (← callStore (.listRolloutJobs cluster)) fun jobs => return .ok (.jobs jobs)

/-- The rollout records of the listed machines, in order. -/
def machineRollouts (cluster : String) : List Machine → Prog (Except Status (List MachineRollout))
  | [] => return .ok []
  | m :: ms => do
      orStatus (← callStore (.getMachineRollout cluster m.talosEndpoint)) fun mr => do
        match ← machineRollouts cluster ms with
        | .error s => return .error s
        -- a machine without a record is left out
        | .ok rest => return .ok (mr.toList ++ rest)

def getRollout (cluster pool : String) : Prog (Except Status Response) :=
  if cluster = "" then return .error ⟨.invalidArgument, "cluster required"⟩
  else do
    orStatus (← callStore (.getClusterRollout cluster)) fun cr => do
      orStatus (← callStore (.listMachines cluster pool)) fun ms => do
        match ← machineRollouts cluster ms with
        | .error s => return .error s
        | .ok rollouts => return .ok (.rollout cr rollouts)

/-! ## Desired versions and pauses -/

/-- Read a cluster, change the copy, and swap it in; the result carries the new revision. -/
def editCluster (cluster : String) (edit : Cluster → Nat → Except Status Cluster) :
    Prog (Except BodyError Cluster) := do
  match ← callStore (.getCluster cluster) with
  | .error e => return .error (.store e)
  | .ok (none, _) => return .error (.status (clusterNotFound cluster))
  | .ok (some c, rev) =>
    match edit c rev with
    | .error s => return .error (.status s)
    | .ok c =>
      match ← callStore (.putClusterDesired c rev) with
      | .error e => return .error (.store e)
      | .ok nr => return .ok { c with revision := nr }

/-- Read a node pool, change the copy, and swap it in. -/
def editNodePool (cluster pool : String) (edit : NodePool → Nat → Except Status NodePool) :
    Prog (Except BodyError Nat) := do
  match ← callStore (.getNodePool cluster pool) with
  | .error e => return .error (.store e)
  | .ok (none, _) => return .error (.status (nodePoolNotFound cluster pool))
  | .ok (some np, rev) =>
    match edit np rev with
    | .error s => return .error (.status s)
    | .ok np =>
      match ← callStore (.putNodePoolDesired np rev) with
      | .error e => return .error (.store e)
      | .ok nr => return .ok nr

/-- The pin of a versioned edit. -/
def checkPin (expected rev : Nat) : Except Status Unit :=
  if expected ≠ 0 ∧ rev ≠ expected then .error (revisionMismatch rev expected) else .ok ()

def withClusterVersions (talosVersion kubernetesVersion : Option String) (c : Cluster) : Cluster :=
  -- a version that is not set in the request stays
  let d := c.desired.getD {}
  let d' : ClusterDesired :=
    ⟨talosVersion.getD d.talosVersion, kubernetesVersion.getD d.kubernetesVersion⟩
  { c with desired := some d' }

def withPoolVersion (talosVersion : Option String) (np : NodePool) : NodePool :=
  let d := np.desired.getD {}
  { np with desired := some ⟨talosVersion.getD d.talosVersion⟩ }

def setClusterVersions (cluster : String) (talosVersion kubernetesVersion : Option String)
    (expected : Nat) : Prog (Except Status Response) :=
  if cluster = "" then return .error ⟨.invalidArgument, "cluster required"⟩
  else report (fun c => .revision c.revision) (rmw (editCluster cluster fun c rev =>
    (checkPin expected rev).map fun _ => withClusterVersions talosVersion kubernetesVersion c)
    expected)

def setNodePoolVersion (cluster pool : String) (talosVersion : Option String) (expected : Nat) :
    Prog (Except Status Response) :=
  if cluster = "" ∨ pool = "" then
    return .error ⟨.invalidArgument, "cluster and pool required"⟩
  else report .revision (rmw (editNodePool cluster pool fun np rev =>
    (checkPin expected rev).map fun _ => withPoolVersion talosVersion np) expected)

def setPaused (cluster pool : String) (paused : Bool) : Prog (Except Status Response) :=
  if cluster = "" ∨ pool = "" then
    return .error ⟨.invalidArgument, "cluster and pool required"⟩
  else report .revision
    -- these requests pin no revision: `expected` is 0
    (rmw (editNodePool cluster pool fun np _ => .ok { np with paused := paused }) 0)

def pauseRollout (cluster pool : String) : Prog (Except Status Response) :=
  setPaused cluster pool true

def resumeRollout (cluster pool : String) : Prog (Except Status Response) :=
  setPaused cluster pool false

/-! ## The guards of a cluster -/

/-- Apply a change to a cluster record under compare-and-swap and return the record. -/
def setClusterFlag (cluster : String) (apply : Cluster → Cluster) : Prog (Except Status Response) :=
  if cluster = "" then return .error ⟨.invalidArgument, "cluster required"⟩
  else report .cluster (rmw (editCluster cluster fun c _ => .ok (apply c)) 0)

def setRolloutsEnabled (cluster : String) (enabled : Bool) : Prog (Except Status Response) :=
  setClusterFlag cluster fun c => { c with rolloutsEnabled := enabled }

def enableRollouts (cluster : String) : Prog (Except Status Response) :=
  setRolloutsEnabled cluster true

def disableRollouts (cluster : String) : Prog (Except Status Response) :=
  setRolloutsEnabled cluster false

def enableProvisioning (cluster : String) : Prog (Except Status Response) :=
  setClusterFlag cluster fun c => { c with provisioningEnabled := true }

def disableProvisioning (cluster : String) : Prog (Except Status Response) :=
  setClusterFlag cluster fun c => { c with provisioningEnabled := false }

/-! ## Rollouts -/

/-- Record a job and read it back. -/
def recordJob (job : Rollout) : Prog (Except Status Response) := do
  orStatus (← callStore (.putRolloutJob job)) fun _ => do
    orStatus (← callStore (.getRolloutJob job.cluster job.pool)) fun saved =>
      return .ok (.job saved)

/-- The job of a request, pending. -/
def pendingJob (req : CreateRolloutRequest) (pool : String) (kind : RolloutKind) (now : Nat)
    (targets : List String) : Rollout where
  cluster := req.cluster
  pool := pool
  kind := kind
  targetVersion := req.targetVersion
  state := .pending
  createdBy := req.createdBy
  createdAt := formatRFC3339 now
  plannedTargets := targets

def createTalosRollout (req : CreateRolloutRequest) : Prog (Except Status Response) :=
  if req.pool = "" then return .error ⟨.invalidArgument, "pool required for a talos rollout"⟩
  else do
    orStatus (← callStore (.getNodePool req.cluster req.pool)) fun np =>
      match np.1 with
      | none => return .error (nodePoolNotFound req.cluster req.pool)
      -- the members planned for are those of this read, not of the one in the edit
      | some np => do
          match ← rmw (editNodePool req.cluster req.pool fun cur _ =>
              .ok (withPoolVersion (some req.targetVersion) cur)) 0 with
          | .error s => return .error s
          | .ok _ => do
              -- from here on the pool has its target even if the job cannot be recorded
              let now ← call .now
              recordJob (pendingJob req req.pool .talos now np.members)

def createKubernetesRollout (req : CreateRolloutRequest) : Prog (Except Status Response) :=
  if req.pool ≠ "" then
    return .error ⟨.invalidArgument, "kubernetes rollouts are cluster-wide; omit pool"⟩
  else do
    match ← rmw (editCluster req.cluster fun c _ =>
        .ok (withClusterVersions none (some req.targetVersion) c)) 0 with
    | .error s => return .error s
    | .ok _ => do
        -- the empty pool stands for every pool of the cluster
        orStatus (← callStore (.listMachines req.cluster "")) fun machines => do
          let now ← call .now
          recordJob (pendingJob req "" .kubernetes now (machines.map (·.talosEndpoint)))

/-- Authorize and record an upgrade. -/
def createRollout (req : CreateRolloutRequest) : Prog (Except Status Response) :=
  if req.cluster = "" then return .error ⟨.invalidArgument, "cluster required"⟩
  else if req.targetVersion = "" then
    return .error ⟨.invalidArgument, "target_version required"⟩
  else do
    orStatus (← callStore (.getCluster req.cluster)) fun c =>
      match c.1 with
      | none => return .error (clusterNotFound req.cluster)
      | some c =>
        -- the guard of the request; the executor has its own
        if !c.rolloutsEnabled then
          return .error ⟨.failedPrecondition, "rollouts not enabled for cluster " ++
            quote req.cluster ++ "; run `medea cluster enable-rollouts " ++ req.cluster ++ "`"⟩
        else if c.mode = .auto then
          return .error ⟨.unimplemented, "auto (drift-reconcile) mode is not supported in v1"⟩
        else
          match req.kind with
          | .talos => createTalosRollout req
          | .kubernetes => createKubernetesRollout req
          | .unspecified =>
            return .error ⟨.invalidArgument, "kind must be TALOS or KUBERNETES"⟩

/-! ## Hosts and clusters -/

/-- The record of a registration: a lifecycle state that has advanced is kept. -/
def registeredHost (req : RegisterHostRequest) (role : Role) (cur : Option Host) : Host :=
  let h : Host :=
    { cluster := req.cluster, mac := req.mac, pool := req.pool, role := role
      labels := req.labels, state := .registered }
  match cur with
  | some cur =>
    -- registering again must not send a provisioned host back to the start
    if cur.state ≠ .unspecified then { h with state := cur.state, addr := cur.addr } else h
  | none => h

/-- Read the host, and swap in the registration. -/
def editRegisteredHost (req : RegisterHostRequest) (role : Role) :
    Prog (Except BodyError Host) := do
  match ← callStore (.getHost req.cluster req.mac) with
  | .error e => return .error (.store e)
  | .ok (cur, rev) =>
    match ← callStore (.putHostDesired (registeredHost req role cur) rev) with
    | .error e => return .error (.store e)
    | .ok nr => return .ok { registeredHost req role cur with revision := nr }

def putRegisteredHost (req : RegisterHostRequest) (role : Role) : Prog (Except Status Response) :=
  report .host (rmw (editRegisteredHost req role) 0)

def registerHost (req : RegisterHostRequest) : Prog (Except Status Response) :=
  if req.cluster = "" ∨ req.mac = "" then
    return .error ⟨.invalidArgument, "cluster and mac required"⟩
  else do
    orStatus (← callStore (.getCluster req.cluster)) fun c =>
      match c.1 with
      | none => return .error (clusterNotFound req.cluster)
      | some _ =>
        if req.pool ≠ "" then do
          orStatus (← callStore (.getNodePool req.cluster req.pool)) fun np =>
            match np.1 with
            | none => return .error (nodePoolNotFound req.cluster req.pool)
            | some np =>
              -- a host takes the role of its pool unless the request names one
              putRegisteredHost req (if req.role = .unspecified then np.role else req.role)
        else putRegisteredHost req req.role

def deregisterHost (cluster mac : String) : Prog (Except Status Response) :=
  if cluster = "" ∨ mac = "" then
    return .error ⟨.invalidArgument, "cluster and mac required"⟩
  else do
    -- deleting a host that is not there succeeds
    orStatus (← callStore (.deleteHost cluster mac)) fun _ => return .ok .empty

/-- The bootstrap record of a request. -/
def requestedBootstrap (req : CreateClusterRequest) : ClusterBootstrap where
  cluster := req.name
  phase := .notBootstrapped
  cpMac := req.cpMac
  cpEndpoint := req.cpEndpoint
  cpIp := req.cpIp
  talosVersion := req.talosVersion
  kubernetesVersion := req.kubernetesVersion
  installDisk := req.installDisk
  extensions := req.extensions
  cni := req.cni
  disableKubeProxy := req.disableKubeProxy
  patches := req.patches

/-- The host record of the control plane to come. -/
def controlPlaneHost (req : CreateClusterRequest) : Host where
  cluster := req.name
  mac := req.cpMac
  pool := "controlplane"
  role := .controlplane
  state := .registered

def createCluster (req : CreateClusterRequest) : Prog (Except Status Response) :=
  if req.name = "" ∨ req.cpEndpoint = "" ∨ req.cpMac = "" ∨ req.cpIp = "" then
    return .error ⟨.invalidArgument, "name, cp_endpoint, cp_mac and cp_ip are required"⟩
  else if req.talosVersion = "" ∨ req.kubernetesVersion = "" then
    return .error ⟨.invalidArgument, "talos_version and kubernetes_version are required"⟩
  else do
    orStatus (← callStore (.getCluster req.name)) fun c =>
      match c.1 with
      | some _ =>
        return .error ⟨.failedPrecondition, "cluster " ++ quote req.name ++ " already exists"⟩
      | none => do
          orStatus (← callStore (.getClusterBootstrap req.name)) fun cb =>
            match cb with
            | some _ =>
              return .error ⟨.failedPrecondition,
                "cluster " ++ quote req.name ++ " already has a bootstrap in progress"⟩
            | none =>
              if !req.confirm then
                -- a plan is answered from the request and stores nothing
                return .ok (.bootstrap { requestedBootstrap req with
                  message := "plan (not created; pass --confirm to arm)" })
              else do
                -- the host first: the bootstrap record is what arms the executor
                orStatus (← callStore (.putHostDesired (controlPlaneHost req) 0)) fun _ => do
                  let cb := { requestedBootstrap req with
                    message := "armed; awaiting the bootstrap executor" }
                  orStatus (← callStore (.putClusterBootstrap cb)) fun _ =>
                    return .ok (.bootstrap cb)

def deleteCluster (s : Server) (name : String) : Prog (Except Status Response) :=
  if name = "" then return .error ⟨.invalidArgument, "name is required"⟩
  else do
    orStatus (← callStore (.deleteCluster name)) fun _ =>
      if s.creds then do
        -- the records are gone already when this fails
        match ← call (.creds (.delete name)) with
        | .error e => return .error ⟨.internal, "delete credentials: " ++ e⟩
        | .ok () => return .ok .empty
      else return .ok .empty

/-! ## Dispatch -/

def answer (s : Server) : Request → Prog (Except Status Response)
  | .getCluster cluster => getCluster cluster
  | .getCredentials cluster t k b => s.getCredentials cluster t k b
  | .createCluster req => createCluster req
  | .listClusters => listClusters
  | .listNodePools cluster => listNodePools cluster
  | .listMachines cluster pool => listMachines cluster pool
  | .getRollout cluster pool => getRollout cluster pool
  | .setClusterVersions cluster t k expected => setClusterVersions cluster t k expected
  | .setNodePoolVersion cluster pool t expected => setNodePoolVersion cluster pool t expected
  | .pauseRollout cluster pool => pauseRollout cluster pool
  | .resumeRollout cluster pool => resumeRollout cluster pool
  | .enableRollouts cluster => enableRollouts cluster
  | .disableRollouts cluster => disableRollouts cluster
  | .enableProvisioning cluster => enableProvisioning cluster
  | .disableProvisioning cluster => disableProvisioning cluster
  | .createRollout req => createRollout req
  | .listRollouts cluster => listRollouts cluster
  | .listHosts cluster pool => listHosts cluster pool
  | .registerHost req => registerHost req
  | .deregisterHost cluster mac => deregisterHost cluster mac
  | .deleteCluster name => s.deleteCluster name

/-- Handle a request and send the response. -/
def handle (s : Server) (req : Request) : Prog Unit := do
  let result ← s.answer req
  call (.respond result)

end Server

end Medea
