import Medea.Provision.Reconciler

/-!
# The bootstrap reconciler and its executor

`internal/provision/bootstrap.go`, `bootstrap_executor.go` and the control-plane part of
`config.go`. Each call advances the bring-up of a new cluster by at most one phase; the phase is
the persisted `ClusterBootstrap` record.
-/

set_option autoImplicit false

namespace Medea

open Medea.Interaction

/-! ## Control-plane configuration -/

/-- `strings.Contains`. -/
def containsText (s sub : String) : Bool :=
  s.toList.tails.any fun rest => sub.toList.isPrefixOf rest

/-- Talos refuses to initialize etcd twice; the refusal counts as success. -/
def alreadyBootstrapped (err : String) : Bool :=
  let s := err.toLower
  containsText s "already" || containsText s "not empty"

/-- The patch that expresses the CNI and kube-proxy settings, if any is asked for. -/
def cniProxyPatch (cni : String) (disableKubeProxy : Bool) : Option String :=
  if cni = "" ∧ !disableKubeProxy then none
  else some ("cluster:\n" ++
    (if cni ≠ "" then "  network:\n    cni:\n      name: " ++ cni ++ "\n" else "") ++
    (if disableKubeProxy then "  proxy:\n    disabled: true\n" else ""))

/-- Load the patches one by one. -/
def loadPatches : Nat → List Bytes → Prog (Except String (List Bytes))
  | _, [] => return .ok []
  | i, p :: ps => do
      match ← call (.machinery (.loadPatch p)) with
      | .error e => return .error ("provision: load patch " ++ toString i ++ ": " ++ e)
      | .ok patch =>
        match ← loadPatches (i + 1) ps with
        | .error e => return .error e
        | .ok rest => return .ok (patch :: rest)

def applyPatches (config : Bytes) (patches : List Bytes) : Prog (Except String Bytes) := do
  match ← loadPatches 0 patches with
  | .error e => return .error e
  | .ok loaded =>
    match ← call (.machinery (.applyPatches config loaded)) with
    | .error e => return .error ("provision: apply patches: " ++ e)
    | .ok out => return .ok out

/-- The patches of a new control plane: the built-in one first. -/
def controlPlanePatches (cb : ClusterBootstrap) : List Bytes :=
  match cniProxyPatch cb.cni cb.disableKubeProxy with
  | none => cb.patches
  | some p => p.toUTF8.toList :: cb.patches

def renderControlPlaneConfig (cb : ClusterBootstrap) (image : String) (secrets : Bytes) :
    Prog (Except String Bytes) :=
  if cb.cluster = "" ∨ cb.cpEndpoint = "" then
    return .error "provision: cluster name and control-plane endpoint required"
  else do
    match ← call (.machinery (.controlPlaneConfig
        { clusterName := cb.cluster, controlPlaneEndpoint := cb.cpEndpoint
          kubernetesVersion := k8sImageVersion cb.kubernetesVersion
          installDisk := optional cb.installDisk, installImage := optional image
          allowSchedulingOnControlPlanes := some true, secrets })) with
    | .error e => return .error e
    | .ok out =>
      if controlPlanePatches cb = [] then return .ok out
      else applyPatches out (controlPlanePatches cb)

/-- The admin client configuration of a new cluster. -/
def talosconfig (cb : ClusterBootstrap) (secrets : Bytes) : Prog (Except String Bytes) :=
  call (.machinery (.talosconfig
    { clusterName := cb.cluster, controlPlaneEndpoint := cb.cpEndpoint
      kubernetesVersion := k8sImageVersion cb.kubernetesVersion, secrets }))

/-! ## The reconciler -/

structure BootstrapReconciler where
  factoryHost : String
  /-- In nanoseconds. -/
  timeout : Int

namespace BootstrapReconciler

def bootstrapTimeout : Int := (30 * minute : Nat)

variable (r : BootstrapReconciler)

/-- `NewBootstrapReconciler`: no timeout means the default one. -/
def new (factoryHost : String) (timeout : Int) : BootstrapReconciler where
  factoryHost := factoryHost
  timeout := if timeout ≤ 0 then bootstrapTimeout else timeout

/-- Stamp phase and message and persist. -/
def put (cb : ClusterBootstrap) (phase : ClusterBootstrapPhase) (msg : String) :
    Prog (Except String Unit) := do
  match ← callStore (.putClusterBootstrap { cb with phase := phase, message := msg }) with
  | .error e => return .error e.text
  | .ok () => return .ok ()

/-- The clients of the bootstrap, over the stored talosconfig. -/
def client (cb : ClusterBootstrap) : Client where
  cluster := cb.cluster
  work := .bootstrap

/-- Read the talosconfig and build the client of the node. -/
def connect (cb : ClusterBootstrap) : Prog (Except String Unit) := do
  match ← call (.creds (.talosConfig cb.cluster)) with
  | .error e => return .error ("provision: read talosconfig: " ++ e)
  | .ok tc => call (.connectBootstrap cb.cluster tc cb.cpIp)

/-- Mint and store a new bundle. -/
def mintSecrets (cb : ClusterBootstrap) : Prog (Except String Unit) := do
  match ← call (.machinery .generateSecrets) with
  | .error e => return .error ("provision: generate secrets bundle: " ++ e)
  | .ok bundle =>
    match ← call (.machinery (.marshalSecrets bundle)) with
    | .error e => return .error ("provision: marshal secrets: " ++ e)
    | .ok out =>
      match ← call (.creds (.putSecrets cb.cluster out)) with
      | .error e => return .error e
      | .ok () => put cb .staging "generated cluster secrets"

/-- The secrets of a cluster are minted once; a bundle that is there is kept. -/
def generateSecrets (cb : ClusterBootstrap) : Prog (Except String Unit) := do
  match ← call (.creds (.secrets cb.cluster)) with
  -- minting again would lock out what was built with the first bundle
  | .ok b => if b ≠ [] then put cb .staging "secrets already present" else mintSecrets cb
  | .error _ => mintSecrets cb

/-- Store the talosconfig and stage the boot, once the configuration is rendered. -/
def publish (cb : ClusterBootstrap) (schematic : String) (cfg tc : Bytes) :
    Prog (Except String Unit) := do
  match ← call (.creds (.put cb.cluster tc [])) with
  | .error e => return .error ("provision: store talosconfig: " ++ e)
  | .ok () =>
    match ← call (.provisioner cb.cluster
        (.stage cb.cpMac (bootProfile r.factoryHost schematic cb.talosVersion) cfg)) with
    | .error e => return .error ("provision: stage control-plane: " ++ e)
    | .ok () => put cb .awaitingInstall "staged; awaiting install + boot"

/-- Render the machine configuration and the talosconfig, then publish them. -/
def stage (cb : ClusterBootstrap) : Prog (Except String Unit) := do
  match ← call (.creds (.secrets cb.cluster)) with
  | .error e => return .error ("provision: load secrets: " ++ e)
  | .ok raw =>
    match ← call (.machinery (.loadSecrets raw)) with
    | .error e => return .error ("provision: parse secrets bundle: " ++ e)
    | .ok bundle =>
      match ← call (.resolve cb.extensions) with
      | .error e => return .error ("provision: resolve schematic: " ++ e)
      | .ok schematic =>
        match ← renderControlPlaneConfig cb
            (installImage r.factoryHost schematic cb.talosVersion) bundle with
        | .error e => return .error e
        | .ok cfg =>
          match ← talosconfig cb bundle with
          | .error e => return .error e
          | .ok tc => r.publish cb schematic cfg tc

/-- Park until the Talos API of the installed node answers. -/
def awaitInstall (cb : ClusterBootstrap) : Prog (Except String Unit) := do
  match ← connect cb with
  | .error e => return .error e
  | .ok () =>
    match ← callTalos (client cb) (.version cb.cpIp) with
    -- not installed yet: the phase stays, and the next pass tries again
    | .error _ => return .ok ()
    | .ok _ => put cb .bootstrapping "node reachable; bootstrapping etcd"

/-- Initialize etcd. -/
def bootstrapEtcd (cb : ClusterBootstrap) : Prog (Except String Unit) := do
  match ← connect cb with
  | .error e => return .error e
  | .ok () =>
    match ← callTalos (client cb) (.bootstrap cb.cpIp) with
    | .error e =>
      if alreadyBootstrapped e then put cb .awaitingHealthy "etcd already bootstrapped"
      -- any other refusal is retried by the next pass
      else return .ok ()
    | .ok () => put cb .awaitingHealthy "etcd bootstrapped"

def clusterRecord (cb : ClusterBootstrap) : Cluster where
  name := cb.cluster
  desired := some ⟨cb.talosVersion, cb.kubernetesVersion⟩
  endpoints := some ⟨[cb.cpIp], trimLeading cb.cpEndpoint "https://"⟩

def poolRecord (cb : ClusterBootstrap) : NodePool where
  cluster := cb.cluster
  name := "controlplane"
  role := .controlplane
  members := [cb.cpIp]

def machineRecord (cb : ClusterBootstrap) : Machine where
  cluster := cb.cluster
  pool := "controlplane"
  talosEndpoint := cb.cpIp
  role := .controlplane

/-- Write a record unless one is there. A failed read counts as none. -/
def ensure {α : Type} (read : Except StoreError (Option α × Nat))
    (write : Prog (Except StoreError Nat)) : Prog (Except String Unit) :=
  match read with
  | .ok (some _, _) => return .ok ()
  | _ => do
      match ← write with
      | .error e => return .error e.text
      | .ok _ => return .ok ()

/-- Record the new cluster: the cluster, its control-plane pool and its machine. -/
def seedInventory (cb : ClusterBootstrap) : Prog (Except String Unit) := do
  -- a crash in between is made up for: what is there is not written again
  match ← ensure (← callStore (.getCluster cb.cluster))
      (callStore (.putClusterDesired (clusterRecord cb) 0)) with
  | .error e => return .error e
  | .ok () =>
    match ← ensure (← callStore (.getNodePool cb.cluster "controlplane"))
        (callStore (.putNodePoolDesired (poolRecord cb) 0)) with
    | .error e => return .error e
    | .ok () =>
      ensure (← callStore (.getMachine cb.cluster cb.cpIp))
        (callStore (.putMachineDesired (machineRecord cb) 0))

/-- Wait for the API server by fetching the kubeconfig; then the cluster is recorded. -/
def fetchKubeconfig (cb : ClusterBootstrap) : Prog (Except String Unit) := do
  match ← connect cb with
  | .error e => return .error e
  | .ok () =>
    match ← callTalos (client cb) (.kubeconfig cb.cpIp) with
    -- the API server is not up yet
    | .error _ => return .ok ()
    | .ok kube =>
      -- `Put` stores both files, so the talosconfig is read back first
      match ← call (.creds (.talosConfig cb.cluster)) with
      | .error e => return .error e
      | .ok talosBytes =>
        match ← call (.creds (.put cb.cluster talosBytes kube)) with
        | .error e => return .error ("provision: store kubeconfig: " ++ e)
        | .ok () =>
          match ← seedInventory cb with
          | .error e => return .error e
          | .ok () => put cb .ready "cluster bootstrapped"

/-- Whether the whole bring-up has run out of time. -/
def timedOut (cb : ClusterBootstrap) : Prog Bool :=
  match (if cb.startedAt = "" then none else parseRFC3339 cb.startedAt) with
  -- no start has been stamped yet
  | none => return false
  | some started => do
      let now ← call .now
      return decide ((now : Int) - started > r.timeout)

/-- The first transition stamps the start of the bring-up. -/
def begin (cb : ClusterBootstrap) : Prog (Except String Unit) := do
  let now ← call .now
  put { cb with startedAt := formatRFC3339 now } .generatingSecrets "starting bootstrap"

/-- The step of the phase the record is in. -/
def advance (cb : ClusterBootstrap) : Prog (Except String Unit) :=
  match cb.phase with
  | .notBootstrapped => begin cb
  | .generatingSecrets => generateSecrets cb
  | .staging => r.stage cb
  | .awaitingInstall => awaitInstall cb
  | .bootstrapping => bootstrapEtcd cb
  -- no step enters the second of these phases
  | .awaitingHealthy | .fetchingKubeconfig => fetchKubeconfig cb
  | .unspecified | .ready | .failed => return .ok ()

def terminal (phase : ClusterBootstrapPhase) : Bool := phase == .ready || phase == .failed

/-- Advance one cluster by at most one phase. -/
def reconcile (cluster : String) : Prog (Except String Unit) := do
  match ← callStore (.getClusterBootstrap cluster) with
  | .error e => return .error e.text
  | .ok none => return .ok ()
  | .ok (some cb) =>
    if terminal cb.phase then return .ok ()
    else if ← r.timedOut cb then put cb .failed "bootstrap timed out"
    else r.advance cb

/-- One pass of the executor: every bring-up that is not over. Errors are logged. -/
def runOnce : Prog (Option String) := do
  match ← callStore .listClusterBootstraps with
  | .error e => return some e.text
  | .ok bootstraps => do
      Program.forEach (fun cb =>
        if terminal cb.phase then return ()
        else do
          -- the record is read again by its cluster
          let _ ← r.reconcile cb.cluster
          return ()) bootstraps
      return none

end BootstrapReconciler

end Medea
