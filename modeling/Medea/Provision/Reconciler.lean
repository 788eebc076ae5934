import Mathlib.Data.List.Induction
import Medea.Inventory.Operations

/-!
# The provisioning reconciler and its executor

`internal/provision/reconciler.go`, `executor.go`, and the parts of `config.go` and `schematic.go`
they use. A pass over a pool first advances the hosts in flight, then stages one host or releases
one. What the Talos machinery renders from a secrets bundle is left open.
-/

set_option autoImplicit false

namespace Medea

open Medea.Interaction

/-! ## Images and configurations -/

def defaultFactoryHost : String := "factory.talos.dev"

/-- The configured Image Factory, or the public one. -/
def factoryOr (host : String) : String := if host = "" then defaultFactoryHost else host

/-- Installer image of a schematic and version. -/
def installImage (host schematicID version : String) : String :=
  factoryOr host ++ "/metal-installer/" ++ schematicID ++ ":" ++ version

/-- Kernel and initrd of a schematic and version. -/
def bootAssets (host schematicID version arch : String) : String × List String :=
  let arch := if arch = "" then "amd64" else arch
  let base := "https://" ++ factoryOr host ++ "/image/" ++ schematicID ++ "/" ++ version
  (base ++ "/kernel-" ++ arch, [base ++ "/initramfs-" ++ arch ++ ".xz"])

/-- The generator adds the leading `v` itself. -/
def k8sImageVersion (v : String) : String := trimLeading v "v"

/-- An option that is only passed when it is not empty. -/
def optional (s : String) : Option String := if s = "" then none else some s

def bootProfile (host schematic version : String) : Profile where
  kernel := (bootAssets host schematic version "").1
  initrd := (bootAssets host schematic version "").2
  args := ["talos.platform=metal"]

def renderWorkerConfig (clusterName controlPlaneEndpoint kubernetesVersion installDisk
    installImage : String) (secrets : Bytes) : Prog (Except String Bytes) :=
  if clusterName = "" ∨ controlPlaneEndpoint = "" then
    return .error "provision: cluster name and control-plane endpoint required"
  else
    call (.machinery (.workerConfig
      { clusterName, controlPlaneEndpoint
        kubernetesVersion := k8sImageVersion kubernetesVersion
        installDisk := optional installDisk, installImage := optional installImage, secrets }))

/-! ## Choosing hosts and nodes -/

def roleMatches (nodeRole : String) : Role → Bool
  | .controlplane => nodeRole == "controlplane"
  | .worker => nodeRole == "worker"
  | .unspecified => false

/-- `labels[k]`, empty when absent. -/
def labelOf (labels : List (String × String)) (k : String) : String := (labels.lookup k).getD ""

def matchesSelector (labels selector : List (String × String)) : Bool :=
  selector.all fun kv => labelOf labels kv.1 == kv.2

/-- The first registered host that matches. -/
def pickAvailable (hosts : List Host) (selector : List (String × String)) : Option Host :=
  hosts.find? fun h => h.state == .registered && matchesSelector h.labels selector

theorem pickAvailable_some {hosts : List Host} {selector : List (String × String)} {h : Host}
    (hpick : pickAvailable hosts selector = some h) : h ∈ hosts ∧ h.state = .registered := by
  have hp := List.find?_some hpick
  rw [Bool.and_eq_true, beq_iff_eq] at hp
  exact ⟨List.mem_of_find?_eq_some hpick, hp.1⟩

/-- A ready node of the role whose address nobody has claimed. -/
def newJoinedNode (nodes : List NodeInfo) (claimed : List String) (role : Role) : Option NodeInfo :=
  nodes.find? fun n =>
    n.ready && n.internalIP != "" && !claimed.contains n.internalIP && roleMatches n.role role

def nodeNameFor (nodes : List NodeInfo) (addr : String) : String :=
  ((nodes.find? fun n => n.internalIP == addr).map (·.name)).getD ""

/-- The ready host with the lowest MAC. -/
def victimOf (hosts : List Host) : Option Host :=
  hosts.foldl (fun victim h =>
    if h.state = .ready then
      match victim with
      | none => some h
      -- the first of equal ones stays
      | some v => if h.mac < v.mac then some h else victim
    else victim) none

/-- The victim is a ready host, and none has a lower MAC; there is none only if no host is ready. -/
theorem victimOf_spec (hosts : List Host) : match victimOf hosts with
    | none => ∀ h ∈ hosts, h.state ≠ .ready
    | some v => v ∈ hosts ∧ v.state = .ready ∧ ∀ h ∈ hosts, h.state = .ready → v.mac ≤ h.mac := by
  -- the victim so far is the one of the hosts passed
  induction hosts using List.reverseRecOn with
  | nil => exact nofun
  | append_singleton hosts h ih =>
    have hstep : victimOf (hosts ++ [h]) = if h.state = .ready then
        match victimOf hosts with
        | none => some h
        | some v => if h.mac < v.mac then some h else victimOf hosts
      else victimOf hosts := by
      rw [victimOf, List.foldl_append]
      rfl
    rw [hstep]
    by_cases hready : h.state = .ready
    · rw [if_pos hready]
      cases hv : victimOf hosts with
      | none =>
        rw [hv] at ih
        refine ⟨by simp, hready, ?_⟩
        intro x hx hxr
        rcases List.mem_append.1 hx with hx | hx
        · exact absurd hxr (ih x hx)
        · obtain rfl := List.mem_singleton.1 hx
          exact String.le_refl _
      | some v =>
        rw [hv] at ih
        obtain ⟨hmem, hst, hleast⟩ := ih
        dsimp only
        split_ifs with hlt
        · refine ⟨by simp, hready, ?_⟩
          intro x hx hxr
          rcases List.mem_append.1 hx with hx | hx
          · exact String.le_trans (String.not_lt.1 (String.lt_asymm hlt)) (hleast x hx hxr)
          · obtain rfl := List.mem_singleton.1 hx
            exact String.le_refl _
        · refine ⟨List.mem_append_left _ hmem, hst, ?_⟩
          intro x hx hxr
          rcases List.mem_append.1 hx with hx | hx
          · exact hleast x hx hxr
          · rw [List.mem_singleton.1 hx]
            exact String.not_lt.1 hlt
    · rw [if_neg hready]
      have hlast : ∀ x ∈ hosts ++ [h], x.state = .ready → x ∈ hosts := by
        intro x hx hxr
        rcases List.mem_append.1 hx with hx | hx
        · exact hx
        · rw [List.mem_singleton.1 hx] at hxr
          exact absurd hxr hready
      cases hv : victimOf hosts with
      | none =>
        rw [hv] at ih
        exact fun x hx hxr => ih x (hlast x hx hxr) hxr
      | some v =>
        rw [hv] at ih
        obtain ⟨hmem, hst, hleast⟩ := ih
        exact ⟨List.mem_append_left _ hmem, hst, fun x hx hxr => hleast x (hlast x hx hxr) hxr⟩

theorem victimOf_some {hosts : List Host} {v : Host} (h : victimOf hosts = some v) :
    v ∈ hosts ∧ v.state = .ready ∧ ∀ x ∈ hosts, x.state = .ready → v.mac ≤ x.mac := by
  have hspec := victimOf_spec hosts
  rw [h] at hspec
  exact hspec

/-! ## The reconciler -/

structure ProvisionReconciler where
  client : Client
  factoryHost : String
  installDisk : String
  /-- In nanoseconds. -/
  provisionTimeout : Int

/-- What the host loop has counted. -/
structure HostCount where
  inflight : Nat := 0
  ready : Nat := 0
  failed : Nat := 0
  claimed : List String
  deriving DecidableEq

namespace ProvisionReconciler

def defaultProvisionTimeout : Int := (20 * minute : Nat)

def scaleInDrainTimeout : Int := (5 * minute : Nat)

variable (r : ProvisionReconciler)

/-- The error of a record that is gone; a wrapped nil error prints as the verb does. -/
def reloadError (what : String) (err : Option String) : String :=
  "provision: reload " ++ what ++ ": " ++ err.getD "%!w(<nil>)"

/-- Read a host again, change it and swap it in. -/
def editHost (cluster mac : String) (edit : Host → Host) : Prog (Except String Unit) := do
  match ← callStore (.getHost cluster mac) with
  | .error e => return .error (reloadError ("host " ++ mac) (some e.text))
  | .ok (none, _) => return .error (reloadError ("host " ++ mac) none)
  | .ok (some h, rev) =>
    match ← callStore (.putHostDesired (edit h) rev) with
    | .error e => return .error e.text
    | .ok _ => return .ok ()

/-- Read a pool again, and swap in the change unless there is none. -/
def editPool (cluster pool : String) (edit : NodePool → Option NodePool) :
    Prog (Except String Unit) := do
  match ← callStore (.getNodePool cluster pool) with
  | .error e => return .error (reloadError ("nodepool " ++ cluster ++ "/" ++ pool) (some e.text))
  | .ok (none, _) => return .error (reloadError ("nodepool " ++ cluster ++ "/" ++ pool) none)
  | .ok (some np, rev) =>
    -- no write when the change is none, so the revision stays too
    match edit np with
    | none => return .ok ()
    | some np =>
      match ← callStore (.putNodePoolDesired np rev) with
      | .error e => return .error e.text
      | .ok _ => return .ok ()

def setHostState (cluster mac : String) (st : HostState) (msg : String) : Prog (Except String Unit) :=
  editHost cluster mac fun h => { h with state := st, message := msg }

/-- The host is back in the inventory, without an address. -/
def releaseHost (cluster mac : String) : Prog (Except String Unit) :=
  editHost cluster mac fun h =>
    { h with state := .registered, addr := "", message := "released (scale-in)" }

/-- The host is staged; the clock starts. -/
def startProvisioning (cluster mac : String) : Prog (Except String Unit) := do
  match ← callStore (.getHost cluster mac) with
  | .error e => return .error (reloadError ("host " ++ mac) (some e.text))
  | .ok (none, _) => return .error (reloadError ("host " ++ mac) none)
  | .ok (some h, rev) => do
      -- read between the two store calls
      let now ← call .now
      match ← callStore (.putHostDesired
          { h with state := .provisioning, message := "staged; awaiting boot + join"
                   provisioningStartedAt := formatRFC3339 now } rev) with
      | .error e => return .error e.text
      | .ok _ => return .ok ()

def removeMember (cluster pool addr : String) : Prog (Except String Unit) :=
  editPool cluster pool fun np => some { np with members := np.members.filter (· != addr) }

def addMember (cluster pool addr : String) : Prog (Except String Unit) :=
  editPool cluster pool fun np =>
    if np.members.contains addr then none
    else some { np with members := sortStrings (np.members ++ [addr]) }

/-- Record a node that joined: the host, its machine, and the membership. -/
def bind (cluster pool mac : String) (n : NodeInfo) (role : Role) : Prog (Except String Unit) := do
  match ← editHost cluster mac fun h =>
      { h with addr := n.internalIP, state := .ready, message := "" } with
  | .error e => return .error e
  | .ok () =>
    match ← callStore (.getMachine cluster n.internalIP) with
    | .error e => return .error e.text
    | .ok (m, mrev) =>
      -- a machine that is already recorded is written back as it is
      let m := m.getD { cluster, pool, talosEndpoint := n.internalIP, role }
      match ← callStore (.putMachineDesired m mrev) with
      | .error e => return .error e.text
      | .ok _ => addMember cluster pool n.internalIP

/-- Whether a host has been provisioning for too long; no start time is lenient. -/
def timedOut (h : Host) : Prog Bool :=
  match (if h.provisioningStartedAt = "" then none else parseRFC3339 h.provisioningStartedAt) with
  | none => return false
  | some started => do
      let now ← call .now
      return decide ((now : Int) - started > r.provisionTimeout)

/-- One host of the advance loop. -/
def advanceHost (cluster pool : String) (np : NodePool) (nodes : List NodeInfo) (count : HostCount)
    (h : Host) : Prog (Except String HostCount) :=
  match h.state with
  | .ready => return .ok { count with ready := count.ready + 1 }
  | .failed => return .ok { count with failed := count.failed + 1 }
  | .provisioning =>
    -- any new node of the role is taken for this host
    match newJoinedNode nodes count.claimed np.role with
    | some n => do
        match ← bind cluster pool h.mac n np.role with
        | .error e => return .error e
        | .ok () =>
          return .ok { count with
            -- the next host of the loop must not take the same node
            claimed := n.internalIP :: count.claimed, ready := count.ready + 1 }
    | none => do
        if ← r.timedOut h then
          match ← setHostState cluster h.mac .failed "provision timed out: node did not join" with
          | .error e => return .error e
          | .ok () => return .ok { count with failed := count.failed + 1 }
        else return .ok { count with inflight := count.inflight + 1 }
  | _ => return .ok count

def advanceHosts (cluster pool : String) (np : NodePool) (nodes : List NodeInfo) :
    List Host → HostCount → Prog (Except String HostCount)
  | [], count => return .ok count
  | h :: hs, count => do
      match ← r.advanceHost cluster pool np nodes count h with
      | .error e => return .error e
      | .ok count => advanceHosts cluster pool np nodes hs count

/-- Addresses that belong to a machine or a bound host. -/
def claimedAddrs (cluster : String) (hosts : List Host) : Prog (Except String (List String)) := do
  match ← callStore (.listMachines cluster "") with
  | .error e => return .error e.text
  | .ok ms =>
    return .ok (ms.map (·.talosEndpoint) ++ (hosts.map (·.addr)).filter (· != ""))

/-- Forget the node of a released host. -/
def forget (cluster pool addr mac : String) : Prog (Except String Unit) :=
  if addr ≠ "" then do
    -- machine, membership, host: an error in between leaves the rest as it is
    match ← callStore (.deleteMachine cluster addr) with
    | .error e => return .error e.text
    | .ok () =>
      match ← removeMember cluster pool addr with
      | .error e => return .error e
      | .ok () => releaseHost cluster mac
  else releaseHost cluster mac

/-- Unstage a host and forget its node. -/
def unstage (cluster pool : String) (victim : Host) : Prog (Except String Unit) := do
  match ← call (.provisioner cluster (.unstage victim.mac)) with
  | .error e => return .error ("provision: unstage " ++ victim.mac ++ ": " ++ e)
  | .ok () => forget cluster pool victim.addr victim.mac

/-- Release one ready host. -/
def scaleIn (cluster pool : String) (hosts : List Host) (nodes : List NodeInfo) :
    Prog (Except String Unit) :=
  match victimOf hosts with
  | none => return .ok ()
  | some victim =>
    -- a host whose node is not listed is released without a drain
    let name := nodeNameFor nodes victim.addr
    if name ≠ "" then do
      match ← callKube r.client victim.addr (.drain name scaleInDrainTimeout) with
      | .error e => return .error ("provision: drain " ++ name ++ ": " ++ e)
      | .ok () => unstage cluster pool victim
    else unstage cluster pool victim

/-- Load and parse the secrets of a cluster. -/
def secretsFor (cluster : String) : Prog (Except String Bytes) := do
  match ← call (.creds (.secrets cluster)) with
  | .error e => return .error e
  | .ok raw =>
    match ← call (.machinery (.loadSecrets raw)) with
    | .error e => return .error ("provision: parse secrets bundle: " ++ e)
    | .ok bundle => return .ok bundle

/-- Publish the boot configuration of a host, once its machine configuration is rendered. -/
def publish (cl : Cluster) (h : Host) (schematic version : String) (cfg : Bytes) :
    Prog (Except String Unit) := do
  match ← call (.provisioner cl.name
      (.stage h.mac (bootProfile r.factoryHost schematic version) cfg)) with
  | .error e => return .error ("provision: stage " ++ h.mac ++ ": " ++ e)
  | .ok () => startProvisioning cl.name h.mac

/-- The version a host is staged with: the pool's, or the cluster's. -/
def stagedVersion (cl : Cluster) (np : NodePool) : String :=
  if np.desiredTalosVersion = "" then cl.desiredTalosVersion else np.desiredTalosVersion

/-- Stage one host to install and join. -/
def stage (cl : Cluster) (np : NodePool) (h : Host) : Prog (Except String Unit) :=
  if stagedVersion cl np = "" then
    return .error ("provision: no Talos version for " ++ cl.name ++ "/" ++ np.name)
  else do
    match ← call (.resolve np.extensions) with
    | .error e => return .error ("provision: resolve schematic: " ++ e)
    | .ok schematic =>
      match ← secretsFor cl.name with
      | .error e => return .error ("provision: load secrets: " ++ e)
      | .ok bundle =>
        match ← renderWorkerConfig cl.name ("https://" ++ cl.kubeEndpoint)
            cl.desiredKubernetesVersion r.installDisk
            (installImage r.factoryHost schematic (stagedVersion cl np)) bundle with
        | .error e => return .error e
        | .ok cfg => r.publish cl h schematic (stagedVersion cl np) cfg

/-- After the hosts in flight were advanced: release one, stage one, or wait. -/
def converge (cluster pool : String) (cl : Cluster) (np : NodePool) (hosts : List Host)
    (nodes : List NodeInfo) (count : HostCount) : Prog (Except String Unit) :=
  -- one host at a time
  if count.inflight > 0 then return .ok ()
  -- halted until an operator clears the failed host
  else if count.failed > 0 then return .ok ()
  else if count.ready > np.replicas then r.scaleIn cluster pool hosts nodes
  else if count.ready < np.replicas then
    match pickAvailable hosts np.selector with
    -- no capacity
    | none => return .ok ()
    | some h => r.stage cl np h
  else return .ok ()

/-- The part of a pass that talks to the cluster. -/
def reconcileHosts (cluster pool : String) (cl : Cluster) (np : NodePool) :
    Prog (Except String Unit) := do
  match ← callStore (.listHosts cluster pool) with
  | .error e => return .error e.text
  | .ok hosts =>
    match ← callKube r.client "" .listNodes with
    | .error e => return .error ("provision: list nodes: " ++ e)
    | .ok nodes =>
      match ← claimedAddrs cluster hosts with
      | .error e => return .error e
      | .ok claimed =>
        match ← r.advanceHosts cluster pool np nodes hosts { claimed } with
        | .error e => return .error e
        | .ok count => r.converge cluster pool cl np hosts nodes count

def reconcilePool (cluster pool : String) : Prog (Except String Unit) := do
  match ← callStore (.getCluster cluster) with
  | .error e => return .error e.text
  | .ok (none, _) => return .error ("provision: cluster " ++ quote cluster ++ " not found")
  | .ok (some cl, _) =>
    -- the guard, on a record read in this pass
    if !cl.provisioningEnabled then return .ok ()
    else
      match ← callStore (.getNodePool cluster pool) with
      | .error e => return .error e.text
      | .ok (none, _) =>
        return .error
          ("provision: nodepool " ++ quote cluster ++ "/" ++ quote pool ++ " not found")
      | .ok (some np, _) =>
        -- pools with explicit members are not provisioned
        if np.replicas = 0 then return .ok () else r.reconcileHosts cluster pool cl np

end ProvisionReconciler

/-! ## The executor -/

structure ProvisionExecutor where
  factoryHost : String
  installDisk : String
  provisionTimeout : Int

namespace ProvisionExecutor

variable (e : ProvisionExecutor)

def reconciler (cl : Cluster) (np : NodePool) : ProvisionReconciler where
  client := { cluster := cl.name, work := .provisioning np.name }
  factoryHost := e.factoryHost
  installDisk := e.installDisk
  provisionTimeout :=
    if e.provisionTimeout ≤ 0 then ProvisionReconciler.defaultProvisionTimeout
    else e.provisionTimeout

/-- One pool; errors are logged and the pass goes on. -/
def runPool (cl : Cluster) (np : NodePool) : Prog Unit :=
  if np.replicas = 0 then return ()
  else do
    match ← call (.connect cl (.provisioning np.name)) with
    | .error _ => return ()
    | .ok () => do
        -- the error is logged only
        let _ ← (e.reconciler cl np).reconcilePool cl.name np.name
        return ()

def runCluster (cl : Cluster) : Prog (Option String) :=
  if cl.provisioningEnabled then do
    match ← callStore (.listNodePools cl.name) with
    | .error e => return some e.text
    | .ok pools => do
        Program.forEach (e.runPool cl) pools
        return none
  else return none

def runOnce : Prog (Option String) := do
  match ← callStore .listClusters with
  | .error e => return some e.text
  | .ok clusters => Program.untilSome e.runCluster clusters

end ProvisionExecutor

end Medea
