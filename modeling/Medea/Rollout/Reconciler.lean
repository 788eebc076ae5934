import Medea.Inventory.Operations

/-!
# The rollout reconciler

`internal/rollout/rollout.go` and the installer image of `internal/talos/image.go`. A pass over a
pool reads the pool, the target version and the node list, and then visits the members in address
order; the node in hand is drained, upgraded, waited for and uncordoned before the next one is
looked at. The first member that cannot converge ends the pass with an error.

The wait for a node to come back polls until its timeout. How often it can poll is the field
`polls`; what is proved about the reconciler holds for every value of it.
-/

set_option autoImplicit false

namespace Medea

open Medea.Interaction

/-- The fallback installer image. -/
def defaultInstaller : String := "ghcr.io/siderolabs/installer"

/-- The parts before and after the last colon. -/
def splitLastColon : List Char → Option (List Char × List Char)
  | [] => none
  | c :: cs =>
    match splitLastColon cs with
    -- a later colon wins over this one
    | some (before, after) => some (c :: before, after)
    | none => if c = ':' then some ([], cs) else none

theorem splitLastColon_eq_none {cs : List Char} (h : ':' ∉ cs) : splitLastColon cs = none := by
  induction cs with
  | nil => rfl
  | cons c cs ih =>
    rw [List.mem_cons, not_or] at h
    rw [splitLastColon, ih h.2]
    exact if_neg (Ne.symm h.1)

theorem splitLastColon_append {before after : List Char} (h : ':' ∉ after) :
    splitLastColon (before ++ ':' :: after) = some (before, after) := by
  induction before with
  | nil =>
    rw [List.nil_append, splitLastColon, splitLastColon_eq_none h]
    rfl
  | cons c before ih =>
    rw [List.cons_append, splitLastColon, ih]

/-- The current image with its tag replaced. A colon that a slash follows is a registry port. -/
def deriveInstallerImage (current targetVersion : String) : String :=
  if current = "" then defaultInstaller ++ ":" ++ targetVersion
  else
    match splitLastColon current.toList with
    | some (before, after) =>
      -- `registry:5000/installer`: no tag yet, the whole reference is kept
      if '/' ∈ after then current ++ ":" ++ targetVersion
      else String.ofList before ++ ":" ++ targetVersion
    | none => current ++ ":" ++ targetVersion

/-- Kubernetes versions are compared up to a leading `v`. -/
def sameVersion (a b : String) : Bool := trimLeading a "v" == trimLeading b "v"

/-- `ipToName[addr]`. -/
def nameOf (nodes : List NodeInfo) (addr : String) : String :=
  ((nodeAt nodes addr).map (·.name)).getD ""

/-- How many members other than `self` are missing or not ready. -/
def unavailableOthers (nodes : List NodeInfo) (members : List String) (self : String) : Nat :=
  members.countP fun m => m != self && !((nodeAt nodes m).map (·.ready)).getD false

/-- The budget of a pool: at least one. -/
def NodePool.maxUnavail (np : NodePool) : Nat :=
  if np.strategyMaxUnavailable < 1 then 1 else np.strategyMaxUnavailable

/-- The drain timeout of a pool, five minutes unless a positive one is set. -/
def NodePool.drainTimeout (np : NodePool) : Int :=
  if np.strategyDrainTimeout ≤ 0 then (5 * minute : Nat) else np.strategyDrainTimeout

/-- A reconciler with the clients it drives. -/
structure RolloutReconciler where
  client : Client
  snapshotDir : String
  /-- How many poll intervals fit in the wait timeout. -/
  polls : Nat

/-- What the visit of one member decided: go on with the next, or end the pass. -/
abbrev Visit := Option (Except String Unit)

namespace RolloutReconciler

variable (r : RolloutReconciler)

/-! ## Records -/

/-- Best effort: the result of the write is dropped. -/
def setState (cluster addr : String) (state : RolloutState) (target msg : String) : Prog Unit := do
  let _ ← callStore (.putMachineRollout
    { cluster, addr, state, targetTalosVersion := target, message := msg })
  return ()

/-- Mark the node failed and halt the pool. -/
def fail (cluster addr target msg : String) : Prog (Except String Unit) := do
  setState cluster addr .failed target msg
  return .error ("rollout halted at " ++ addr ++ ": " ++ msg)

/-- The recorded state of a node; none and a failed read count as unspecified. -/
def machineState (cluster addr : String) : Prog RolloutState := do
  match ← callStore (.getMachineRollout cluster addr) with
  | .ok (some mr) => return mr.state
  -- `mr.GetState()` of a nil message
  | _ => return .unspecified

def targetVersion (cluster : String) (np : NodePool) : Prog (Except String String) :=
  -- the version of the pool overrides that of the cluster
  if np.desiredTalosVersion ≠ "" then return .ok np.desiredTalosVersion
  else do
    match ← callStore (.getCluster cluster) with
    | .error e => return .error e.text
    | .ok (none, _) => return .error ("rollout: cluster " ++ quote cluster ++ " not found")
    | .ok (some cl, _) => return .ok cl.desiredTalosVersion

/-! ## One node -/

/-- One poll of a node: whether it is ready, and the version it reports. A failed call counts as
not ready, or as no version. -/
def poll (addr name : String) : Prog (Bool × String) := do
  -- both calls are made in every round, and both errors are only logged
  let ready ← callKube r.client addr (.nodeReady name)
  let version ← callTalos r.client (.version addr)
  return (ready.toOption.getD false, version.toOption.getD "")

def timedOutMessage (addr target : String) (ready : Bool) (version : String) : String :=
  "timed out waiting for " ++ addr ++ " to reach " ++ target ++ " (ready=" ++ toString ready ++
    ", version=" ++ quote version ++ ")"

/-- Poll until the node is ready at the target version, or the wait times out. -/
def waitHealthy (addr name target : String) : Nat → Prog (Except String Unit)
  | 0 => do
      let (ready, version) ← r.poll addr name
      if ready && version == target then return .ok ()
      else do
        -- the deadline of `WaitTimeout` has passed
        let _ ← call (.wait r.client 0)
        return .error (timedOutMessage addr target ready version)
  | left + 1 => do
      let (ready, version) ← r.poll addr name
      if ready && version == target then return .ok ()
      -- the context can also be cancelled between two rounds
      else if ← call (.wait r.client (left + 1)) then
        return .error (timedOutMessage addr target ready version)
      else waitHealthy addr name target left

/-- The tail of an upgrade, and the re-entry point for a node left in flight. -/
def finishUpgrade (cluster addr name target : String) : Prog (Except String Unit) :=
  if name = "" then fail cluster addr target "node not found in cluster (cannot wait for health)"
  else do
    setState cluster addr .waitingHealthy target "waiting for healthy"
    match ← r.waitHealthy addr name target r.polls with
    | .error e => fail cluster addr target e
    | .ok () =>
      match ← callKube r.client addr (.uncordon name) with
      | .error e => fail cluster addr target ("uncordon: " ++ e)
      | .ok () => do
          setState cluster addr .done target ""
          return .ok ()

/-- The snapshot file of a node. -/
def snapshotPath (cluster addr : String) : String :=
  joinPath r.snapshotDir (cluster ++ "-" ++ addr ++ ".snapshot")

def snapshot (cluster addr : String) : Prog (Except String Unit) := do
  match ← call (.mkdirAll r.snapshotDir) with
  | .error e => return .error e
  | .ok () =>
    match ← call (.openFile (r.snapshotPath cluster addr)) with
    | .error e => return .error e
    | .ok () =>
      match ← callTalos r.client (.etcdSnapshot addr (r.snapshotPath cluster addr)) with
      | .error e => do
          -- the file stays as the failed stream left it
          let _ ← call (.closeFile (r.snapshotPath cluster addr))
          return .error e
      -- `return f.Close()`: the error of the close is the result
      | .ok () => call (.closeFile (r.snapshotPath cluster addr))

/-- Drain, upgrade, and wait for the node. -/
def drainAndUpgrade (cluster : String) (np : NodePool) (addr name target : String) :
    Prog (Except String Unit) := do
  setState cluster addr .draining target "draining"
  match ← callKube r.client addr (.drain name np.drainTimeout) with
  | .error e => fail cluster addr target ("drain: " ++ e)
  | .ok () => do
      -- from here on a later pass takes the node for one in flight
      setState cluster addr .upgrading target "upgrading"
      match ← callTalos r.client (.installImage addr) with
      | .error e => fail cluster addr target ("read install image: " ++ e)
      | .ok curImage =>
        match ← callTalos r.client (.upgradeOS addr (deriveInstallerImage curImage target)) with
        | .error e => fail cluster addr target ("upgrade: " ++ e)
        | .ok () => r.finishUpgrade cluster addr name target

/-- Whether nodes of the pool get a snapshot before they are changed. -/
def snapshots (np : NodePool) : Bool :=
  np.role == .controlplane && np.snapshotBeforeControlPlane

/-- One node through the OS path. -/
def upgradeNode (cluster : String) (np : NodePool) (addr name target : String) :
    Prog (Except String Unit) :=
  if name = "" then fail cluster addr target "node not found in cluster (cannot drain)"
  else if snapshots np then do
    match ← r.snapshot cluster addr with
    | .error e => fail cluster addr target ("etcd snapshot: " ++ e)
    | .ok () => r.drainAndUpgrade cluster np addr name target
  else r.drainAndUpgrade cluster np addr name target

/-! ## One pool -/

/-- A failed member ends the pass, a finished one lets it go on. -/
def haltOnError : Except String Unit → Visit
  | .error e => some (.error e)
  | .ok () => none

/-- The body of the member loop. -/
def visit (cluster : String) (np : NodePool) (target : String) (nodes : List NodeInfo)
    (addr : String) : Prog Visit := do
  let state ← machineState cluster addr
  if state = .upgrading ∨ state = .waitingHealthy then
    -- left in flight by an earlier pass: the node may be rebooting, so its version is not read
    return haltOnError (← r.finishUpgrade cluster addr (nameOf nodes addr) target)
  else
    match ← callTalos r.client (.version addr) with
    | .error e => return haltOnError (← fail cluster addr target ("read version: " ++ e))
    | .ok cur =>
      if cur = target then do
        setState cluster addr .done target ""
        return none
      else if unavailableOthers nodes (sortStrings np.members) addr ≥ np.maxUnavail then
        -- too many others are down: the pass ends here, and without an error
        return some (.ok ())
      else
        return haltOnError (← r.upgradeNode cluster np addr (nameOf nodes addr) target)

/-- Everything after the pool has been read and found not paused. -/
def reconcileMembers (cluster : String) (np : NodePool) (target : String) (nodes : List NodeInfo) :
    Prog (Except String Unit) := do
  let ended ← Program.untilSome (r.visit cluster np target nodes) (sortStrings np.members)
  return ended.getD (.ok ())

/-- Bring every member of the pool to the target version. -/
def reconcilePool (cluster pool : String) : Prog (Except String Unit) := do
  match ← callStore (.getNodePool cluster pool) with
  | .error e => return .error e.text
  | .ok (none, _) =>
    return .error ("rollout: nodepool " ++ quote cluster ++ "/" ++ quote pool ++ " not found")
  | .ok (some np, _) =>
    -- a paused pool counts as converged
    if np.paused then return .ok ()
    else
      match ← targetVersion cluster np with
      | .error e => return .error e
      | .ok target =>
        if target = "" then
          return .error ("rollout: no target Talos version for " ++ cluster ++ "/" ++ pool)
        else
          match ← callKube r.client "" .listNodes with
          | .error e => return .error ("list nodes: " ++ e)
          | .ok nodes => r.reconcileMembers cluster np target nodes

/-! ## Kubernetes -/

def setClusterPhase (cluster : String) (phase : ClusterRolloutPhase) (target msg : String) :
    Prog Unit := do
  let _ ← callStore (.putClusterRollout
    { cluster, phase, targetKubernetesVersion := target, message := msg })
  return ()

/-- Mark the Kubernetes rollout of the cluster failed and halt it. -/
def failCluster (cluster target msg : String) : Prog (Except String Unit) := do
  setClusterPhase cluster .failed target msg
  return .error ("k8s rollout halted: " ++ msg)

/-- Address and kubelet version of the representative control-plane node: the last one listed. -/
def controlPlaneOf (nodes : List NodeInfo) : String × String :=
  nodes.foldl
    -- no `break` in the loop of the source
    (fun acc n => if n.role = "controlplane" then (n.internalIP, n.kubeletVersion) else acc)
    ("", "")

/-- Every node has to be at the target after the upgrade. -/
def verifyNodes (cluster target : String) : Prog (Except String Unit) := do
  match ← callKube r.client "" .listNodes with
  | .error e => failCluster cluster target ("post-upgrade list nodes: " ++ e)
  | .ok nodes =>
    match nodes.find? fun n => !sameVersion n.kubeletVersion target with
    | some n =>
      failCluster cluster target
        ("node " ++ n.name ++ " at " ++ n.kubeletVersion ++ ", want " ++ target)
    | none => do
        setClusterPhase cluster .idle target ""
        return .ok ()

/-- The cluster-wide Kubernetes upgrade. -/
def reconcileK8s (cluster target : String) : Prog (Except String Unit) :=
  if target = "" then
    return .error ("rollout: no target Kubernetes version for " ++ cluster)
  else do
    setClusterPhase cluster .upgrading target "upgrading"
    match ← callKube r.client "" .listNodes with
    | .error e => failCluster cluster target ("list nodes: " ++ e)
    | .ok nodes =>
      let (cpIP, src) := controlPlaneOf nodes
      if cpIP = "" then failCluster cluster target "no control-plane node found"
      -- only the node of `controlPlaneOf` is looked at
      else if sameVersion src target then do
        setClusterPhase cluster .idle target ""
        return .ok ()
      else
        -- mandatory here, whatever the strategies of the pools say
        match ← r.snapshot cluster cpIP with
        | .error e => failCluster cluster target ("etcd snapshot: " ++ e)
        | .ok () =>
          match ← call (.upgradeK8s r.client src target) with
          | .error e => failCluster cluster target ("upgrade-k8s: " ++ e)
          | .ok () => r.verifyNodes cluster target

end RolloutReconciler

end Medea
