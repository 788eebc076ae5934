import Medea.Rollout.Control

/-!
# The transitions of the executor

`StageMove` lists what can happen at each stage of the visit of a member, with the condition under
which it happens; `PoolMove` does the same for a pass over a pool, and `ExecMove` for the executor.
`stageNext_moves`, `poolNext_moves` and `next_moves` say that the machine does nothing else.
Invariants are proved by cases on them.
-/

set_option autoImplicit false

namespace Medea

open Medea.Interaction

/-- A record of a node that is in the hands of an upgrade. -/
def InFlight (state : Option RolloutState) : Prop :=
  state = some .upgrading ∨ state = some .waitingHealthy

instance (state : Option RolloutState) : Decidable (InFlight state) :=
  inferInstanceAs (Decidable (_ ∨ _))

/-- The state a read of the record returned. -/
def readState : Except StoreError (Option MachineRollout) → Option RolloutState
  | .ok mr => mr.map (·.state)
  | .error _ => none

namespace RolloutReconciler

/-- A member that is not at the target and may be started. -/
structure Startable (view : PoolView) (addr cur : String) : Prop where
  behind : cur ≠ view.target
  inBudget : ¬view.overBudget addr

/-- One step of the visit of a member. -/
inductive StageMove (r : RolloutReconciler) (view : PoolView) (addr : String) :
    Stage → Ev → StageStep → Prop where
  /- the record decides how the visit begins -/
  | resumed {rep : Except StoreError (Option MachineRollout)} :
      InFlight (readState rep) → view.name addr ≠ "" →
      StageMove r view addr .record (ev (.store (.getMachineRollout view.cluster addr)) rep)
        (.at .markWaiting)
  | resumedUnlisted {rep : Except StoreError (Option MachineRollout)} :
      InFlight (readState rep) → view.name addr = "" →
      StageMove r view addr .record (ev (.store (.getMachineRollout view.cluster addr)) rep)
        (.at (.markFailed "node not found in cluster (cannot wait for health)"))
  | fresh {rep : Except StoreError (Option MachineRollout)} : ¬InFlight (readState rep) →
      StageMove r view addr .record (ev (.store (.getMachineRollout view.cluster addr)) rep)
        (.at .check)
  /- the version decides what a fresh member needs -/
  | unread {e : String} :
      StageMove r view addr .check (ev (.talos r.client (.version addr)) (.error e))
        (.at (.markFailed ("read version: " ++ e)))
  | found :
      StageMove r view addr .check (ev (.talos r.client (.version addr)) (.ok view.target))
        (.at .markDone)
  | held {cur : String} : cur ≠ view.target → view.overBudget addr →
      StageMove r view addr .check (ev (.talos r.client (.version addr)) (.ok cur))
        (.leave (some (.ok ())))
  | unlisted {cur : String} : Startable view addr cur → view.name addr = "" →
      StageMove r view addr .check (ev (.talos r.client (.version addr)) (.ok cur))
        (.at (.markFailed "node not found in cluster (cannot drain)"))
  | snapshotFirst {cur : String} : Startable view addr cur → view.name addr ≠ "" →
      snapshots view.np = true →
      StageMove r view addr .check (ev (.talos r.client (.version addr)) (.ok cur)) (.at .mkdir)
  | drainFirst {cur : String} : Startable view addr cur → view.name addr ≠ "" →
      snapshots view.np = false →
      StageMove r view addr .check (ev (.talos r.client (.version addr)) (.ok cur))
        (.at .markDraining)
  /- the snapshot -/
  | dirFailed {e : String} :
      StageMove r view addr .mkdir (ev (.mkdirAll r.snapshotDir) (.error e))
        (.at (.markFailed ("etcd snapshot: " ++ e)))
  | dirMade :
      StageMove r view addr .mkdir (ev (.mkdirAll r.snapshotDir) (.ok ())) (.at .openFile)
  | openFailed {e : String} :
      StageMove r view addr .openFile
        (ev (.openFile (r.snapshotPath view.cluster addr)) (.error e))
        (.at (.markFailed ("etcd snapshot: " ++ e)))
  | opened :
      StageMove r view addr .openFile (ev (.openFile (r.snapshotPath view.cluster addr)) (.ok ()))
        (.at .snapshot)
  | streamed {rep : Except String Unit} :
      StageMove r view addr .snapshot
        (ev (.talos r.client (.etcdSnapshot addr (r.snapshotPath view.cluster addr))) rep)
        (.at (.closeFile rep))
  | streamFailed {e : String} {rep : Except String Unit} :
      StageMove r view addr (.closeFile (.error e))
        (ev (.closeFile (r.snapshotPath view.cluster addr)) rep)
        (.at (.markFailed ("etcd snapshot: " ++ e)))
  | closeFailed {e : String} :
      StageMove r view addr (.closeFile (.ok ()))
        (ev (.closeFile (r.snapshotPath view.cluster addr)) (.error e))
        (.at (.markFailed ("etcd snapshot: " ++ e)))
  | closed :
      StageMove r view addr (.closeFile (.ok ()))
        (ev (.closeFile (r.snapshotPath view.cluster addr)) (.ok ())) (.at .markDraining)
  /- drain and upgrade -/
  | draining {e : Ev} : StageMove r view addr .markDraining e (.at .drain)
  | drainFailed {e : String} :
      StageMove r view addr .drain
        (ev (.kube r.client addr (.drain (view.name addr) view.np.drainTimeout)) (.error e))
        (.at (.markFailed ("drain: " ++ e)))
  | drained :
      StageMove r view addr .drain
        (ev (.kube r.client addr (.drain (view.name addr) view.np.drainTimeout)) (.ok ()))
        (.at .markUpgrading)
  | upgrading {e : Ev} : StageMove r view addr .markUpgrading e (.at .image)
  | imageFailed {e : String} :
      StageMove r view addr .image (ev (.talos r.client (.installImage addr)) (.error e))
        (.at (.markFailed ("read install image: " ++ e)))
  | imageRead {image : String} :
      StageMove r view addr .image (ev (.talos r.client (.installImage addr)) (.ok image))
        (.at (.upgrade (deriveInstallerImage image view.target)))
  | upgradeFailed {image e : String} :
      StageMove r view addr (.upgrade image)
        (ev (.talos r.client (.upgradeOS addr image)) (.error e))
        (.at (.markFailed ("upgrade: " ++ e)))
  | upgraded {image : String} : view.name addr ≠ "" →
      StageMove r view addr (.upgrade image)
        (ev (.talos r.client (.upgradeOS addr image)) (.ok ())) (.at .markWaiting)
  | upgradedUnlisted {image : String} : view.name addr = "" →
      StageMove r view addr (.upgrade image)
        (ev (.talos r.client (.upgradeOS addr image)) (.ok ()))
        (.at (.markFailed "node not found in cluster (cannot wait for health)"))
  /- the wait for the node -/
  | waiting {e : Ev} : StageMove r view addr .markWaiting e (.at (.ready r.polls))
  | polled {left : Nat} {rep : Except String Bool} :
      StageMove r view addr (.ready left)
        (ev (.kube r.client addr (.nodeReady (view.name addr))) rep)
        (.at (.report left (rep.toOption.getD false)))
  | healthy {left : Nat} {rep : Except String String} : rep.toOption.getD "" = view.target →
      StageMove r view addr (.report left true) (ev (.talos r.client (.version addr)) rep)
        (.at .uncordon)
  | unhealthy {left : Nat} {ready : Bool} {rep : Except String String} :
      (ready = true → rep.toOption.getD "" ≠ view.target) →
      StageMove r view addr (.report left ready) (ev (.talos r.client (.version addr)) rep)
        (.at (.wait left ready (rep.toOption.getD "")))
  | again {left : Nat} {ready : Bool} {version : String} :
      StageMove r view addr (.wait (left + 1) ready version)
        (ev (.wait r.client (left + 1)) false) (.at (.ready left))
  | timedOut {left : Nat} {ready : Bool} {version : String} {expired : Bool} :
      left = 0 ∨ expired = true →
      StageMove r view addr (.wait left ready version) (ev (.wait r.client left) expired)
        (.at (.markFailed (timedOutMessage addr view.target ready version)))
  /- the end of the visit -/
  | uncordonFailed {e : String} :
      StageMove r view addr .uncordon
        (ev (.kube r.client addr (.uncordon (view.name addr))) (.error e))
        (.at (.markFailed ("uncordon: " ++ e)))
  | uncordoned :
      StageMove r view addr .uncordon
        (ev (.kube r.client addr (.uncordon (view.name addr))) (.ok ())) (.at .markDone)
  | finished {e : Ev} : StageMove r view addr .markDone e (.leave none)
  | halted {e : Ev} {msg : String} :
      StageMove r view addr (.markFailed msg) e
        (.leave (some (.error ("rollout halted at " ++ addr ++ ": " ++ msg))))

variable {r : RolloutReconciler} {view : PoolView} {addr : String}

/-- The record decides how a visit begins. -/
theorem afterRecord_eq (rep : Except StoreError (Option MachineRollout)) :
    afterRecord view addr rep =
      if InFlight (readState rep) then enterFinish view addr else .check := by
  rcases rep with e | (_ | mr) <;> simp [afterRecord, InFlight, readState]

/-- The machine moves as listed. -/
theorem stageNext_moves {stage : Stage} {e : Ev} (hop : r.stageIssues view addr stage = e.op) :
    StageMove r view addr stage e (r.stageNext view addr stage e) := by
  obtain ⟨op, rep⟩ := e
  cases stage with
  | record =>
    cases hop
    show StageMove r view addr .record _ (.at (afterRecord view addr rep))
    -- in flight or not, and if so whether the node is still listed
    rw [afterRecord_eq]
    split
    next hin =>
      rw [enterFinish]
      split
      next hname => exact .resumedUnlisted hin hname
      next hname => exact .resumed hin hname
    next hin => exact .fresh hin
  | check =>
    cases hop
    rcases rep with err | cur
    · exact .unread
    · show StageMove r view addr .check _ (afterCheck view addr (.ok cur))
      -- in the order of the source: version, budget, node name, snapshot strategy
      rw [afterCheck]
      split
      next heq =>
        subst heq
        exact .found
      next hne =>
        split
        next hover => exact .held hne hover
        next hover =>
          rw [enterUpgrade]
          split
          next hname => exact .unlisted ⟨hne, hover⟩ hname
          next hname =>
            split
            next hsnap => exact .snapshotFirst ⟨hne, hover⟩ hname hsnap
            next hsnap => exact .drainFirst ⟨hne, hover⟩ hname (Bool.eq_false_iff.2 hsnap)
  | mkdir =>
    cases hop
    rcases rep with err | ⟨⟩
    · exact .dirFailed
    · exact .dirMade
  | openFile =>
    cases hop
    rcases rep with err | ⟨⟩
    · exact .openFailed
    · exact .opened
  | snapshot =>
    cases hop
    exact .streamed
  | closeFile result =>
    cases hop
    rcases result with err | ⟨⟩
    · exact .streamFailed
    · rcases rep with err | ⟨⟩
      · exact .closeFailed
      · exact .closed
  | markDraining => exact .draining
  | drain =>
    cases hop
    rcases rep with err | ⟨⟩
    · exact .drainFailed
    · exact .drained
  | markUpgrading => exact .upgrading
  | image =>
    cases hop
    rcases rep with err | image
    · exact .imageFailed
    · exact .imageRead
  | upgrade image =>
    cases hop
    rcases rep with err | ⟨⟩
    · exact .upgradeFailed
    · show StageMove r view addr (.upgrade image) _ (.at (enterFinish view addr))
      rw [enterFinish]
      split
      next hname => exact .upgradedUnlisted hname
      next hname => exact .upgraded hname
  | markWaiting => exact .waiting
  | ready left =>
    cases hop
    exact .polled
  | report left ready =>
    cases hop
    show StageMove r view addr (.report left ready) _ (.at (afterReport view left ready rep))
    rw [afterReport]
    split
    next hok =>
      rw [Bool.and_eq_true, beq_iff_eq] at hok
      obtain ⟨rfl, hversion⟩ := hok
      exact .healthy hversion
    next hno =>
      refine .unhealthy fun hready hversion => hno ?_
      rw [Bool.and_eq_true, beq_iff_eq]
      exact ⟨hready, hversion⟩
  | wait left ready version =>
    cases hop
    cases left with
    -- the deadline passed with the last poll
    | zero => exact .timedOut (Or.inl rfl)
    | succ left =>
      show StageMove r view addr (.wait (left + 1) ready version) _
        (.at (afterWait view addr ready version (left + 1) rep))
      rw [afterWait]
      split
      next hover => exact .timedOut (Or.inr hover)
      next hover =>
        obtain rfl : rep = false := Bool.eq_false_iff.2 hover
        exact .again
  | uncordon =>
    cases hop
    rcases rep with err | ⟨⟩
    · exact .uncordonFailed
    · exact .uncordoned
  | markDone => exact .finished
  | markFailed msg => exact .halted

/-! ## A pass -/

/-- One step of a pass over a pool. -/
inductive PoolMove (r : RolloutReconciler) (cluster pool : String) :
    PoolPos → Ev → PoolPos → Prop where
  /- the pool -/
  | poolFailed {e : StoreError} :
      PoolMove r cluster pool .pool (ev (.store (.getNodePool cluster pool)) (.error e))
        (.returned (.error e.text))
  | poolMissing {rev : Nat} :
      PoolMove r cluster pool .pool (ev (.store (.getNodePool cluster pool)) (.ok (none, rev)))
        (.returned (.error
          ("rollout: nodepool " ++ quote cluster ++ "/" ++ quote pool ++ " not found")))
  | paused {np : NodePool} {rev : Nat} : np.paused = true →
      PoolMove r cluster pool .pool (ev (.store (.getNodePool cluster pool)) (.ok (some np, rev)))
        (.returned (.ok ()))
  | pinned {np : NodePool} {rev : Nat} : np.paused = false → np.desiredTalosVersion ≠ "" →
      PoolMove r cluster pool .pool (ev (.store (.getNodePool cluster pool)) (.ok (some np, rev)))
        (.nodes np np.desiredTalosVersion)
  | unpinned {np : NodePool} {rev : Nat} : np.paused = false → np.desiredTalosVersion = "" →
      PoolMove r cluster pool .pool (ev (.store (.getNodePool cluster pool)) (.ok (some np, rev)))
        (.cluster np)
  /- the target, where the pool does not set it -/
  | clusterFailed {np : NodePool} {e : StoreError} :
      PoolMove r cluster pool (.cluster np) (ev (.store (.getCluster cluster)) (.error e))
        (.returned (.error e.text))
  | clusterMissing {np : NodePool} {rev : Nat} :
      PoolMove r cluster pool (.cluster np) (ev (.store (.getCluster cluster)) (.ok (none, rev)))
        (.returned (.error ("rollout: cluster " ++ quote cluster ++ " not found")))
  | targeted {np : NodePool} {cl : Cluster} {rev : Nat} : cl.desiredTalosVersion ≠ "" →
      PoolMove r cluster pool (.cluster np) (ev (.store (.getCluster cluster)) (.ok (some cl, rev)))
        (.nodes np cl.desiredTalosVersion)
  | untargeted {np : NodePool} {cl : Cluster} {rev : Nat} : cl.desiredTalosVersion = "" →
      PoolMove r cluster pool (.cluster np) (ev (.store (.getCluster cluster)) (.ok (some cl, rev)))
        (.returned (.error ("rollout: no target Talos version for " ++ cluster ++ "/" ++ pool)))
  /- the nodes -/
  | nodesFailed {np : NodePool} {target e : String} :
      PoolMove r cluster pool (.nodes np target) (ev (.kube r.client "" .listNodes) (.error e))
        (.returned (.error ("list nodes: " ++ e)))
  | nobody {np : NodePool} {target : String} {nodes : List NodeInfo} :
      sortStrings np.members = [] →
      PoolMove r cluster pool (.nodes np target) (ev (.kube r.client "" .listNodes) (.ok nodes))
        (.returned (.ok ()))
  | entered {np : NodePool} {target addr : String} {nodes : List NodeInfo} {todo : List String} :
      sortStrings np.members = addr :: todo →
      PoolMove r cluster pool (.nodes np target) (ev (.kube r.client "" .listNodes) (.ok nodes))
        (.member ⟨cluster, np, target, nodes⟩ [] addr todo .record)
  /- the members -/
  | inVisit {view : PoolView} {visited todo : List String} {addr : String} {stage stage' : Stage}
      {e : Ev} : StageMove r view addr stage e (.at stage') →
      PoolMove r cluster pool (.member view visited addr todo stage) e
        (.member view visited addr todo stage')
  | nextVisit {view : PoolView} {visited todo : List String} {addr addr' : String} {stage : Stage}
      {e : Ev} : StageMove r view addr stage e (.leave none) →
      PoolMove r cluster pool (.member view visited addr (addr' :: todo) stage) e
        (.member view (visited ++ [addr]) addr' todo .record)
  | lastVisit {view : PoolView} {visited : List String} {addr : String} {stage : Stage} {e : Ev} :
      StageMove r view addr stage e (.leave none) →
      PoolMove r cluster pool (.member view visited addr [] stage) e (.returned (.ok ()))
  | endedVisit {view : PoolView} {visited todo : List String} {addr : String} {stage : Stage}
      {e : Ev} {result : Except String Unit} : StageMove r view addr stage e (.leave (some result)) →
      PoolMove r cluster pool (.member view visited addr todo stage) e (.returned result)

/-- A pass moves as listed. -/
theorem poolNext_moves {cluster pool : String} {pos : PoolPos} {e : Ev}
    (hop : r.poolIssues cluster pool pos = some e.op) :
    PoolMove r cluster pool pos e (r.poolNext cluster pool pos e) := by
  obtain ⟨op, rep⟩ := e
  cases pos with
  | pool =>
    cases hop
    rcases rep with e | ⟨_ | np, rev⟩
    · exact .poolFailed
    · exact .poolMissing
    · show PoolMove r cluster pool .pool _ (withPool cluster pool np)
      rw [withPool]
      split
      next hp => exact .paused hp
      next hp =>
        rw [Bool.not_eq_true] at hp
        split
        next ht =>
          rw [withTarget, if_neg ht]
          exact .pinned hp ht
        next ht => exact .unpinned hp (not_not.1 ht)
  | cluster np =>
    cases hop
    rcases rep with e | ⟨_ | cl, rev⟩
    · exact .clusterFailed
    · exact .clusterMissing
    · show PoolMove r cluster pool (.cluster np) _
        (withTarget cluster pool np cl.desiredTalosVersion)
      rw [withTarget]
      split
      next ht => exact .untargeted ht
      next ht => exact .targeted ht
  | nodes np target =>
    cases hop
    rcases rep with e | nodes
    · exact .nodesFailed
    · show PoolMove r cluster pool (.nodes np target) _
        (nextMember ⟨cluster, np, target, nodes⟩ [] (sortStrings np.members))
      cases hm : sortStrings np.members with
      | nil => exact .nobody hm
      | cons addr todo => exact .entered hm
  | member view visited addr todo stage =>
    have hmove := stageNext_moves (Option.some.inj hop)
    show PoolMove r cluster pool (.member view visited addr todo stage) _
      (settleStep view addr visited todo (r.stageNext view addr stage ⟨op, rep⟩))
    generalize r.stageNext view addr stage ⟨op, rep⟩ = step at hmove
    rcases step with stage' | (_ | result)
    · exact .inVisit hmove
    · cases todo with
      | nil => exact .lastVisit hmove
      | cons addr' todo => exact .nextVisit hmove
    · exact .endedVisit hmove
  | returned result => cases hop

end RolloutReconciler

/-! ## The executor -/

namespace RolloutExecutor

/-- One step of the executor. -/
inductive ExecMove (e : RolloutExecutor) : ExecPos → Ev → ExecPos → Prop where
  /- the two listings -/
  | clustersFailed {err : StoreError} :
      ExecMove e .clusters (ev (.store .listClusters) (.error err)) .idle
  | clustersListed {cls : List Cluster} :
      ExecMove e .clusters (ev (.store .listClusters) (.ok cls)) (scanClusters cls)
  | jobsFailed {cl : Cluster} {todo : List Cluster} {err : StoreError} :
      ExecMove e (.jobs cl todo) (ev (.store (.listRolloutJobs cl.name)) (.error err)) .idle
  | jobsListed {cl : Cluster} {todo : List Cluster} {jobs : List Rollout} :
      ExecMove e (.jobs cl todo) (ev (.store (.listRolloutJobs cl.name)) (.ok jobs))
        (scanJobs cl todo jobs)
  /- a job gets its clients, or is left for a later pass -/
  | unconnected {f : JobFrame} {err : String} :
      ExecMove e (.connect f) (ev (.connect f.cl (.rollout f.job)) (.error err)) (afterJob f)
  | connected {f : JobFrame} :
      ExecMove e (.connect f) (ev (.connect f.cl (.rollout f.job)) (.ok ())) (e.dispatch f)
  | unconnectedK8s {f : JobFrame} {err : String} :
      ExecMove e (.connectK8s f) (ev (.connectK8s f.cl (.rollout f.job)) (.error err)) (afterJob f)
  | connectedK8s {f : JobFrame} :
      ExecMove e (.connectK8s f) (ev (.connectK8s f.cl (.rollout f.job)) (.ok ()))
        (.markRunningK8s f)
  /- a job runs -/
  | begun {f : JobFrame} {ev : Ev} : ExecMove e (.markRunning f) ev (.pool f .pool)
  | passes {f : JobFrame} {pos : PoolPos} {ev : Ev} :
      (e.reconcilerOf f).poolIssues f.cl.name f.job.pool pos = some ev.op →
      ExecMove e (.pool f pos) ev
        (.pool f ((e.reconcilerOf f).poolNext f.cl.name f.job.pool pos ev))
  | begunK8s {f : JobFrame} {ev : Ev} :
      ExecMove e (.markRunningK8s f) ev
        (.k8s f (RolloutReconciler.k8sStart f.cl.name f.job.targetVersion))
  | upgrades {f : JobFrame} {pos : K8sPos} {ev : Ev} :
      (e.reconcilerOf f).k8sIssues f.cl.name f.job.targetVersion pos = some ev.op →
      ExecMove e (.k8s f pos) ev (.k8s f (RolloutReconciler.k8sNext f.job.targetVersion pos ev))
  /- the outcome of a job has been recorded -/
  | concluded {f : JobFrame} {result : Except String Unit} {ev : Ev} :
      ExecMove e (.pool f (.returned result)) ev (afterJob f)
  | concludedK8s {f : JobFrame} {result : Except String Unit} {ev : Ev} :
      ExecMove e (.k8s f (.returned result)) ev (afterJob f)
  | rejected {f : JobFrame} {msg : String} {ev : Ev} : ExecMove e (.reject f msg) ev (afterJob f)

/-- In a pass the executor issues what the pass does. -/
theorem issues_pool {e : RolloutExecutor} {f : JobFrame} {pos : PoolPos} {op : Op}
    (hop : (e.reconcilerOf f).poolIssues f.cl.name f.job.pool pos = some op) :
    e.issues (.pool f pos) = some op := by
  cases pos with
  | returned result => cases hop
  | _ => exact hop

/-- The executor moves as listed. -/
theorem next_moves {e : RolloutExecutor} {pos : ExecPos} {ev : Ev}
    (hop : e.issues pos = some ev.op) : ExecMove e pos ev (e.next pos ev) := by
  obtain ⟨op, rep⟩ := ev
  cases pos with
  | idle => cases hop
  | clusters =>
    cases hop
    rcases rep with err | cls
    · exact .clustersFailed
    · exact .clustersListed
  | jobs cl todo =>
    cases hop
    rcases rep with err | jobs
    · exact .jobsFailed
    · exact .jobsListed
  | connect f =>
    cases hop
    rcases rep with err | ⟨⟩
    · exact .unconnected
    · exact .connected
  | markRunning f => exact .begun
  | pool f pos =>
    cases pos with
    | returned result => exact .concluded
    | _ => exact .passes hop
  | connectK8s f =>
    cases hop
    rcases rep with err | ⟨⟩
    · exact .unconnectedK8s
    · exact .connectedK8s
  | markRunningK8s f => exact .begunK8s
  | k8s f pos =>
    cases pos with
    | returned result => exact .concludedK8s
    | _ => exact .upgrades hop
  | reject f msg => exact .rejected

end RolloutExecutor

end Medea
