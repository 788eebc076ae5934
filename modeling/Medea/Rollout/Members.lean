import Medea.Rollout.Coherence

/-!
# Places in a pass and at a member

Most of what is proved about rollouts concerns a pass over a pool, and in it the visit of one
member. `ExecPos.InPool` states a property of the executor while it is in a pass, and
`ExecPos.AtMember` one while it visits a member. `next_inPool` and `next_atMember` are the step rules:
a pass begins with reading its pool, a visit begins at the record of the member, and then goes from
stage to stage.
-/

set_option autoImplicit false

namespace Medea

open Medea.Interaction RolloutExecutor

/-- The property holds if the executor is in a pass over a pool. -/
def ExecPos.InPool (P : JobFrame → PoolPos → Prop) : ExecPos → Prop
  | .pool f pos => P f pos
  | _ => True

namespace ExecPos

variable {P Q : JobFrame → PoolPos → Prop}

theorem InPool.mono {pos : ExecPos} (h : ∀ f pos, P f pos → Q f pos) (hp : pos.InPool P) :
    pos.InPool Q := by
  cases pos with
  | pool f pos => exact h f pos hp
  | _ => trivial

theorem inPool_scanClusters (todo : List Cluster) :
    (scanClusters todo).InPool P := by
  induction todo with
  | nil => trivial
  | cons cl todo ih =>
    rw [scanClusters]
    split
    · trivial
    · exact ih

theorem inPool_scanJobs (cl : Cluster) (todo : List Cluster) (jobs : List Rollout) :
    (scanJobs cl todo jobs).InPool P := by
  induction jobs with
  | nil => exact inPool_scanClusters todo
  | cons job jobs ih =>
    rw [scanJobs]
    split
    · trivial
    · exact ih

theorem inPool_dispatch (e : RolloutExecutor) (f : JobFrame) : (e.dispatch f).InPool P := by
  rw [dispatch]
  cases f.job.kind with
  | talos => trivial
  | kubernetes =>
    dsimp only
    split <;> trivial
  | unspecified => trivial

end ExecPos

namespace RolloutExecutor

variable {e : RolloutExecutor} {P : JobFrame → PoolPos → Prop}

/-- A step keeps a property of passes that holds when one begins, if the steps of a pass keep it. -/
theorem next_inPool {pos : ExecPos} {ev : Ev} (hop : e.issues pos = some ev.op)
    (hbegin : ∀ f, P f .pool)
    (hpool : ∀ f pos', pos = .pool f pos' →
      (e.reconcilerOf f).poolIssues f.cl.name f.job.pool pos' = some ev.op →
      P f ((e.reconcilerOf f).poolNext f.cl.name f.job.pool pos' ev)) :
    (e.next pos ev).InPool P := by
  have hmove := next_moves hop
  generalize e.next pos ev = pos' at hmove
  cases hmove with
  | clustersFailed | jobsFailed | connectedK8s | begunK8s | upgrades _ => trivial
  | clustersListed => exact ExecPos.inPool_scanClusters _
  | jobsListed | unconnected | unconnectedK8s | concluded | concludedK8s | rejected =>
    exact ExecPos.inPool_scanJobs _ _ _
  | connected => exact ExecPos.inPool_dispatch e _
  | begun => exact hbegin _
  | passes hissues => exact hpool _ _ rfl hissues

end RolloutExecutor

/-! ## At a member -/

/-- The property holds if the pass is visiting a member. -/
def PoolPos.AtMember (P : PoolView → String → Stage → Prop) : PoolPos → Prop
  | .member view _ addr _ stage => P view addr stage
  | _ => True

/-- The property holds if the executor is visiting a member. -/
def ExecPos.AtMember (P : PoolView → String → Stage → Prop) : ExecPos → Prop :=
  ExecPos.InPool fun _ pos => pos.AtMember P

namespace PoolPos

variable {P Q : PoolView → String → Stage → Prop}

theorem AtMember.mono {pos : PoolPos} (h : ∀ view addr stage, P view addr stage → Q view addr stage)
    (hp : pos.AtMember P) : pos.AtMember Q := by
  cases pos with
  | member view visited addr todo stage => exact h view addr stage hp
  | _ => trivial

end PoolPos

theorem ExecPos.AtMember.mono {P Q : PoolView → String → Stage → Prop} {pos : ExecPos}
    (h : ∀ view addr stage, P view addr stage → Q view addr stage) (hp : pos.AtMember P) :
    pos.AtMember Q := InPool.mono (fun _ _ => PoolPos.AtMember.mono h) hp

/-- A step keeps a property of visits that holds at the record of every member, if the stages of a
visit keep it. -/
theorem RolloutExecutor.next_atMember {e : RolloutExecutor} {P : PoolView → String → Stage → Prop}
    {pos : ExecPos} {ev : Ev} (hop : e.issues pos = some ev.op)
    (hrecord : ∀ view addr, P view addr .record)
    (hstage : ∀ f view visited addr todo stage stage',
      pos = .pool f (.member view visited addr todo stage) →
      RolloutReconciler.StageMove (e.reconcilerOf f) view addr stage ev (.at stage') →
      P view addr stage') :
    (e.next pos ev).AtMember P := by
  refine next_inPool hop (fun _ => trivial) ?_
  rintro f pos' rfl hissues
  have hmove := RolloutReconciler.poolNext_moves hissues
  generalize (e.reconcilerOf f).poolNext f.cl.name f.job.pool pos' ev = pos'' at hmove
  cases hmove with
  | entered _ | nextVisit _ => exact hrecord _ _
  | inVisit hstep => exact hstage f _ _ _ _ _ _ rfl hstep
  | _ => trivial

/-- The stages of a snapshot in the visit of a member. -/
def Stage.taking : Stage → Bool
  | .mkdir | .openFile | .snapshot | .closeFile _ => true
  | _ => false

/-! ## The job of an operation -/

/-- The client that an operation makes or works through. -/
def Op.client : Op → Option Client
  | .connect cl work | .connectK8s cl work => some ⟨cl.name, work⟩
  | .talos client _ | .kube client _ _ | .upgradeK8s client _ _ | .wait client _ => some client
  | _ => none

/-- The client and the member of an operation that only a visit makes. -/
def Op.visits : Op → Option (Client × String)
  | .talos client (.upgradeOS addr _) | .kube client addr (.drain _ _)
  | .kube client addr (.uncordon _) => some (client, addr)
  | _ => none

namespace RolloutExecutor

/-- A call for the job in hand, and the place it is made from. -/
inductive Calls (x : RolloutExecutor) (f : JobFrame) : ExecPos → Op → Prop
  | connect : Calls x f (.connect f) (.connect f.cl (.rollout f.job))
  | connectK8s : Calls x f (.connectK8s f) (.connectK8s f.cl (.rollout f.job))
  | nodes (np : NodePool) (target : String) :
      Calls x f (.pool f (.nodes np target)) (.kube (x.reconcilerOf f).client "" .listNodes)
  | visit {view : PoolView} {visited : List String} {addr : String} {todo : List String}
      {stage : Stage} {op : Op} (h : (x.reconcilerOf f).stageIssues view addr stage = op) :
      Calls x f (.pool f (.member view visited addr todo stage)) op
  | upgrade {pos : K8sPos} {op : Op}
      (h : (x.reconcilerOf f).k8sIssues f.cl.name f.job.targetVersion pos = some op) :
      Calls x f (.k8s f pos) op

/-- The record of the job in hand, and the place it is written from. -/
inductive Records (f : JobFrame) : ExecPos → Rollout → Prop
  | running : Records f (.markRunning f) { f.job with state := .running }
  | runningK8s : Records f (.markRunningK8s f) { f.job with state := .running }
  | concluded (result : Except String Unit) :
      Records f (.pool f (.returned result)) (outcome f.job result)
  | concludedK8s (result : Except String Unit) :
      Records f (.k8s f (.returned result)) (outcome f.job result)
  | rejected (msg : String) :
      Records f (.reject f msg) { f.job with state := .failed, message := msg }

variable {x : RolloutExecutor} {pos : ExecPos} {op : Op}

/-- Every call of the executor is one for the job in hand. -/
theorem calls_of_issues {client : Client} (hop : x.issues pos = some op)
    (hc : op.client = some client) :
    ∃ f, client = ⟨f.cl.name, .rollout f.job⟩ ∧ x.Calls f pos op := by
  cases pos with
  | connect f =>
    cases hop
    cases hc
    exact ⟨f, rfl, .connect⟩
  | connectK8s f =>
    cases hop
    cases hc
    exact ⟨f, rfl, .connectK8s⟩
  | pool f pos =>
    cases pos with
    | nodes np target =>
      cases hop
      cases hc
      exact ⟨f, rfl, .nodes np target⟩
    | member view visited addr todo stage =>
      refine ⟨f, ?_, .visit (Option.some.inj hop)⟩
      cases stage <;> cases hop <;> cases hc <;> rfl
    | _ =>
      cases hop
      cases hc
  | k8s f pos =>
    cases pos with
    | nodes | snapshot | upgrade | verify =>
      cases hop
      cases hc
      exact ⟨f, rfl, .upgrade rfl⟩
    | _ =>
      cases hop
      cases hc
  | _ => cases hop <;> cases hc

theorem visit_of_issues {client : Client} {addr : String} (hop : x.issues pos = some op)
    (hv : op.visits = some (client, addr)) :
    ∃ f view visited todo stage, client = ⟨f.cl.name, .rollout f.job⟩ ∧
      pos = .pool f (.member view visited addr todo stage) ∧
      (x.reconcilerOf f).stageIssues view addr stage = op := by
  have hc : op.client = some client := by
    unfold Op.visits at hv
    split at hv <;> cases hv <;> rfl
  obtain ⟨f, rfl, hcalls⟩ := calls_of_issues hop hc
  cases hcalls with
  | connect | connectK8s | nodes => cases hv
  | @visit view visited addr' todo stage _ h =>
    obtain rfl : addr' = addr := by cases stage <;> cases h <;> cases hv <;> rfl
    exact ⟨f, view, visited, todo, stage, rfl, rfl, h⟩
  | @upgrade pos _ h => cases pos <;> cases h <;> cases hv

/-- Every job record that the executor writes is one of the job in hand. -/
theorem records_of_issues {job : Rollout} (hop : x.issues pos = some (.store (.putRolloutJob job))) :
    ∃ f, Records f pos job := by
  cases pos with
  | markRunning f =>
    cases hop
    exact ⟨f, .running⟩
  | markRunningK8s f =>
    cases hop
    exact ⟨f, .runningK8s⟩
  | reject f msg =>
    cases hop
    exact ⟨f, .rejected msg⟩
  | pool f pos =>
    cases pos with
    | returned result =>
      cases hop
      exact ⟨f, .concluded result⟩
    | member view visited addr todo stage => cases stage <;> cases hop
    | _ => cases hop
  | k8s f pos =>
    cases pos with
    | returned result =>
      cases hop
      exact ⟨f, .concludedK8s result⟩
    | _ => cases hop
  | _ => cases hop

end RolloutExecutor

end Medea
