import Medea.ControlPlane.Processes
import Medea.Rollout.Conformance
import Medea.Rollout.Holdings

/-!
# Shutting down in the middle of a job

When the context of the executor is cancelled, every call of the job in hand that takes the context
fails, and a health wait ends. The job does not tell this from a failure of the cluster: the places
in `ExecPos.lost` lead to a failed job, every cut-off call leads to one of them
(`next_lost_of_cut`), and with the context cancelled none of them is left before the failure is
recorded (`next_lost`).

`shutdown_unrecorded_iff` states for every execution of a job and every moment of the cancellation
when no failure is recorded because of it: when no call that takes the context was left.
-/

set_option autoImplicit false

namespace Medea

open Medea.Interaction RolloutExecutor

/-! ## Cancellation -/

/-- The operations of a job that stop with its context. The client factories are not among them: when
one fails, the job is left as it is. -/
def Op.usesContext : Op → Bool
  | .talos _ _ | .kube _ _ _ | .upgradeK8s _ _ _ | .wait _ _ => true
  | _ => false

/-- An event after the cancellation. -/
def CutOff : Ev → Prop
  | ⟨.talos _ _, rep⟩ => ∃ e, rep = .error e
  | ⟨.kube _ _ _, rep⟩ => ∃ e, rep = .error e
  | ⟨.upgradeK8s _ _ _, rep⟩ => ∃ e, rep = .error e
  | ⟨.wait _ _, expired⟩ => expired = true
  | _ => True

/-- The record of a failure: of a member, of a Kubernetes upgrade, or of the job. -/
def recordsFailure : Ev → Bool
  | ⟨.store (.putMachineRollout mr), _⟩ => mr.state == .failed
  | ⟨.store (.putClusterRollout cr), _⟩ => cr.phase == .failed
  | ⟨.store (.putRolloutJob job), _⟩ => job.state == .failed
  | _ => false

/-- A failure is recorded after a call that was cut off. -/
def BlamesShutdown (t : Trace medeaSig) : Prop :=
  ∃ before e after, t = before ++ e :: after ∧ e.op.usesContext = true ∧
    ∃ f ∈ after, recordsFailure f = true

/-- A search of the trace for such a blame. -/
def blamesShutdown : Trace medeaSig → Bool
  | [] => false
  | e :: t => (e.op.usesContext && t.any recordsFailure) || blamesShutdown t

theorem blamesShutdown_iff (t : Trace medeaSig) : blamesShutdown t = true ↔ BlamesShutdown t := by
  induction t with
  | nil => simp [blamesShutdown, BlamesShutdown]
  | cons e t ih =>
    rw [blamesShutdown, Bool.or_eq_true, Bool.and_eq_true, List.any_eq_true, ih]
    constructor
    · rintro (⟨huse, hrec⟩ | ⟨before, e', after, rfl, h⟩)
      · exact ⟨[], e, t, rfl, huse, hrec⟩
      · exact ⟨e :: before, e', after, rfl, h⟩
    · rintro ⟨_ | ⟨_, before⟩, e', after, hsplit, h⟩
      · cases hsplit
        exact Or.inl h
      · cases hsplit
        exact Or.inr ⟨before, e', after, rfl, h⟩

instance (t : Trace medeaSig) : Decidable (BlamesShutdown t) :=
  decidable_of_iff _ (blamesShutdown_iff t)

/-! ## Places that lead to a failure -/

def Stage.lost : Stage → Bool
  | .closeFile (.error _) | .report _ false | .wait _ _ _ | .markFailed _ => true
  | _ => false

def StageStep.lost : StageStep → Bool
  | .at s => s.lost
  | .leave (some (.error _)) => true
  | .leave _ => false

def PoolPos.lost : PoolPos → Bool
  | .member _ _ _ _ stage => stage.lost
  | .returned (.error _) => true
  | _ => false

def K8sPos.lost : K8sPos → Bool
  | .closeFile _ _ (.error _) | .settle .failed _ | .returned (.error _) => true
  | _ => false

def ExecPos.lost : ExecPos → Bool
  | .pool _ pos => pos.lost
  | .k8s _ pos => pos.lost
  | _ => false

/-- Only a started job is lost. -/
theorem ExecPos.started_of_lost {pos : ExecPos} (h : pos.lost = true) : pos.started ≠ none := by
  cases pos <;> first | cases h | nofun

namespace RolloutReconciler

variable {r : RolloutReconciler} {view : PoolView} {addr : String} {stage : Stage} {e : Ev}
  {step : StageStep}

theorem StageMove.lost_of_cut (h : StageMove r view addr stage e step)
    (hop : r.stageIssues view addr stage = e.op) (ht : view.target ≠ "")
    (huse : e.op.usesContext = true) (hcut : CutOff e) : step.lost = true := by
  cases h with
  | draining | upgrading | waiting | finished | halted => rw [← hop] at huse; cases huse
  | resumed | resumedUnlisted | fresh => cases huse
  | dirFailed | dirMade | openFailed | opened | streamFailed | closeFailed | closed => cases huse
  | unread | drainFailed | imageFailed | upgradeFailed | uncordonFailed | timedOut => rfl
  | found | held | unlisted | snapshotFirst | drainFirst | drained | imageRead | upgraded
  | upgradedUnlisted | uncordoned =>
    obtain ⟨_, h⟩ := hcut
    cases h
  | streamed =>
    obtain ⟨_, rfl⟩ := hcut
    rfl
  | polled =>
    obtain ⟨_, rfl⟩ := hcut
    rfl
  | healthy hversion =>
    -- a version that could not be read is not the target
    obtain ⟨_, rfl⟩ := hcut
    exact absurd hversion.symm ht
  | unhealthy => rfl
  | again => cases hcut

theorem StageMove.lost_stays (h : StageMove r view addr stage e step) (hcut : CutOff e)
    (hl : stage.lost = true) : step.lost = true := by
  cases h with
  | streamFailed | unhealthy | timedOut | halted => rfl
  | again => cases hcut
  | _ => cases hl

theorem settleStep_lost {visited todo : List String} (h : step.lost = true) :
    (settleStep view addr visited todo step).lost = true := by
  rcases step with s | (_ | (_ | _))
  · exact h
  · cases h
  · rfl
  · cases h

theorem poolNext_lost_of_cut {pos : PoolPos} {f : JobFrame} {pool : String}
    (hc : pos.Coherent f) (hop : r.poolIssues f.cl.name pool pos = some e.op)
    (huse : e.op.usesContext = true) (hcut : CutOff e) :
    (r.poolNext f.cl.name pool pos e).lost = true := by
  cases pos with
  | pool | cluster =>
    rw [← Option.some.inj hop] at huse
    cases huse
  | nodes np target =>
    obtain ⟨op, rep⟩ := e
    cases hop
    obtain ⟨_, rfl⟩ := hcut
    rfl
  | member view visited addr todo stage =>
    have hop := Option.some.inj hop
    exact settleStep_lost ((stageNext_moves hop).lost_of_cut hop hc.1.target huse hcut)
  | returned result => cases hop

theorem poolNext_lost {pos : PoolPos} {cluster pool : String}
    (hop : r.poolIssues cluster pool pos = some e.op) (hcut : CutOff e) (hl : pos.lost = true) :
    (r.poolNext cluster pool pos e).lost = true := by
  cases pos with
  | member view visited addr todo stage =>
    exact settleStep_lost ((stageNext_moves (Option.some.inj hop)).lost_stays hcut hl)
  | returned result => cases hop
  | _ => cases hl

theorem k8sNext_lost_of_cut {pos : K8sPos} {cluster target : String}
    (hop : r.k8sIssues cluster target pos = some e.op) (huse : e.op.usesContext = true)
    (hcut : CutOff e) : (k8sNext target pos e).lost = true := by
  obtain ⟨op, rep⟩ := e
  cases pos with
  | start | mkdir | openFile | closeFile | settle =>
    rw [← Option.some.inj hop] at huse
    cases huse
  | nodes | snapshot | upgrade | verify =>
    cases hop
    obtain ⟨_, rfl⟩ := hcut
    rfl
  | returned result => cases hop

theorem k8sNext_lost {pos : K8sPos} {cluster target : String}
    (hop : r.k8sIssues cluster target pos = some e.op) (hl : pos.lost = true) :
    (k8sNext target pos e).lost = true := by
  cases pos with
  | closeFile cpIP src result =>
    cases result with
    | error msg => rfl
    | ok _ => cases hl
  | settle phase msg =>
    cases phase with
    | failed => rfl
    | _ => cases hl
  | returned result => cases hop
  | _ => cases hl

end RolloutReconciler

/-! ## Executions of a job -/

namespace RolloutExecutor

variable {x : RolloutExecutor} {pos : ExecPos} {e : Ev}

/-- A call that is cut off loses the job. -/
theorem next_lost_of_cut (hc : pos.Coherent) (hop : x.issues pos = some e.op)
    (huse : e.op.usesContext = true) (hcut : CutOff e) : (x.next pos e).lost = true := by
  have hmove := next_moves hop
  generalize x.next pos e = pos' at hmove
  cases hmove with
  | passes hpool => exact RolloutReconciler.poolNext_lost_of_cut hc.2.2 hpool huse hcut
  | upgrades hk8s => exact RolloutReconciler.k8sNext_lost_of_cut hk8s huse hcut
  | _ =>
    -- the other calls do not use the context
    rw [← Option.some.inj hop] at huse
    cases huse

/-- A lost job stays lost until its failure is recorded. -/
theorem next_lost (hop : x.issues pos = some e.op) (hcut : CutOff e) (hl : pos.lost = true) :
    recordsFailure e = true ∨ (x.next pos e).lost = true := by
  have hmove := next_moves hop
  generalize x.next pos e = pos' at hmove
  cases hmove with
  | passes hpool => exact Or.inr (RolloutReconciler.poolNext_lost hpool hcut hl)
  | upgrades hk8s => exact Or.inr (RolloutReconciler.k8sNext_lost hk8s hl)
  | @concluded f result _ | @concludedK8s f result _ =>
    obtain ⟨op, rep⟩ := e
    cases hop
    cases result with
    | error msg => exact Or.inl rfl
    | ok _ => cases hl
  | _ => cases hl

/-- A lost job that comes to its end has been recorded as failed. -/
theorem failure_of_lost {t : Trace medeaSig}
    (ht : Along x.next (fun pos e => x.issues pos = some e.op) pos t) (hcut : ∀ e ∈ t, CutOff e)
    (hl : pos.lost = true) (hend : (t.foldl x.next pos).started = none) :
    ∃ f ∈ t, recordsFailure f = true := by
  induction t generalizing pos with
  | nil => exact absurd hend (ExecPos.started_of_lost hl)
  | cons e t ih =>
    rcases next_lost ht.1 (hcut e List.mem_cons_self) hl with hrec | hl'
    · exact ⟨e, List.mem_cons_self, hrec⟩
    · obtain ⟨f, hf, hrec⟩ := ih ht.2 (fun e he => hcut e (List.mem_cons_of_mem _ he)) hl' hend
      exact ⟨f, List.mem_cons_of_mem _ hf, hrec⟩

end RolloutExecutor

/-! ## A job in two halves -/

namespace Shutdown

/-- A job for the pool `controlplane` of an armed cluster. -/
def cluster : Cluster := { name := "c", rolloutsEnabled := true }

def pool : NodePool :=
  { cluster := "c", name := "controlplane", members := ["10.0.0.1"],
    desired := some { talosVersion := "v1.8.0" } }

def job : Rollout :=
  { cluster := "c", pool := "controlplane", kind := .talos, state := .pending }

def node : NodeInfo := ⟨"n1", "10.0.0.1", "controlplane", "v1.30.0", true⟩

/-- The pool is stored, there is no record of the member, and every call succeeds. -/
def serving (version : String) : Oracle
  | .store (.getNodePool _ _) => .ok (some pool, 1)
  | .store op => (op.exec {}).1
  | op => Oracle.working version [node] op

/-- The answers after the cancellation. -/
def cancelled : Oracle
  | .talos _ _ | .kube _ _ _ | .upgradeK8s _ _ _ => .error "context canceled"
  | .wait _ _ => true
  | op => serving "" op

theorem cancelled_cutOff (op : Op) : CutOff ⟨op, cancelled op⟩ := by
  cases op with
  | talos | kube | upgradeK8s => exact ⟨_, rfl⟩
  | wait => rfl
  | _ => trivial

/-- The first `n` events of the job on nodes that report a version, and then those after the
cancellation. -/
def before (version : String) (n : Nat) : Trace medeaSig × Prog Unit :=
  (Script.settings.rollouts.runJob cluster job).replay (serving version) n

def after (version : String) (n : Nat) : Trace medeaSig × Prog Unit :=
  (before version n).2.replay cancelled 10

theorem after_cutOff (version : String) (n : Nat) : ∀ e ∈ (after version n).1, CutOff e :=
  Program.forall_mem_replay cancelled_cutOff 10 _

/-- The two halves are one execution. -/
theorem steps (version : String) (n : Nat) (h : (after version n).2 = .done ()) :
    (Script.settings.rollouts.runJob cluster job).Steps
      ((before version n).1 ++ (after version n).1) (.done ()) := by
  have hfirst := Program.replay_steps (serving version) n
    (Script.settings.rollouts.runJob cluster job)
  have hsecond := Program.replay_steps cancelled 10 (before version n).2
  rw [← h]
  exact hfirst.trans hsecond

end Shutdown

/-! ## When shutdown is not recorded -/

/-- A job whose context is cancelled after the events `t₁` records no failure because of it exactly
when no call that takes the context was left. -/
theorem shutdown_unrecorded_iff {x : RolloutExecutor} {cl : Cluster} {job : Rollout}
    {t₁ t₂ : Trace medeaSig} (hact : actionable job.state = true)
    (h : (x.runJob cl job).Steps (t₁ ++ t₂) (.done ())) (hcut : ∀ e ∈ t₂, CutOff e) :
    ¬BlamesShutdown t₂ ↔ ∀ e ∈ t₂, e.op.usesContext = false := by
  constructor
  · intro hno e he
    by_contra huse
    obtain ⟨before, after, rfl⟩ := List.append_of_mem he
    by_cases hen : cl.rolloutsEnabled = true
    swap
    · rw [runJob, if_neg hen] at h
      have hnil := (Program.Steps.of_done h).1
      simp at hnil
    let f : JobFrame := ⟨[], cl, [], job⟩
    have hc : (ExecPos.connect f).Coherent := ⟨hen, hact⟩
    obtain ⟨halong, hend⟩ := x.runJob_along f hen h
    have hend := hend rfl
    have hsplit : t₁ ++ (before ++ e :: after) = (t₁ ++ before) ++ e :: after := by simp
    rw [hsplit] at halong hend
    obtain ⟨hpre, hop, hpost⟩ := along_append.1 halong
    -- the cut-off call loses the job, and the job ends
    have hlost := next_lost_of_cut (foldl_next_coherent hc hpre) hop
      (Bool.eq_true_of_not_eq_false huse) (hcut e he)
    have hover : (after.foldl x.next (x.next ((t₁ ++ before).foldl x.next (.connect f)) e)).started
        = none := by
      rw [← List.foldl_cons, ← List.foldl_append, hend]
      exact started_scanJobs _ _ _
    have hfail := failure_of_lost hpost
      (fun e' he' => hcut e' (List.mem_append_right _ (List.mem_cons_of_mem _ he'))) hlost hover
    exact hno ⟨before, e, after, rfl, Bool.eq_true_of_not_eq_false huse, hfail⟩
  · rintro hnone ⟨before, e, after, rfl, huse, -⟩
    rw [hnone e (List.mem_append_right _ List.mem_cons_self)] at huse
    cases huse

/-- The node is at the target and the context is cancelled before this is recorded. -/
theorem cancelled_at_the_end_unrecorded :
    ¬BlamesShutdown (Shutdown.after "v1.8.0" 6).1 := by
  have hsteps := Shutdown.steps "v1.8.0" 6 rfl
  refine (shutdown_unrecorded_iff rfl hsteps (Shutdown.after_cutOff _ _)).2 ?_
  decide +kernel

/-- The context is cancelled while the node is drained. Everything before succeeded; the member and
the job are recorded as failed. -/
theorem cancelled_drain_recorded : ∃ (x : RolloutExecutor) (cl : Cluster) (job : Rollout)
    (t₁ t₂ : Trace medeaSig), actionable job.state = true ∧
      (x.runJob cl job).Steps (t₁ ++ t₂) (.done ()) ∧ (∀ e ∈ t₁, recordsFailure e = false) ∧
      (∀ e ∈ t₂, CutOff e) ∧ BlamesShutdown t₂ :=
  ⟨Script.settings.rollouts, Shutdown.cluster, Shutdown.job, _, _, rfl,
    Shutdown.steps "v1.7.0" 7 rfl, by decide +kernel, Shutdown.after_cutOff _ _, by decide +kernel⟩

end Medea
