import Medea.Rollout.Reconciler

/-!
# What a finished Kubernetes upgrade says

The upgrade succeeds in two ways. After the upgrade call it lists the nodes again and fails if one of
them is not at the target. Before the call it returns at once if the cluster is at the target
already, and that it decides by one node: the control-plane node that is listed last.

`reconcileK8s_success` states what a successful execution has listed. `k8s_success_converged_iff`
says for which first lists success means that every node listed last is at the target.
-/

set_option autoImplicit false

namespace Medea

open Medea.Interaction RolloutReconciler

/-- The node list an event returns. -/
def listing : Ev → Option (List NodeInfo)
  | ⟨.kube _ _ .listNodes, .ok nodes⟩ => some nodes
  | _ => none

/-- The node lists read in an execution, in order. -/
def listings (t : Trace medeaSig) : List (List NodeInfo) := t.filterMap listing

/-- Every node is at the version, up to a leading `v`. -/
def AllAt (version : String) (nodes : List NodeInfo) : Prop :=
  ∀ n ∈ nodes, sameVersion n.kubeletVersion version = true

/-- The node that stands for the cluster is at the target. -/
def TakenForConverged (target : String) (nodes : List NodeInfo) : Prop :=
  (RolloutReconciler.controlPlaneOf nodes).1 ≠ "" ∧
    sameVersion (RolloutReconciler.controlPlaneOf nodes).2 target = true

instance (target : String) (nodes : List NodeInfo) : Decidable (TakenForConverged target nodes) :=
  inferInstanceAs (Decidable (_ ∧ _))

/-- The ways to succeed: on the first list, or on the one read after the upgrade. -/
def SuccessOn (target : String) (lists : List (List NodeInfo)) : Prop :=
  (∃ nodes, lists = [nodes] ∧ TakenForConverged target nodes) ∨
    ∃ first last, lists = [first, last] ∧ ¬TakenForConverged target first ∧ AllAt target last

namespace Kubernetes

variable {cluster : String}

/-- Executions together with the lists they have read. -/
def reading : Contract medeaSig (List (List NodeInfo)) :=
  .quiet (fun _ _ => True) (fun _ _ => True) fun lists e => lists ++ (listing e).toList

/-- What holds of the result of an execution. -/
def Post (target : String) (res : Except String Unit) (lists : List (List NodeInfo)) : Prop :=
  res = .ok () → SuccessOn target lists

variable {target : String} {lists : List (List NodeInfo)} {r : RolloutReconciler} {α : Type}
  {Q : α → List (List NodeInfo) → Prop}

/-- A call that reads no node list. -/
theorem keeps_call {op : Op} {k : op.Reply → Prog α} (hop : ∀ rep, listing ⟨op, rep⟩ = none)
    (hk : ∀ rep, (k rep).Keeps reading Q lists) :
    (call op >>= k).Keeps reading Q lists := by
  show (Program.request op k).Keeps reading Q lists
  refine Program.keeps_quiet_request.2 fun rep _ => ⟨trivial, ?_⟩
  rw [hop rep, Option.toList_none, List.append_nil]
  exact hk rep

/-- A call that reads one. -/
theorem keeps_list {client : Client} {k : Except String (List NodeInfo) → Prog α}
    (herr : ∀ e, (k (.error e)).Keeps reading Q lists)
    (hok : ∀ nodes, (k (.ok nodes)).Keeps reading Q (lists ++ [nodes])) :
    (callKube client "" .listNodes >>= k).Keeps reading Q lists := by
  refine Program.keeps_quiet_request.2 fun rep _ => ⟨trivial, ?_⟩
  cases rep with
  | error e =>
    show (k (.error e)).Keeps reading Q (lists ++ [])
    rw [List.append_nil]
    exact herr e
  | ok nodes => exact hok nodes

theorem keeps_done {a : α} (h : Q a lists) :
    (Program.done a : Prog α).Keeps reading Q lists := Program.keeps_quiet_done.2 h

theorem keeps_failCluster {msg : String} :
    (failCluster cluster target msg).Keeps reading (Post target) lists :=
  keeps_call (fun _ => rfl) fun _ => keeps_done nofun

/-- The phase is written and the upgrade has succeeded. -/
theorem keeps_success (h : SuccessOn target lists) :
    (do setClusterPhase cluster .idle target ""
        return .ok () : Prog (Except String Unit)).Keeps reading (Post target) lists :=
  keeps_call (fun _ => rfl) fun _ => keeps_done fun _ => h

theorem keeps_snapshot {addr : String} :
    (r.snapshot cluster addr).Keeps reading (fun _ lists' => lists' = lists) lists := by
  refine keeps_call (fun _ => rfl) fun made => ?_
  rcases made with e | ⟨⟩
  · exact keeps_done rfl
  refine keeps_call (fun _ => rfl) fun opened => ?_
  rcases opened with e | ⟨⟩
  · exact keeps_done rfl
  refine keeps_call (fun _ => rfl) fun taken => ?_
  rcases taken with e | ⟨⟩
  · exact keeps_call (fun _ => rfl) fun _ => keeps_done rfl
  · exact keeps_call (fun _ => rfl) fun _ => keeps_done rfl

theorem allAt_of_find {nodes : List NodeInfo}
    (h : (nodes.find? fun n => !sameVersion n.kubeletVersion target) = none) :
    AllAt target nodes := by
  intro n hn
  have hno := List.find?_eq_none.1 h n hn
  simpa using hno

/-- The check after the upgrade. -/
theorem keeps_verifyNodes {first : List NodeInfo} (hf : ¬TakenForConverged target first) :
    (r.verifyNodes cluster target).Keeps reading (Post target) [first] := by
  refine keeps_list (fun e => keeps_failCluster) fun nodes => ?_
  dsimp only
  split
  · exact keeps_failCluster
  next hfind => exact keeps_success (Or.inr ⟨first, nodes, rfl, hf, allAt_of_find hfind⟩)

/-- Every execution that returns success has succeeded in one of the two ways. -/
theorem keeps_reconcileK8s :
    (r.reconcileK8s cluster target).Keeps reading (Post target) [] := by
  rw [reconcileK8s]
  split
  · exact keeps_done nofun
  refine keeps_call (fun _ => rfl) fun _ => keeps_list (fun e => keeps_failCluster) fun nodes => ?_
  dsimp only
  split
  · exact keeps_failCluster
  next hip =>
    split
    next hsame => exact keeps_success (Or.inl ⟨nodes, rfl, hip, hsame⟩)
    next hsame =>
      refine Program.Keeps.bind keeps_snapshot ?_
      rintro (e | ⟨⟩) _ rfl
      · exact keeps_failCluster
      refine keeps_call (fun _ => rfl) fun rep => ?_
      rcases rep with e | ⟨⟩
      · exact keeps_failCluster
      · exact keeps_verifyNodes fun h => hsame h.2

theorem foldl_reading (t : Trace medeaSig) (lists : List (List NodeInfo)) :
    t.foldl reading.next lists = lists ++ listings t := by
  induction t generalizing lists with
  | nil => simp [listings]
  | cons e t ih =>
    rw [List.foldl_cons, ih]
    show lists ++ (listing e).toList ++ listings t = lists ++ listings (e :: t)
    cases h : listing e <;> simp [listings, h]

end Kubernetes

/-- What a successful execution has listed. -/
theorem reconcileK8s_success {r : RolloutReconciler} {cluster target : String}
    {t : Trace medeaSig} (h : (r.reconcileK8s cluster target).Steps t (.done (.ok ()))) :
    SuccessOn target (listings t) := by
  have hadmits : Along Kubernetes.reading.next Kubernetes.reading.admits [] t :=
    along_of_split fun _ _ _ _ => trivial
  have hend := (Kubernetes.keeps_reconcileK8s.steps h hadmits).2.of_done
  rw [Kubernetes.foldl_reading, List.nil_append] at hend
  exact hend rfl

theorem reconcileK8s_target {r : RolloutReconciler} {cluster target : String}
    {t : Trace medeaSig} (h : (r.reconcileK8s cluster target).Steps t (.done (.ok ()))) :
    target ≠ "" := by
  intro ht
  rw [reconcileK8s, if_pos ht] at h
  cases (Program.Steps.of_done h).2

/-- The execution that returns on the first list. -/
theorem reconcileK8s_returns_early (r : RolloutReconciler) (cluster : String) {target : String}
    {nodes : List NodeInfo} (ht : target ≠ "") (h : TakenForConverged target nodes) :
    ∃ t, (r.reconcileK8s cluster target).Steps t (.done (.ok ())) ∧ listings t = [nodes] := by
  let upgrading : ClusterRollout :=
    { cluster, phase := .upgrading, targetKubernetesVersion := target, message := "upgrading" }
  let idle : ClusterRollout :=
    { cluster, phase := .idle, targetKubernetesVersion := target, message := "" }
  refine ⟨[ev (.store (.putClusterRollout upgrading)) (.ok ()),
    ev (.kube r.client "" .listNodes) (.ok nodes),
    ev (.store (.putClusterRollout idle)) (.ok ())], ?_, rfl⟩
  rw [reconcileK8s, if_neg ht]
  refine .head _ (.head _ ?_)
  simp only [Program.bind]
  rw [if_neg h.1, if_pos h.2]
  exact .head _ (.refl _)

/-- For every first node list: success of an upgrade that starts with it means that every node of the
list read last is at the target, unless there is a target and the control-plane node listed last is
at it while another node is not. -/
theorem k8s_success_converged_iff (r : RolloutReconciler) (cluster target : String)
    (first : List NodeInfo) :
    (∀ t, (r.reconcileK8s cluster target).Steps t (.done (.ok ())) →
        (listings t).head? = some first →
        ∃ last, (listings t).getLast? = some last ∧ AllAt target last) ↔
      (target ≠ "" → TakenForConverged target first → AllAt target first) := by
  constructor
  · intro h ht htaken
    obtain ⟨t, hsteps, hlists⟩ := reconcileK8s_returns_early r cluster ht htaken
    obtain ⟨last, hlast, hall⟩ := h t hsteps (by rw [hlists]; rfl)
    rw [hlists] at hlast
    cases hlast
    exact hall
  · intro h t hsteps hfirst
    rcases reconcileK8s_success hsteps with ⟨nodes, hlists, htaken⟩ | ⟨nodes, last, hlists, _, hall⟩
    · rw [hlists] at hfirst ⊢
      cases hfirst
      exact ⟨first, rfl, h (reconcileK8s_target hsteps) htaken⟩
    · rw [hlists]
      exact ⟨last, rfl, hall⟩

/-- An upgrade to `v1.31.0` was interrupted between the control plane and the worker. The next one
succeeds on a list with the worker still behind. -/
theorem interrupted_upgrade_taken_for_converged : ∃ (r : RolloutReconciler) (t : Trace medeaSig)
    (last : List NodeInfo) (n : NodeInfo),
    (r.reconcileK8s "c" "v1.31.0").Steps t (.done (.ok ())) ∧
      (listings t).getLast? = some last ∧ n ∈ last ∧
      sameVersion n.kubeletVersion "v1.31.0" = false := by
  let worker : NodeInfo := ⟨"w1", "10.0.0.2", "worker", "v1.30.0", true⟩
  let nodes : List NodeInfo := [⟨"n1", "10.0.0.1", "controlplane", "v1.31.0", true⟩, worker]
  let job : Rollout := { cluster := "c", kind := .kubernetes, targetVersion := "v1.31.0" }
  let r : RolloutReconciler := ⟨⟨"c", .rollout job⟩, "/snap", 0⟩
  have htaken : TakenForConverged "v1.31.0" nodes := by decide +kernel
  obtain ⟨t, hsteps, hlists⟩ := reconcileK8s_returns_early r "c" (by decide) htaken
  exact ⟨r, t, nodes, worker, hsteps, by rw [hlists]; rfl, by simp [nodes], by decide +kernel⟩

end Medea
