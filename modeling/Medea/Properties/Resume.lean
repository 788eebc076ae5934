import Medea.ControlPlane.Observations
import Medea.Interaction.Outcome

/-!
# Resuming a rollout

A pass that finds a member recorded as upgrading, or as waiting for health, only waits for it: the
record says that an upgrade was in hand, not that the upgrade call was made, nor for which target.
This file runs a pass in a site where nothing goes wrong any more (`Site.handles`): every call
succeeds, every node is ready, a node reports the version of the image it was upgraded with last,
and the store takes every write.

In such a site the visit of a member succeeds unless the member is recorded in flight and not at the
target (`visit_converges`, `visit_fails`). `resume_converges_iff` is the same for the whole pass,
from every content of the store and every version of the nodes.
-/

set_option autoImplicit false
set_option maxRecDepth 100000

namespace Medea

open Medea.Interaction RolloutReconciler

/-- What a pass works on: the store, and the version each node reports. -/
structure Site where
  store : Store
  version : String → String

namespace Site

/-- The recorded state of a member. -/
def record (s : Site) (cluster addr : String) : Option RolloutState :=
  s.store.recordState (ckey cluster addr)

/-- Every call succeeds: the nodes are listed as given and are ready, and an upgraded node reports
the version of its image. -/
def handles (versionOf : String → String) (nodes : List NodeInfo) (s : Site) : Ev → Site → Prop
  | ⟨.store op, rep⟩, s' =>
    rep = (op.exec s.store).1 ∧ s' = { s with store := (op.exec s.store).2 }
  | ⟨.talos _ (.version addr), rep⟩, s' => rep = .ok (s.version addr) ∧ s' = s
  | ⟨.talos _ (.upgradeOS addr image), rep⟩, s' =>
    rep = .ok () ∧ s' = { s with version := Function.update s.version addr (versionOf image) }
  | ⟨.talos _ (.etcdSnapshot _ _), rep⟩, s' => rep = .ok () ∧ s' = s
  | ⟨.talos _ _, rep⟩, s' => (∃ value, rep = .ok value) ∧ s' = s
  | ⟨.kube _ _ .listNodes, rep⟩, s' => rep = .ok nodes ∧ s' = s
  | ⟨.kube _ _ (.nodeReady _), rep⟩, s' => rep = .ok true ∧ s' = s
  | ⟨.kube _ _ (.drain _ _), rep⟩, s' => rep = .ok () ∧ s' = s
  | ⟨.kube _ _ (.uncordon _), rep⟩, s' => rep = .ok () ∧ s' = s
  | ⟨.mkdirAll _, rep⟩, s' => rep = .ok () ∧ s' = s
  | ⟨.openFile _, rep⟩, s' => rep = .ok () ∧ s' = s
  | ⟨.closeFile _, rep⟩, s' => rep = .ok () ∧ s' = s
  | _, s' => s' = s

/-- The target of a pool: its own version, or the one of its cluster. -/
def wants (s : Site) (cluster : String) (np : NodePool) : Option String :=
  if np.desiredTalosVersion ≠ "" then some np.desiredTalosVersion
  else (s.store.getCluster cluster).1.map (·.desiredTalosVersion)

/-- The pool a pass finds: stored, not paused, with a target, and every member listed as ready. Every
member has an address, as neither seeding nor provisioning takes a node without one. -/
structure Serves (s : Site) (versionOf : String → String) (nodes : List NodeInfo)
    (cluster pool : String) (np : NodePool) (target : String) : Prop where
  stored : (s.store.getNodePool cluster pool).1 = some np
  running : np.paused = false
  wanted : s.wants cluster np = some target
  aimed : target ≠ ""
  image : ∀ cur, versionOf (deriveInstallerImage cur target) = target
  named : cluster ≠ ""
  addressed : "" ∉ np.members
  listed : ∀ addr ∈ np.members,
    ∃ n, nodeAt nodes addr = some n ∧ n.ready = true ∧ n.name ≠ ""

/-- The member is at the target and recorded as done. -/
structure Converged (cluster target : String) (s : Site) (addr : String) : Prop where
  version : s.version addr = target
  record : s.record cluster addr = some .done

/-- Nothing of the other members has changed. -/
structure Spares (cluster addr : String) (s s' : Site) : Prop where
  version : ∀ a, a ≠ addr → s'.version a = s.version a
  record : ∀ a, a ≠ addr → s'.record cluster a = s.record cluster a

theorem Spares.trans {cluster addr : String} {s1 s2 s3 : Site} (h1 : Spares cluster addr s1 s2)
    (h2 : Spares cluster addr s2 s3) : Spares cluster addr s1 s3 where
  version := by
    intro a ha
    rw [h2.version a ha, h1.version a ha]
  record := by
    intro a ha
    rw [h2.record a ha, h1.record a ha]

theorem spares_update {cluster addr version : String} {s : Site} :
    Spares cluster addr s { s with version := Function.update s.version addr version } where
  version := by
    intro a ha
    exact Function.update_of_ne ha _ _
  record := fun _ _ => rfl

/-- The record of one member has been written. -/
structure Marked (cluster addr : String) (state : RolloutState) (s s' : Site) : Prop where
  self : s'.record cluster addr = some state
  others : ∀ a, a ≠ addr → s'.record cluster a = s.record cluster a
  version : s'.version = s.version

theorem Marked.spares {cluster addr : String} {state : RolloutState} {s s' : Site}
    (h : Marked cluster addr state s s') : Spares cluster addr s s' where
  version := by
    intro a _
    rw [h.version]
  record := h.others

/-- A record with both names is taken by the store. -/
theorem marked_of_put {s : Site} {mr : MachineRollout} (hc : mr.cluster ≠ "") (ha : mr.addr ≠ "") :
    Marked mr.cluster mr.addr mr.state s
      { s with store := ((StoreOp.putMachineRollout mr).exec s.store).2 } := by
  have hnot : ¬(mr.cluster = "" ∨ mr.addr = "") := not_or.2 ⟨hc, ha⟩
  have hrec : ∀ k, ((StoreOp.putMachineRollout mr).exec s.store).2.recordState k =
      if ckey mr.cluster mr.addr = k then some mr.state else s.store.recordState k := by
    intro k
    rcases StoreOp.exec_db s.store (.putMachineRollout mr) with ⟨-, herr⟩ | ⟨db, v, hc, -, hdb⟩
    · -- the write cannot fail
      obtain ⟨e, he⟩ := herr rfl
      simp [StoreOp.exec, Store.putMachineRollout, hnot, Store.putLWW] at he
    · exact Store.recordState_put hc hdb k
  refine ⟨?_, ?_, rfl⟩
  · rw [record, hrec, if_pos rfl]
  · intro a hne
    rw [record, hrec, if_neg fun h => hne (ckey_right h).symm]
    rfl

end Site

namespace RolloutReconciler

variable {r : RolloutReconciler} {versionOf : String → String} {nodes : List NodeInfo}
  {cluster addr name target : String} {s : Site} {α : Type} {Q : α → Site → Prop}

/-! ## Calls -/

theorem ensures_callStore {op : StoreOp} {k : Except StoreError op.Value → Prog α}
    (h : (k (op.exec s.store).1).Ensures (Site.handles versionOf nodes) Q
      { s with store := (op.exec s.store).2 }) :
    (callStore op >>= k).Ensures (Site.handles versionOf nodes) Q s :=
  Program.ensures_perform (S := medeaSig) (fun _ _ => Iff.rfl) h

theorem ensures_version {k : Except String String → Prog α}
    (h : (k (.ok (s.version addr))).Ensures (Site.handles versionOf nodes) Q s) :
    (callTalos r.client (.version addr) >>= k).Ensures (Site.handles versionOf nodes) Q s :=
  Program.ensures_perform (S := medeaSig) (fun _ _ => Iff.rfl) h

/-- The writes of a pass are best effort, but here they succeed. -/
theorem ensures_setState {state : RolloutState} {msg : String} {k : Unit → Prog α}
    (hc : cluster ≠ "") (ha : addr ≠ "")
    (h : ∀ s', Site.Marked cluster addr state s s' →
      (k ()).Ensures (Site.handles versionOf nodes) Q s') :
    (setState cluster addr state target msg >>= k).Ensures (Site.handles versionOf nodes) Q s := by
  apply ensures_callStore
  let mr : MachineRollout := { cluster, addr, state, targetTalosVersion := target, message := msg }
  have hc' : mr.cluster ≠ "" := hc
  exact h _ (Site.marked_of_put hc' ha)

theorem ensures_fail {msg : String} (hc : cluster ≠ "") (ha : addr ≠ "") :
    (fail cluster addr target msg).Ensures (Site.handles versionOf nodes)
      (fun res _ => ∃ e, res = .error e) s := by
  apply ensures_setState hc ha
  intro s' _
  exact ⟨_, rfl⟩

/-! ## Waiting -/

theorem ensures_poll {k : Bool × String → Prog α}
    (h : (k (true, s.version addr)).Ensures (Site.handles versionOf nodes) Q s) :
    (r.poll addr name >>= k).Ensures (Site.handles versionOf nodes) Q s := by
  rw [poll, Program.bind_bind]
  apply Program.ensures_perform (S := medeaSig) (fun _ _ => Iff.rfl)
  rw [Program.bind_bind]
  apply ensures_version
  exact h

/-- A node at the target is found healthy at once. -/
theorem waitHealthy_reached (hv : s.version addr = target) (left : Nat) :
    (r.waitHealthy addr name target left).Ensures (Site.handles versionOf nodes)
      (fun res s' => res = .ok () ∧ s' = s) s := by
  cases left with
  | zero | succ =>
    rw [waitHealthy]
    apply ensures_poll
    simp [hv]

/-- A node that is behind stays behind: nothing in the wait upgrades it. -/
theorem waitHealthy_behind (hv : s.version addr ≠ target) (left : Nat) :
    (r.waitHealthy addr name target left).Ensures (Site.handles versionOf nodes)
      (fun res s' => (∃ e, res = .error e) ∧ s' = s) s := by
  induction left with
  | zero =>
    rw [waitHealthy]
    apply ensures_poll
    simp only [Bool.true_and, beq_iff_eq]
    rw [if_neg hv]
    refine ⟨⟨true, s, rfl⟩, ?_⟩
    rintro _ s' rfl
    exact ⟨⟨_, rfl⟩, rfl⟩
  | succ left ih =>
    rw [waitHealthy]
    apply ensures_poll
    simp only [Bool.true_and, beq_iff_eq]
    rw [if_neg hv]
    refine ⟨⟨true, s, rfl⟩, ?_⟩
    rintro expired s' rfl
    cases expired with
    | true => exact ⟨⟨_, rfl⟩, rfl⟩
    | false => exact ih

/-- The tail of an upgrade ends well for a node at the target. -/
theorem finishUpgrade_reached (hc : cluster ≠ "") (ha : addr ≠ "") (hn : name ≠ "")
    (hv : s.version addr = target) :
    (r.finishUpgrade cluster addr name target).Ensures (Site.handles versionOf nodes)
      (fun res s' => res = .ok () ∧ s'.Converged cluster target addr ∧
        Site.Spares cluster addr s s') s := by
  rw [finishUpgrade, if_neg hn]
  apply ensures_setState hc ha
  intro s1 h1
  have hv1 : s1.version addr = target := by rw [h1.version, hv]
  refine (waitHealthy_reached hv1 r.polls).bind ?_
  rintro _ _ ⟨rfl, rfl⟩
  apply Program.ensures_perform (S := medeaSig) (fun _ _ => Iff.rfl)
  apply ensures_setState hc ha
  intro s2 h2
  refine ⟨rfl, ⟨?_, h2.self⟩, h1.spares.trans h2.spares⟩
  rw [h2.version, hv1]

/-- `finishUpgrade` fails for a node that is behind. -/
theorem finishUpgrade_behind (hc : cluster ≠ "") (ha : addr ≠ "")
    (hv : s.version addr ≠ target) :
    (r.finishUpgrade cluster addr name target).Ensures (Site.handles versionOf nodes)
      (fun res _ => ∃ e, res = .error e) s := by
  rw [finishUpgrade]
  split
  · exact ensures_fail hc ha
  apply ensures_setState hc ha
  intro s1 h1
  have hv1 : s1.version addr ≠ target := by rwa [h1.version]
  refine (waitHealthy_behind hv1 r.polls).bind ?_
  rintro _ _ ⟨⟨e, rfl⟩, rfl⟩
  exact ensures_fail hc ha

/-! ## Upgrading -/

theorem snapshot_taken :
    (r.snapshot cluster addr).Ensures (Site.handles versionOf nodes)
      (fun res s' => res = .ok () ∧ s' = s) s := by
  apply Program.ensures_perform (S := medeaSig) (fun _ _ => Iff.rfl)
  apply Program.ensures_perform (S := medeaSig) (fun _ _ => Iff.rfl)
  apply Program.ensures_perform (S := medeaSig) (fun _ _ => Iff.rfl)
  refine ⟨⟨.ok (), s, rfl, rfl⟩, ?_⟩
  rintro _ _ ⟨rfl, rfl⟩
  exact ⟨rfl, rfl⟩

/-- A drained node is upgraded to the target, whatever it ran before. -/
theorem drainAndUpgrade_converges {np : NodePool} (hc : cluster ≠ "") (ha : addr ≠ "")
    (hn : name ≠ "") (himage : ∀ cur, versionOf (deriveInstallerImage cur target) = target) :
    (r.drainAndUpgrade cluster np addr name target).Ensures (Site.handles versionOf nodes)
      (fun res s' => res = .ok () ∧ s'.Converged cluster target addr ∧
        Site.Spares cluster addr s s') s := by
  apply ensures_setState hc ha
  intro s1 h1
  apply Program.ensures_perform (S := medeaSig) (fun _ _ => Iff.rfl)
  apply ensures_setState hc ha
  intro s2 h2
  refine ⟨⟨.ok "", s2, ⟨"", rfl⟩, rfl⟩, ?_⟩
  rintro _ s2 ⟨⟨cur, rfl⟩, rfl⟩
  apply Program.ensures_perform (S := medeaSig) (fun _ _ => Iff.rfl)
  -- from here on the node reports the version of the image
  have hself : Function.update s2.version addr (versionOf (deriveInstallerImage cur target)) addr
      = target := by rw [Function.update_self, himage]
  refine (finishUpgrade_reached hc ha hn hself).mono ?_
  rintro res s3 ⟨hres, hconv, hspares⟩
  exact ⟨hres, hconv, h1.spares.trans (h2.spares.trans (Site.spares_update.trans hspares))⟩

theorem upgradeNode_converges {np : NodePool} (hc : cluster ≠ "") (ha : addr ≠ "")
    (hn : name ≠ "") (himage : ∀ cur, versionOf (deriveInstallerImage cur target) = target) :
    (r.upgradeNode cluster np addr name target).Ensures (Site.handles versionOf nodes)
      (fun res s' => res = .ok () ∧ s'.Converged cluster target addr ∧
        Site.Spares cluster addr s s') s := by
  rw [upgradeNode, if_neg hn]
  split
  · refine snapshot_taken.bind ?_
    rintro _ _ ⟨rfl, rfl⟩
    exact drainAndUpgrade_converges hc ha hn himage
  · exact drainAndUpgrade_converges hc ha hn himage

/-! ## Members -/

/-- The record decides how the visit begins. -/
theorem ensures_machineState {k : RolloutState → Prog α}
    (h : ∀ state, (state = .upgrading ∨ state = .waitingHealthy ↔
        InFlight (s.record cluster addr)) →
      (k state).Ensures (Site.handles versionOf nodes) Q s) :
    (machineState cluster addr >>= k).Ensures (Site.handles versionOf nodes) Q s := by
  rw [machineState, Program.bind_bind]
  apply ensures_callStore
  have hrec : s.record cluster addr =
      (s.store.getMachineRollout cluster addr).map (·.state) := rfl
  rw [hrec] at h
  show Program.Ensures _ Q (_ >>= k) s
  cases hget : s.store.getMachineRollout cluster addr with
  | none =>
    rw [hget] at h
    simp only [StoreOp.exec, hget]
    exact h .unspecified (by simp [InFlight])
  | some mr =>
    rw [hget] at h
    simp only [StoreOp.exec, hget]
    exact h mr.state (by simp [InFlight])

/-- With every member ready there is always budget. -/
theorem unavailableOthers_eq_zero {members : List String}
    (h : ∀ a ∈ members, ∃ n, nodeAt nodes a = some n ∧ n.ready = true) :
    unavailableOthers nodes members addr = 0 := by
  rw [unavailableOthers, List.countP_eq_zero]
  intro a ha
  obtain ⟨n, hn, hready⟩ := h a ha
  simp [hn, hready]

theorem maxUnavail_pos (np : NodePool) : 0 < np.maxUnavail := by
  rw [NodePool.maxUnavail]
  split <;> omega

section Pass

variable {pool : String} {np : NodePool} {s₀ : Site}

/-- A member that is not recorded in flight, or is at the target, converges. -/
theorem visit_converges (h : s₀.Serves versionOf nodes cluster pool np target)
    (hm : addr ∈ np.members)
    (hv : InFlight (s.record cluster addr) → s.version addr = target) :
    (r.visit cluster np target nodes addr).Ensures (Site.handles versionOf nodes)
      (fun v s' => v = none ∧ s'.Converged cluster target addr ∧
        Site.Spares cluster addr s s') s := by
  have ha : addr ≠ "" := fun he => h.addressed (he ▸ hm)
  obtain ⟨n, hnode, -, hname⟩ := h.listed addr hm
  have hn : nameOf nodes addr ≠ "" := by rwa [nameOf, hnode]
  rw [visit]
  apply ensures_machineState
  intro state hstate
  by_cases hin : InFlight (s.record cluster addr)
  · rw [if_pos (hstate.2 hin)]
    refine (finishUpgrade_reached h.named ha hn (hv hin)).bind ?_
    rintro _ s' ⟨rfl, hconv, hspares⟩
    exact ⟨rfl, hconv, hspares⟩
  · rw [if_neg fun hs => hin (hstate.1 hs)]
    apply ensures_version
    dsimp only
    split
    next hcur =>
      apply ensures_setState h.named ha
      intro s' hs'
      refine ⟨rfl, ⟨?_, hs'.self⟩, hs'.spares⟩
      rw [hs'.version, hcur]
    next hcur =>
      -- nobody is unavailable, so the budget does not hold the member back
      have hzero : unavailableOthers nodes (sortStrings np.members) addr = 0 := by
        apply unavailableOthers_eq_zero
        intro a hmem
        obtain ⟨n, hnode, hready, -⟩ :=
          h.listed a ((List.perm_insertionSort _ _).mem_iff.1 hmem)
        exact ⟨n, hnode, hready⟩
      have hbudget := maxUnavail_pos np
      rw [if_neg (by omega)]
      refine (upgradeNode_converges h.named ha hn h.image).bind ?_
      rintro _ s' ⟨rfl, hconv, hspares⟩
      exact ⟨rfl, hconv, hspares⟩

/-- A member that is recorded in flight and not at the target ends the pass. -/
theorem visit_fails (h : s₀.Serves versionOf nodes cluster pool np target)
    (hm : addr ∈ np.members) (hin : InFlight (s.record cluster addr))
    (hv : s.version addr ≠ target) :
    (r.visit cluster np target nodes addr).Ensures (Site.handles versionOf nodes)
      (fun v _ => ∃ e, v = some (.error e)) s := by
  have ha : addr ≠ "" := fun he => h.addressed (he ▸ hm)
  rw [visit]
  apply ensures_machineState
  intro state hstate
  rw [if_pos (hstate.2 hin)]
  refine (finishUpgrade_behind h.named ha hv).bind ?_
  rintro _ s' ⟨e, rfl⟩
  exact ⟨e, rfl⟩

/-- Every member is done, or is still to be visited and will converge. -/
def Promising (cluster target : String) (np : NodePool) (todo : List String) (s : Site) : Prop :=
  ∀ a ∈ np.members, s.Converged cluster target a ∨
    a ∈ todo ∧ (InFlight (s.record cluster a) → s.version a = target)

/-- A member that cannot converge is still to be visited. -/
def Doomed (cluster target : String) (todo : List String) (s : Site) : Prop :=
  ∃ b ∈ todo, InFlight (s.record cluster b) ∧ s.version b ≠ target

/-- Convergence of the pass: one visit keeps the promise for the others. -/
theorem members_converge (h : s₀.Serves versionOf nodes cluster pool np target)
    (hgood : ∀ a ∈ np.members, InFlight (s₀.record cluster a) → s₀.version a = target) :
    (r.reconcileMembers cluster np target nodes).Ensures (Site.handles versionOf nodes)
      (fun res s' => res = .ok () ∧ ∀ a ∈ np.members, s'.Converged cluster target a) s₀ := by
  have hloop : (Program.untilSome (r.visit cluster np target nodes)
      (sortStrings np.members)).Ensures (Site.handles versionOf nodes)
      (fun v s' => v = none ∧ ∀ a ∈ np.members, s'.Converged cluster target a) s₀ := by
    apply Program.ensures_untilSome (I := Promising cluster target np)
    · intro addr hmem todo s hpromise
      have hm : addr ∈ np.members := (List.perm_insertionSort _ _).mem_iff.1 hmem
      have hv : InFlight (s.record cluster addr) → s.version addr = target := by
        intro hin
        rcases hpromise addr hm with hconv | ⟨-, hreached⟩
        · exact hconv.version
        · exact hreached hin
      refine (visit_converges h hm hv).mono ?_
      rintro _ s' ⟨rfl, hconv, hspares⟩ a ha
      by_cases hself : a = addr
      · exact Or.inl (hself ▸ hconv)
      rcases hpromise a ha with hdone | ⟨hmem, hreached⟩
      · refine Or.inl ⟨?_, ?_⟩
        · rw [hspares.version a hself, hdone.version]
        · rw [hspares.record a hself, hdone.record]
      · refine Or.inr ⟨(List.mem_cons.1 hmem).resolve_left hself, ?_⟩
        rw [hspares.version a hself, hspares.record a hself]
        exact hreached
    · intro s hpromise
      refine ⟨rfl, ?_⟩
      intro a ha
      exact (hpromise a ha).resolve_right fun hmem => List.not_mem_nil hmem.1
    · intro a ha
      exact Or.inr ⟨(List.perm_insertionSort _ _).mem_iff.2 ha, hgood a ha⟩
  refine hloop.bind ?_
  rintro _ s' ⟨rfl, hall⟩
  exact ⟨rfl, hall⟩

/-- A member that cannot converge makes the pass fail, if not an earlier one did. -/
theorem members_fail (h : s₀.Serves versionOf nodes cluster pool np target)
    (hbad : Doomed cluster target np.members s₀) :
    (r.reconcileMembers cluster np target nodes).Ensures (Site.handles versionOf nodes)
      (fun res _ => ∃ e, res = .error e) s₀ := by
  have hloop : (Program.untilSome (r.visit cluster np target nodes)
      (sortStrings np.members)).Ensures (Site.handles versionOf nodes)
      (fun v _ => ∃ e, v = some (.error e)) s₀ := by
    apply Program.ensures_untilSome (I := Doomed cluster target)
    · rintro addr hmem todo s ⟨b, hb, hin, hv⟩
      have hm : addr ∈ np.members := (List.perm_insertionSort _ _).mem_iff.1 hmem
      by_cases hfail : InFlight (s.record cluster addr) ∧ s.version addr ≠ target
      · refine (visit_fails h hm hfail.1 hfail.2).mono ?_
        rintro _ s' ⟨e, rfl⟩
        exact ⟨e, rfl⟩
      · -- this member converges, so it is another one that cannot
        have hne : b ≠ addr := fun he => hfail (he ▸ ⟨hin, hv⟩)
        have hgood : InFlight (s.record cluster addr) → s.version addr = target := by
          intro hin'
          by_contra hv'
          exact hfail ⟨hin', hv'⟩
        refine (visit_converges h hm hgood).mono ?_
        rintro _ s' ⟨rfl, -, hspares⟩
        refine ⟨b, (List.mem_cons.1 hb).resolve_left hne, ?_⟩
        rw [hspares.record b hne, hspares.version b hne]
        exact ⟨hin, hv⟩
    · rintro s ⟨b, hb, -⟩
      cases hb
    · obtain ⟨b, hb, hbad⟩ := hbad
      exact ⟨b, (List.perm_insertionSort _ _).mem_iff.2 hb, hbad⟩
  refine hloop.bind ?_
  rintro _ s' ⟨e, rfl⟩
  exact ⟨e, rfl⟩

theorem ensures_targetVersion (h : s₀.wants cluster np = some target) :
    (targetVersion cluster np).Ensures (Site.handles versionOf nodes)
      (fun res s' => res = .ok target ∧ s' = s₀) s₀ := by
  rw [Site.wants] at h
  rw [targetVersion]
  split at h
  next hown =>
    rw [if_pos hown]
    exact ⟨congrArg Except.ok (Option.some.inj h), rfl⟩
  next hown =>
    rw [if_neg hown]
    obtain ⟨cl, hcl, rfl⟩ := Option.map_eq_some_iff.1 h
    have hstored : s₀.store.getCluster cluster = (some cl, (s₀.store.getCluster cluster).2) :=
      Prod.ext hcl rfl
    apply ensures_callStore
    simp only [StoreOp.exec]
    rw [hstored]
    exact ⟨rfl, rfl⟩

/-- Before the members, a pass only reads. -/
theorem ensures_reconcilePool (h : s₀.Serves versionOf nodes cluster pool np target)
    {Q : Except String Unit → Site → Prop}
    (hmembers : (r.reconcileMembers cluster np target nodes).Ensures
      (Site.handles versionOf nodes) Q s₀) :
    (r.reconcilePool cluster pool).Ensures (Site.handles versionOf nodes) Q s₀ := by
  have hstored : s₀.store.getNodePool cluster pool =
      (some np, (s₀.store.getNodePool cluster pool).2) := Prod.ext h.stored rfl
  rw [reconcilePool]
  apply ensures_callStore
  simp only [StoreOp.exec]
  rw [hstored]
  simp only [h.running, Bool.false_eq_true, if_false]
  refine (ensures_targetVersion h.wanted).bind ?_
  rintro _ _ ⟨rfl, rfl⟩
  dsimp only
  rw [if_neg h.aimed]
  apply Program.ensures_perform (S := medeaSig) (fun _ _ => Iff.rfl)
  exact hmembers

end Pass

end RolloutReconciler

/-! ## Images -/

/-- The version in the name of an image: what follows the last colon. -/
def imageVersion (image : String) : String :=
  match splitLastColon image.toList with
  | some (_, tag) => String.ofList tag
  | none => ""

/-- Whatever image a node runs, the one derived from it for a target is of that version. -/
theorem imageVersion_deriveInstallerImage {target : String} (h : ':' ∉ target.toList)
    (cur : String) : imageVersion (deriveInstallerImage cur target) = target := by
  have htag : ∀ base : String, imageVersion (base ++ ":" ++ target) = target := by
    intro base
    have hl : (base ++ ":" ++ target).toList = base.toList ++ ':' :: target.toList := by
      simp [String.toList_append]
    rw [imageVersion, hl, splitLastColon_append h]
    exact String.ofList_toList
  rw [deriveInstallerImage]
  split
  · exact htag _
  · split
    · split
      · exact htag _
      · exact htag _
    · exact htag _

/-! ## A pool before and after a crash -/

namespace Resume

/-- The control-plane pool once it is ordered to `v1.8.0`. -/
def pool : NodePool :=
  { cluster := "c", name := "controlplane", role := .controlplane, members := ["10.0.0.1"],
    desired := some { talosVersion := "v1.8.0" }, revision := 5 }

/-- Nothing goes wrong with the node, which runs `v1.7.0`. -/
def site (moves : List Move) : Site :=
  ⟨(runScript Script.settings moves State.initial).2.world.store, fun _ => "v1.7.0"⟩

theorem serves {moves : List Move}
    (h : ((site moves).store.getNodePool "c" "controlplane").1 = some pool) :
    (site moves).Serves imageVersion [Script.node] "c" "controlplane" pool "v1.8.0" where
  stored := h
  running := rfl
  wanted := rfl
  aimed := by decide
  image := imageVersion_deriveInstallerImage (by decide +kernel)
  named := by decide
  addressed := by decide
  listed := by
    intro addr hm
    obtain rfl : addr = "10.0.0.1" := by simpa [pool] using hm
    exact ⟨Script.node, rfl, rfl, by decide⟩

/-- The order has been given and nothing has happened yet. -/
def ordered : List Move := Script.armed ++ Script.order

/-- The executor crashes when it has recorded the node as upgrading and is about to upgrade it. -/
def crashed : List Move :=
  ordered ++ Script.pass 11 (.working "v1.7.0" [Script.node]) ++ [.crash]

end Resume

open Resume

/-! ## When a pass resumes to convergence -/

/-- In a site where nothing goes wrong any more, the next pass over a pool converges exactly if every
member that is recorded in flight has reached the target already. -/
theorem resume_converges_iff {r : RolloutReconciler} {versionOf : String → String}
    {nodes : List NodeInfo} {cluster pool target : String} {np : NodePool} {s : Site}
    (h : s.Serves versionOf nodes cluster pool np target) :
    (r.reconcilePool cluster pool).Ensures (Site.handles versionOf nodes)
        (fun res s' => res = .ok () ∧ ∀ addr ∈ np.members, s'.Converged cluster target addr) s ↔
      ∀ addr ∈ np.members, InFlight (s.record cluster addr) → s.version addr = target := by
  constructor
  · intro hconv addr hm hin
    by_contra hv
    have hbad : RolloutReconciler.Doomed cluster target np.members s := ⟨addr, hm, hin, hv⟩
    have hfail := ensures_reconcilePool h
      (members_fail (r := r) h hbad)
    -- the pass cannot both succeed and fail
    obtain ⟨res, s', ⟨hok, -⟩, e, herr⟩ := hconv.meet hfail
    rw [hok] at herr
    cases herr
  · intro hgood
    exact ensures_reconcilePool h
      (members_converge h hgood)

/-- The first pass after an order converges. -/
theorem ordered_pool_converges :
    ((Script.settings.rollouts.reconciler { name := "c" }
        { cluster := "c", pool := "controlplane" }).reconcilePool "c" "controlplane").Ensures
      (Site.handles imageVersion [Script.node])
      (fun res s' => res = .ok () ∧
        ∀ addr ∈ Resume.pool.members, s'.Converged "c" "v1.8.0" addr)
      (Resume.site Resume.ordered) :=
  (resume_converges_iff (serves (by decide +kernel))).2 (by decide +kernel)

/-- A crash between the record and the upgrade call leaves a node that no pass upgrades any more:
nothing was called for it before the crash, nothing goes wrong afterwards, and the next pass
fails. -/
theorem crashed_pool_not_resumed : ∃ ls c, Reaches Script.settings ls c ∧
    (∀ l ∈ ls, l.upgrades = none) ∧
    c.world.store.recordState (ckey "c" "10.0.0.1") = some .upgrading ∧
    ∀ r : RolloutReconciler, (r.reconcilePool "c" "controlplane").Ensures
      (Site.handles imageVersion [Script.node]) (fun res _ => ∃ e, res = .error e)
      ⟨c.world.store, fun _ => "v1.7.0"⟩ := by
  refine ⟨_, _, reaches_script Script.settings crashed, ?_, ?_, ?_⟩
  · decide +kernel
  · decide +kernel
  · intro r
    have hserves : (site crashed).Serves imageVersion [Script.node] "c"
        "controlplane" pool "v1.8.0" := serves (by decide +kernel)
    have hflight : InFlight ((site crashed).record "c" "10.0.0.1") := by
      decide +kernel
    exact ensures_reconcilePool hserves
      (members_fail hserves
        ⟨"10.0.0.1", List.mem_cons_self, hflight, by decide +kernel⟩)

end Medea
