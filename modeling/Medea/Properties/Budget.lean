import Medea.ControlPlane.Places
import Medea.Rollout.Holdings

/-!
# The availability budget of a pool

A pass lists the nodes once, before it visits the members, and checks every member against that
listing. A member that goes down after the listing still counts as available: in
`lostNode_drained` the first member of a pool is lost after its upgrade, and the second is drained all
the same.

`drain_within_budget` says what the check gives, whatever the strategies of the stored pools are. The
nodes of the clusters are a history, an arbitrary list for every point of the run, and the answers to the
executor are taken from it; the answers of the store are arbitrary. If at a drain every other member that
was ready at the listing is still ready, then fewer of the others are unavailable at that moment than the
budget allows.
-/

set_option autoImplicit false
set_option maxRecDepth 100000

namespace Medea

open Medea.Interaction

/-- The nodes of every cluster at every point of a run. -/
abbrev KubeHistory := String → Nat → List NodeInfo

/-- The node with the address is there and ready. -/
def NodeUp (nodes : List NodeInfo) (addr : String) : Bool :=
  ((nodeAt nodes addr).map (·.ready)).getD false

namespace Lbl

/-- The answers about nodes are those of the history at this point. -/
def truthful (kube : KubeHistory) (n : Nat) : Lbl → Bool
  | .act _ ⟨.kube client _ .listNodes, .ok nodes⟩ => nodes == kube client.cluster n
  | .act _ ⟨.kube client _ (.nodeReady name), .ok ready⟩ =>
    ready == (kube client.cluster n).any fun node => node.name == name && node.ready
  | _ => true

/-- The executor has listed the nodes. -/
def lists : Lbl → Bool
  | .act .rollouts ⟨.kube _ _ .listNodes, .ok _⟩ => true
  | _ => false

/-- The client and the member of a drain of the executor. -/
def drains : Lbl → Option (Client × String)
  | .act .rollouts ⟨.kube client addr (.drain _ _), _⟩ => some (client, addr)
  | _ => none

end Lbl

/-- The answers about nodes in a run are taken from the history. -/
def Truthful (kube : KubeHistory) : List Lbl → Prop :=
  Throughout fun past l => l.truthful kube past.length = true

instance (kube : KubeHistory) (ls : List Lbl) : Decidable (Truthful kube ls) :=
  inferInstanceAs (Decidable (Throughout _ ls))

/-- The position of the last listing of the executor in a run. -/
def lastListing (ls : List Lbl) : Option Nat :=
  ls.zipIdx.foldl (fun last l => if l.1.lists then some l.2 else last) none

namespace Budget

variable {cfg : Settings} {ls : List Lbl}
variable {addr : String} {r : RolloutReconciler} {e : Ev} {view : PoolView}

/-! ## Listings -/

theorem lastListing_snoc (ls : List Lbl) (l : Lbl) :
    lastListing (ls ++ [l]) = if l.lists then some ls.length else lastListing ls := by
  simp [lastListing, List.zipIdx_append, List.foldl_append]

theorem lastListing_succ {n : Nat} {l : Lbl} (hn : ls[n]? = some l) :
    lastListing (ls.take (n + 1)) = if l.lists then some n else lastListing (ls.take n) := by
  have hlen : (ls.take n).length = n := by
    have := (List.getElem?_eq_some_iff.1 hn).1
    rw [List.length_take]
    omega
  rw [take_succ_eq hn, lastListing_snoc, hlen]

theorem lists_other {l : Lbl} (hl : l.ofExecutor = false) : l.lists = false := by
  cases l with
  | act i e =>
    cases i with
    | rollouts => cases hl
    | _ => rfl
  | start i t => rfl
  | crash => rfl

/-- No nodes are listed during the visit of a member. -/
theorem lists_at_stage {stage : Stage} (hop : r.stageIssues view addr stage = e.op) :
    Lbl.lists (.act .rollouts e) = false := by
  obtain ⟨op, rep⟩ := e
  cases stage <;> (cases hop; rfl)

/-! ## Visits -/

/-- Where a drain may follow, the member has been checked against the budget. -/
def Checked (view : PoolView) (addr : String) : Stage → Prop
  | .mkdir | .openFile | .snapshot | .closeFile _ | .markDraining | .drain => ¬view.overBudget addr
  | _ => True

theorem checked_next {stage stage' : Stage} (h : Checked view addr stage)
    (hmove : RolloutReconciler.StageMove r view addr stage e (.at stage')) :
    Checked view addr stage' := by
  cases hmove with
  | snapshotFirst hs | drainFirst hs => exact hs.inBudget
  | dirMade | opened | streamed | closed | draining => exact h
  | _ => trivial

/-- What is known in the visit of a member: the nodes are those of the last listing, and a member
that may be drained is within the budget. -/
structure Visit (cfg : Settings) (ls : List Lbl) (n : Nat) (f : JobFrame) (view : PoolView)
    (addr : String) (stage : Stage) : Prop where
  listed : ∃ m, lastListing (ls.take n) = some m ∧ ls[m]? = some (.act .rollouts
    (ev (.kube (cfg.rollouts.reconcilerOf f).client "" .listNodes) (.ok view.nodes)))
  checked : Checked view addr stage

/-- A step inside a visit is no listing. -/
theorem listed_succ {n : Nat} {stage : Stage} {l : Lbl} (hn : ls[n]? = some (.act .rollouts e))
    (h : ∃ m, lastListing (ls.take n) = some m ∧ ls[m]? = some l)
    (hop : r.stageIssues view addr stage = e.op) :
    ∃ m, lastListing (ls.take (n + 1)) = some m ∧ ls[m]? = some l := by
  obtain ⟨m, hm, hlist⟩ := h
  refine ⟨m, ?_, hlist⟩
  rw [lastListing_succ hn, lists_at_stage hop]
  exact hm

theorem visit_poolNext {n : Nat} {f : JobFrame} {pos : PoolPos} (hn : ls[n]? = some (.act .rollouts e))
    (h : pos.AtMember (Visit cfg ls n f))
    (hop : (cfg.rollouts.reconcilerOf f).poolIssues f.cl.name f.job.pool pos = some e.op) :
    ((cfg.rollouts.reconcilerOf f).poolNext f.cl.name f.job.pool pos e).AtMember
      (Visit cfg ls (n + 1) f) := by
  have hmove := RolloutReconciler.poolNext_moves hop
  generalize (cfg.rollouts.reconcilerOf f).poolNext f.cl.name f.job.pool pos e = pos' at hmove
  cases hmove with
  | entered =>
    -- this is the listing that the visits to come are checked against
    refine ⟨⟨n, ?_, hn⟩, trivial⟩
    rw [lastListing_succ hn]
    rfl
  | inVisit hstep =>
    exact ⟨listed_succ hn h.listed (Option.some.inj hop), checked_next h.checked hstep⟩
  | nextVisit => exact ⟨listed_succ hn h.listed (Option.some.inj hop), trivial⟩
  | _ => trivial

/-- Along every run the executor knows this of the member it visits. -/
theorem visits (hd : Driven cfg ls) (n : Nat) (hn : n ≤ ls.length) :
    (cfg.place (ls.take n)).InPool fun f pos => pos.AtMember (Visit cfg ls n f) := by
  refine hd.places (P := fun n pos => pos.InPool fun f pos => pos.AtMember (Visit cfg ls n f))
    (fun _ => trivial) (fun _ => trivial) ?_ ?_ n hn
  · intro n e hget hfrom h
    refine RolloutExecutor.next_inPool hfrom.issues (fun _ => trivial) fun f pos hpos hop => ?_
    rw [hpos] at h
    exact visit_poolNext hget h hop
  · intro n l hget hl h
    refine h.mono fun f pos hp => hp.mono fun view addr stage hv => ?_
    obtain ⟨⟨m, hm, hlist⟩, hchecked⟩ := hv
    refine ⟨⟨m, ?_, hlist⟩, hchecked⟩
    rw [lastListing_succ hget, lists_other hl]
    exact hm

/-- A drain is made in the visit of the member. -/
theorem place_of_drains {x : RolloutExecutor} {pos : ExecPos} {client : Client}
    (hop : x.issues pos = some e.op) (h : Lbl.drains (.act .rollouts e) = some (client, addr)) :
    ∃ f view visited todo, client = (x.reconcilerOf f).client ∧
      pos = .pool f (.member view visited addr todo .drain) := by
  unfold Lbl.drains at h
  split at h
  next heq =>
    cases heq
    cases h
    obtain ⟨f, view, visited, todo, stage, rfl, rfl, hstage⟩ :=
      RolloutExecutor.visit_of_issues hop rfl
    cases stage <;> cases hstage
    exact ⟨f, view, visited, todo, rfl, rfl⟩
  next => cases h

/-! ## Counting -/

theorem unavailableOthers_perm {nodes : List NodeInfo} {members members' : List String}
    (h : members.Perm members') :
    unavailableOthers nodes members addr = unavailableOthers nodes members' addr :=
  h.countP_eq _

/-- Where no other member has been lost, not more of them are unavailable. -/
theorem unavailableOthers_mono {nodes nodes' : List NodeInfo} {members : List String}
    (h : ∀ m ∈ members, m ≠ addr → NodeUp nodes m = true → NodeUp nodes' m = true) :
    unavailableOthers nodes' members addr ≤ unavailableOthers nodes members addr := by
  refine List.countP_mono_left fun m hm hdown => ?_
  simp only [Bool.and_eq_true, bne_iff_ne, Bool.not_eq_eq_eq_not, Bool.not_true] at hdown ⊢
  refine ⟨hdown.1, ?_⟩
  by_contra hup
  have hnow : NodeUp nodes' m = true := h m hm hdown.1 (by simpa [NodeUp] using hup)
  rw [NodeUp, hdown.2] at hnow
  cases hnow

/-- The steps of the runs considered: at a drain, every other member of the pool that was ready at the
last listing is ready now. -/
def Steady (cfg : Settings) (kube : KubeHistory) (past : List Lbl) (l : Lbl) : Prop :=
  ∀ d ∈ l.drains, ∀ p ∈ (cfg.place past).carried, ∀ m ∈ lastListing past,
    ∀ other ∈ p.2.members, other ≠ d.2 → NodeUp (kube d.1.cluster m) other = true →
      NodeUp (kube d.1.cluster past.length) other = true

instance (cfg : Settings) (kube : KubeHistory) (past : List Lbl) (l : Lbl) :
    Decidable (Steady cfg kube past l) := inferInstanceAs (Decidable (∀ _ ∈ _, _))

end Budget

/-- A drain is within the budget. In every run in which the executor follows its program, whatever pools
and strategies it reads, in which the answers about nodes are taken from the history, and in which at
every drain the other members of the pool that were ready at the listing of the pass are still ready:
when the executor drains a member, fewer of the other members are missing or not ready at that moment
than the pool allows, which is at least one. -/
theorem drain_within_budget {cfg : Settings} {kube : KubeHistory} {ls : List Lbl}
    (hr : Driven cfg ls) (ht : Truthful kube ls) (hs : Throughout (Budget.Steady cfg kube) ls)
    {n : Nat} {client : Client} {addr : String}
    (hn : ls[n]?.bind Lbl.drains = some (client, addr)) :
    ∃ f np, (cfg.place (ls.take n)).carried = some (f, np) ∧ f.cl.name = client.cluster ∧
      addr ∈ np.members ∧
      unavailableOthers (kube client.cluster n) np.members addr < max 1 np.strategyMaxUnavailable := by
  obtain ⟨l, hl, hd⟩ := Option.bind_eq_some_iff.1 hn
  obtain ⟨e, rfl⟩ : ∃ e, l = .act .rollouts e := by
    unfold Lbl.drains at hd
    split at hd
    · exact ⟨_, rfl⟩
    · cases hd
  have hlt : n < ls.length := (List.getElem?_eq_some_iff.1 hl).1
  have hlen : (ls.take n).length = n := by
    rw [List.length_take]
    omega
  have hfrom := hr.steps hl
  obtain ⟨f, view, visited, todo, rfl, hpos⟩ := Budget.place_of_drains hfrom.issues hd
  have hvisit := Budget.visits hr n (Nat.le_of_lt hlt)
  have hcoh := hfrom.coherent
  rw [hpos] at hvisit hcoh
  obtain ⟨⟨m, hm, hlist⟩, hchecked⟩ : Budget.Visit cfg ls n f view addr .drain := hvisit
  have hcarried : (cfg.place (ls.take n)).carried = some (f, view.np) := by
    rw [hpos]
    rfl
  refine ⟨f, view.np, hcarried, rfl, ?_, ?_⟩
  · have hmem : view.members = visited ++ addr :: todo := hcoh.2.2.2
    rw [← PoolView.mem_members, hmem]
    exact List.mem_append_right _ List.mem_cons_self
  · -- the listing was true when it was made
    have hnodes : view.nodes = kube f.cl.name m := by
      have htrue : (view.nodes == kube f.cl.name (ls.take m).length) = true := ht m _ hlist
      have hmlt := (List.getElem?_eq_some_iff.1 hlist).1
      rw [List.length_take, Nat.min_eq_left (Nat.le_of_lt hmlt)] at htrue
      exact eq_of_beq htrue
    have hsteady : ∀ other ∈ view.np.members, other ≠ addr → NodeUp view.nodes other = true →
        NodeUp (kube f.cl.name n) other = true := by
      intro other ho hne hup
      have h := hs n _ hl _ hd _ hcarried m hm other ho hne
      rw [hlen] at h
      rw [hnodes] at hup
      exact h hup
    have hbudget : unavailableOthers view.nodes view.members addr < view.np.maxUnavail :=
      Nat.lt_of_not_le hchecked
    calc unavailableOthers (kube f.cl.name n) view.np.members addr
        ≤ unavailableOthers view.nodes view.np.members addr := Budget.unavailableOthers_mono hsteady
      _ = unavailableOthers view.nodes view.members addr :=
          Budget.unavailableOthers_perm (List.perm_insertionSort _ _).symm
      _ < view.np.maxUnavail := hbudget
      _ = max 1 view.np.strategyMaxUnavailable := by
          rw [NodePool.maxUnavail]
          split <;> omega

/-- Another tool has stored a cluster and a pool of three nodes, two of which may be down. -/
def Script.stock : List Lbl :=
  [.act (.client 0) (ev (.store (.putClusterDesired { name := "c", rolloutsEnabled := true } 0)) (.ok 1)),
    .act (.client 0) (ev (.store (.putNodePoolDesired
      { cluster := "c", name := "controlplane", members := ["10.0.0.1", "10.0.0.2", "10.0.0.3"]
        strategy := some { maxUnavailable := 2 } } 0)) (.ok 2))]

def Script.second : NodeInfo := ⟨"n2", "10.0.0.2", "controlplane", "v1.30.0", true⟩

/-- The third node of the pool is down all the time. -/
def Script.thirdDown : List NodeInfo :=
  [node, second, ⟨"n3", "10.0.0.3", "controlplane", "v1.30.0", false⟩]

/-- A rollout of the pool of three nodes, up to the drain of the first. -/
def Script.threeNodes : List Lbl :=
  stock ++ (runScript settings (order ++ pass 11 (.working "v1.7.0" thirdDown))
    (Config.idle medeaSig Who ⟨storeAt stock⟩)).1

theorem Script.threeNodes_driven : Driven settings threeNodes := by
  have hcalls : Chronicle stock := by
    refine ⟨Or.inl ?_, Or.inl ?_, trivial⟩
    · decide +kernel
    · decide +kernel
  exact (Stocked.run (by decide) hcalls (runScript_runs ..)).driven

/-- The first of the three nodes is drained while another is down, as the pool allows. -/
theorem threeNodes_in_budget : ∃ f np,
    (Script.settings.place (Script.threeNodes.take 21)).carried = some (f, np) ∧ f.cl.name = "c" ∧
    "10.0.0.1" ∈ np.members ∧
    unavailableOthers Script.thirdDown np.members "10.0.0.1" < max 1 np.strategyMaxUnavailable := by
  have htrue : Truthful (fun _ _ => Script.thirdDown) Script.threeNodes := by decide +kernel
  have hsteady : Throughout (Budget.Steady Script.settings fun _ _ => Script.thirdDown)
      Script.threeNodes := by decide +kernel
  have hdrain : (Script.threeNodes[21]?.bind Lbl.drains).map (fun d => (d.1.cluster, d.2)) =
      some ("c", "10.0.0.1") := by decide +kernel
  obtain ⟨⟨⟨cluster, op⟩, addr⟩, hd, hc⟩ := Option.map_eq_some_iff.1 hdrain
  cases hc
  exact drain_within_budget Script.threeNodes_driven htrue hsteady hd

/-- A rollout of a pool of two nodes, up to the drain of the second. -/
def Script.bothNodes : List Move :=
  run (.client 0) (.seed ⟨"c", "k", ["10.0.0.1"], [node, second]⟩) 30
      (.working "v1.7.0" [node, second]) ++
    request (.enableRollouts "c") ++ order ++ pass 13 (.working "v1.7.0" [node, second]) ++
    List.replicate 6 (.step .rollouts (.working "v1.8.0" [node, second])) ++
    List.replicate 3 (.step .rollouts (.working "v1.7.0" [node, second]))

/-- The nodes of the pool, where the first is down at the given points. -/
def Script.downWhen (down : Nat → Bool) : KubeHistory := fun _ n =>
  [{ node with ready := !down n }, second]

/-- The first node is lost after its upgrade, when the pass has seen it ready for the last time. The
second is drained: the one other member of the pool is not ready, and the pool allows one. -/
theorem lostNode_drained : ∃ (ls : List Lbl) (c : State) (kube : KubeHistory) (n : Nat),
    Reaches Script.settings ls c ∧ Truthful kube ls ∧
    (ls[n]?.bind Lbl.drains).map (fun d => (d.1.cluster, d.2)) = some ("c", "10.0.0.2") ∧
    (Script.settings.place (ls.take n)).carried.map (fun p => (p.2.members,
      unavailableOthers (kube "c" n) p.2.members "10.0.0.2", max 1 p.2.strategyMaxUnavailable)) =
      some (["10.0.0.1", "10.0.0.2"], 1, 1) := by
  refine ⟨_, _, Script.downWhen fun n => decide (40 ≤ n), 46,
    reaches_script Script.settings Script.bothNodes, ?_, ?_, ?_⟩
  · decide +kernel
  · decide +kernel
  · decide +kernel

end Medea
