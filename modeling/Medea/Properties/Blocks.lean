import Mathlib.Data.List.Induction
import Medea.Rollout.Coherence
import Medea.Rollout.Conformance

/-!
# The shape of a pass

What the calls of a pass over a pool look like, whatever the answers. The members are visited in
address order, and the calls that change a node come in one block per visit: snapshot, drain,
upgrade and uncordon for a member that is taken up, with the snapshot only where the pool asks for
it, and the uncordon alone for a member that was left in flight. Only the block of the last visit
can be cut short (`runJob_inBlocks`).

A call for a member that fails ends the pass: all that follows is the record of the member and the
record of the job, both failed (`runJob_halts`).

Both are read off the places of the executor: `Shaped` says what the events before a place look
like, and `shaped_next` is its step lemma.
-/

set_option autoImplicit false

namespace Medea

open Medea.Interaction RolloutExecutor RolloutReconciler

/-! ## What the events of a pass show -/

/-- The calls that change a node. -/
inductive Mutation where
  | snapshot
  | drain
  | upgrade
  | uncordon
  deriving DecidableEq

/-- The call of an event, with the member it is made for. -/
def mutation : Ev → Option (String × Mutation)
  | ⟨.talos _ (.etcdSnapshot addr _), _⟩ => some (addr, .snapshot)
  | ⟨.kube _ member (.drain _ _), _⟩ => some (member, .drain)
  | ⟨.talos _ (.upgradeOS addr _), _⟩ => some (addr, .upgrade)
  | ⟨.kube _ member (.uncordon _), _⟩ => some (member, .uncordon)
  | _ => none

/-- The member whose visit an event begins, and whether its record says that it is in flight. -/
def beginsVisit : Ev → Option (String × Bool)
  | ⟨.store (.getMachineRollout _ addr), rep⟩ => some (addr, decide (InFlight (readState rep)))
  | _ => none

/-- The pool an event reads. -/
def readsPool : Ev → Option NodePool
  | ⟨.store (.getNodePool _ _), .ok (np, _)⟩ => np
  | _ => none

def poolOf (t : Trace medeaSig) : Option NodePool := (t.filterMap readsPool).getLast?

/-- The member whose visit was begun last. -/
def memberOf (t : Trace medeaSig) : Option String :=
  (t.filterMap beginsVisit).getLast?.map Prod.fst

/-- The last event is the first half of a health poll. -/
def pollsNode (t : Trace medeaSig) : Bool :=
  match t.getLast? with
  | some ⟨.kube _ _ (.nodeReady _), _⟩ => true
  | _ => false

/-! ## Blocks -/

/-- The calls made in one visit of a member. -/
structure Block where
  addr : String
  resumed : Bool
  calls : List Mutation

def Block.labelled (b : Block) : List (String × Mutation) := b.calls.map fun c => (b.addr, c)

/-- The snapshot, if the pool asks for it. -/
def leadIn (np : NodePool) : List Mutation :=
  if RolloutReconciler.snapshots np then [.snapshot] else []

/-- The calls for a member that is taken to its end. -/
def wholeBlock (np : NodePool) (resumed : Bool) : List Mutation :=
  if resumed then [.uncordon] else leadIn np ++ [.drain, .upgrade, .uncordon]

/-- A visit that came to its end: the whole block, or nothing for a member found at the target. -/
def Block.Whole (np : NodePool) (b : Block) : Prop :=
  b.calls = wholeBlock np b.resumed ∨ b.resumed = false ∧ b.calls = []

/-- The events are those of the visits `blocks`, in order. -/
structure Consists (t : Trace medeaSig) (blocks : List Block) : Prop where
  visits : t.filterMap beginsVisit = blocks.map fun b => (b.addr, b.resumed)
  calls : t.filterMap mutation = blocks.flatMap Block.labelled

/-- The calls of a pass over the pool: one block for each visit, the visits in address order, and
only the last block cut short. -/
structure InBlocks (t : Trace medeaSig) (np : NodePool) (blocks : List Block) : Prop
    extends Consists t blocks where
  order : blocks.map (·.addr) <+: sortStrings np.members
  whole : ∀ b ∈ blocks.dropLast, b.Whole np
  last : ∀ b ∈ blocks.getLast?, b.calls <+: wholeBlock np b.resumed

/-! ## Events one by one -/

section Snoc

variable {t : Trace medeaSig} {e : Ev} {np : NodePool} {blocks : List Block} {b : Block}

theorem poolOf_snoc_none (h : readsPool e = none) : poolOf (t ++ [e]) = poolOf t := by
  simp [poolOf, List.filterMap_append, h]

theorem poolOf_snoc_some (h : readsPool e = some np) : poolOf (t ++ [e]) = some np := by
  simp [poolOf, List.filterMap_append, h]

/-- An event that neither begins a visit nor changes a node. -/
theorem Consists.quiet (h : Consists t blocks) (hv : beginsVisit e = none)
    (hm : mutation e = none) : Consists (t ++ [e]) blocks := by
  refine ⟨?_, ?_⟩
  · rw [List.filterMap_append, h.visits]
    simp [hv]
  · rw [List.filterMap_append, h.calls]
    simp [hm]

/-- A visit begins. -/
theorem Consists.begin (h : Consists t blocks) (hv : beginsVisit e = some (b.addr, b.resumed))
    (hm : mutation e = none) (hb : b.calls = []) : Consists (t ++ [e]) (blocks ++ [b]) := by
  refine ⟨?_, ?_⟩
  · rw [List.filterMap_append, h.visits]
    simp [hv]
  · rw [List.filterMap_append, h.calls]
    simp [hm, Block.labelled, hb]

/-- An event inside a visit, with the call it makes for the member, if any. -/
theorem Consists.inside {call : Option Mutation} (h : Consists t (blocks ++ [b]))
    (hv : beginsVisit e = none) (hm : mutation e = call.map fun c => (b.addr, c)) :
    Consists (t ++ [e]) (blocks ++ [{ b with calls := b.calls ++ call.toList }]) := by
  refine ⟨?_, ?_⟩
  · rw [List.filterMap_append, h.visits]
    simp [hv]
  · rw [List.filterMap_append, h.calls]
    cases call <;> simp [hm, Block.labelled]

end Snoc

/-! ## Inside a visit -/

/-- The call that a stage makes. -/
def Stage.mutates : Stage → Option Mutation
  | .snapshot => some .snapshot
  | .drain => some .drain
  | .upgrade _ => some .upgrade
  | .uncordon => some .uncordon
  | _ => none

/-- What has been called for the member when its visit stands at a stage. -/
def Block.AtStage (np : NodePool) (b : Block) : Stage → Prop
  | .record => False
  | .check => b.resumed = false ∧ b.calls = []
  | .mkdir | .openFile | .snapshot =>
    b.resumed = false ∧ RolloutReconciler.snapshots np = true ∧ b.calls = []
  | .closeFile _ =>
    b.resumed = false ∧ RolloutReconciler.snapshots np = true ∧ b.calls = [.snapshot]
  | .markDraining | .drain => b.resumed = false ∧ b.calls = leadIn np
  | .markUpgrading | .image | .upgrade _ => b.resumed = false ∧ b.calls = leadIn np ++ [.drain]
  | .markWaiting | .ready _ | .report _ _ | .wait _ _ _ | .uncordon =>
    b.calls ++ [.uncordon] = wholeBlock np b.resumed
  | .markDone => b.Whole np
  | .markFailed _ => b.calls <+: wholeBlock np b.resumed

/-- Where a visit goes, the block of its calls is in shape. -/
def Block.AtStep (np : NodePool) (b : Block) : StageStep → Prop
  | .at stage => b.AtStage np stage
  | .leave none => b.Whole np
  | .leave (some _) => b.calls <+: wholeBlock np b.resumed

variable {np : NodePool} {b : Block}

theorem Block.Whole.isPrefix (h : b.Whole np) :
    b.calls <+: wholeBlock np b.resumed := by
  rcases h with h | ⟨_, h⟩
  · exact h ▸ List.prefix_refl _
  · rw [h]
    exact List.nil_prefix

/-- At every stage the calls are the beginning of a whole block. -/
theorem Block.AtStage.isPrefix {stage : Stage} (h : b.AtStage np stage) :
    b.calls <+: wholeBlock np b.resumed := by
  cases stage with
  | record => exact absurd h id
  | check =>
    rw [h.2]
    exact List.nil_prefix
  | mkdir | openFile | snapshot =>
    rw [h.2.2]
    exact List.nil_prefix
  | closeFile result =>
    obtain ⟨hr, hsnap, hcalls⟩ := h
    simp [wholeBlock, leadIn, hr, hsnap, hcalls]
  | markDraining | drain =>
    obtain ⟨hr, hcalls⟩ := h
    simp [wholeBlock, hr, hcalls]
  | markUpgrading | image | upgrade =>
    obtain ⟨hr, hcalls⟩ := h
    simp [wholeBlock, hr, hcalls, List.prefix_append_right_inj]
  | markWaiting | ready | report | wait | uncordon => exact ⟨_, h⟩
  | markDone => exact Block.Whole.isPrefix h
  | markFailed => exact h

namespace RolloutReconciler

variable {r : RolloutReconciler} {view : PoolView} {addr : String} {stage : Stage} {e : Ev}
  {step : StageStep}

/-- The record decides which block the visit will be. -/
theorem StageMove.atStep_record (h : StageMove r view addr .record e step) :
    ∃ resumed, beginsVisit e = some (addr, resumed) ∧
      Block.AtStep view.np ⟨addr, resumed, []⟩ step := by
  cases h with
  | resumed hin hname =>
    refine ⟨true, ?_, rfl⟩
    simp [beginsVisit, hin]
  | resumedUnlisted hin hname =>
    refine ⟨true, ?_, List.nil_prefix⟩
    simp [beginsVisit, hin]
  | fresh hin =>
    refine ⟨false, ?_, rfl, rfl⟩
    simp [beginsVisit, hin]

/-- Each stage adds its call to the block. -/
theorem StageMove.atStep (h : StageMove r view addr stage e step) (hb : b.AtStage view.np stage) :
    Block.AtStep view.np { b with calls := b.calls ++ stage.mutates.toList } step := by
  cases h with
  | resumed | resumedUnlisted | fresh => exact absurd hb id
  | unread | unlisted =>
    -- nothing has been called yet
    obtain ⟨-, hcalls⟩ := hb
    simp [Block.AtStep, Block.AtStage, Stage.mutates, hcalls]
  | found =>
    obtain ⟨hr, hcalls⟩ := hb
    exact Or.inr ⟨hr, by simp [Stage.mutates, hcalls]⟩
  | held hne hover =>
    obtain ⟨-, hcalls⟩ := hb
    simp [Block.AtStep, Stage.mutates, hcalls]
  | snapshotFirst hs hname hsnap =>
    obtain ⟨hr, hcalls⟩ := hb
    exact ⟨hr, hsnap, by simp [Stage.mutates, hcalls]⟩
  | drainFirst hs hname hsnap =>
    obtain ⟨hr, hcalls⟩ := hb
    exact ⟨hr, by simp [Stage.mutates, hcalls, leadIn, hsnap]⟩
  | dirFailed | openFailed =>
    obtain ⟨-, -, hcalls⟩ := hb
    simp [Block.AtStep, Block.AtStage, Stage.mutates, hcalls]
  | dirMade | opened | streamed =>
    obtain ⟨hr, hsnap, hcalls⟩ := hb
    exact ⟨hr, hsnap, by simp [Stage.mutates, hcalls]⟩
  | streamFailed | closeFailed =>
    obtain ⟨hr, hsnap, hcalls⟩ := hb
    simp [Block.AtStep, Block.AtStage, Stage.mutates, wholeBlock, leadIn, hr, hsnap, hcalls]
  | closed =>
    obtain ⟨hr, hsnap, hcalls⟩ := hb
    exact ⟨hr, by simp [Stage.mutates, hcalls, leadIn, hsnap]⟩
  | draining | upgrading | drained | imageRead =>
    obtain ⟨hr, hcalls⟩ := hb
    exact ⟨hr, by simp [Stage.mutates, hcalls]⟩
  | drainFailed | imageFailed | upgradeFailed | upgradedUnlisted =>
    obtain ⟨hr, hcalls⟩ := hb
    simp [Block.AtStep, Block.AtStage, Stage.mutates, wholeBlock, hr, hcalls,
      List.prefix_append_right_inj]
  | upgraded =>
    obtain ⟨hr, hcalls⟩ := hb
    simp [Block.AtStep, Block.AtStage, Stage.mutates, wholeBlock, hr, hcalls]
  | waiting | polled | healthy | unhealthy | again =>
    have hcalls : b.calls ++ [.uncordon] = wholeBlock view.np b.resumed := hb
    simpa [Block.AtStep, Block.AtStage, Stage.mutates] using hcalls
  | timedOut =>
    have hcalls : b.calls ++ [.uncordon] = wholeBlock view.np b.resumed := hb
    refine ⟨[.uncordon], ?_⟩
    simpa [Stage.mutates] using hcalls
  | uncordonFailed =>
    have hcalls : b.calls ++ [.uncordon] = wholeBlock view.np b.resumed := hb
    simp [Block.AtStep, Block.AtStage, Stage.mutates, hcalls]
  | uncordoned =>
    have hcalls : b.calls ++ [.uncordon] = wholeBlock view.np b.resumed := hb
    exact Or.inl hcalls
  | finished =>
    have hwhole : b.Whole view.np := hb
    simpa [Block.AtStep, Block.Whole, Stage.mutates] using hwhole
  | halted =>
    have hcalls : b.calls <+: wholeBlock view.np b.resumed := hb
    simpa [Block.AtStep, Stage.mutates] using hcalls

/-- Only the first call of a poll leads between its two calls. -/
theorem StageMove.polled_of_report (h : StageMove r view addr stage e step)
    {left : Nat} {ready : Bool} (hstep : step = .at (.report left ready)) :
    pollsNode [e] = true := by
  cases h <;> cases hstep
  rfl

/-- What the event of a stage shows. -/
theorem shows_at_stage (hop : r.stageIssues view addr stage = e.op) :
    readsPool e = none ∧ mutation e = stage.mutates.map (fun c => (addr, c)) ∧
      (stage ≠ .record → beginsVisit e = none) := by
  obtain ⟨op, rep⟩ := e
  cases stage <;> cases hop <;> first | exact ⟨rfl, rfl, fun _ => rfl⟩ |
    exact ⟨rfl, rfl, fun h => absurd rfl h⟩

end RolloutReconciler

/-! ## Places of a pass -/

/-- Nothing has been visited or called. -/
def Untouched (t : Trace medeaSig) : Prop := Consists t []

/-- The visits before the one in hand have come to their ends. -/
structure Visited (np : NodePool) (visited : List String) (blocks : List Block) : Prop where
  addrs : blocks.map (·.addr) = visited
  whole : ∀ b ∈ blocks, b.Whole np

/-- The visit of a member: not begun, or with the block of its calls so far. Between the two calls of
a poll, the last event is the first of them. -/
def VisitShaped (t : Trace medeaSig) (np : NodePool) (visited : List String) (addr : String)
    (stage : Stage) : Prop :=
  (∀ left ready, stage = .report left ready → pollsNode t = true) ∧
    ∃ blocks, Visited np visited blocks ∧
      (stage = .record ∧ Consists t blocks ∨
        ∃ b : Block, Consists t (blocks ++ [b]) ∧ b.addr = addr ∧ b.AtStage np stage)

/-- The pool a pass has read; before that, one without members. -/
def poolRead (t : Trace medeaSig) : NodePool := (poolOf t).getD { cluster := "", name := "" }

/-- The events before a place inside a pass. -/
def PoolPos.Shaped (t : Trace medeaSig) : PoolPos → Prop
  | .pool => Untouched t
  | .cluster np | .nodes np _ => poolOf t = some np ∧ Untouched t
  | .member view visited addr _ stage =>
    poolOf t = some view.np ∧ VisitShaped t view.np visited addr stage
  | .returned _ => ∃ blocks, InBlocks t (poolRead t) blocks

/-- The events of a job before a place. -/
def ExecPos.Shaped (f : JobFrame) (t : Trace medeaSig) : ExecPos → Prop
  | .connect f' | .markRunning f' => f' = f ∧ Untouched t
  | .pool f' pos => f' = f ∧ pos.Shaped t
  | .idle => ∃ blocks, InBlocks t (poolRead t) blocks
  | _ => False

variable {t : Trace medeaSig} {blocks : List Block}

theorem Untouched.inBlocks (h : Untouched t) :
    ∃ blocks, InBlocks t (poolRead t) blocks := by
  refine ⟨[], h, List.nil_prefix, ?_, ?_⟩
  · intro b hb
    cases hb
  · intro b hb
    cases hb

/-- A visit that has come to its end joins the others. -/
theorem Visited.snoc {visited : List String} (h : Visited np visited blocks) (hb : b.Whole np) :
    Visited np (visited ++ [b.addr]) (blocks ++ [b]) := by
  refine ⟨?_, ?_⟩
  · rw [List.map_append, h.addrs]
    rfl
  · intro b' hb'
    rcases List.mem_append.1 hb' with hmem | hmem
    · exact h.whole b' hmem
    · rw [List.mem_singleton.1 hmem]
      exact hb

/-- With the last visit cut short the calls are in blocks. -/
theorem Visited.inBlocks {visited rest : List String} (h : Visited np visited blocks)
    (hc : Consists t (blocks ++ [b])) (hb : b.calls <+: wholeBlock np b.resumed)
    (ho : sortStrings np.members = visited ++ b.addr :: rest) : InBlocks t np (blocks ++ [b]) := by
  refine ⟨hc, ?_, ?_, ?_⟩
  · rw [List.map_append, h.addrs, ho]
    exact ⟨rest, by simp⟩
  · rw [List.dropLast_concat]
    exact h.whole
  · intro b' hb'
    rw [List.getLast?_concat] at hb'
    cases hb'
    exact hb

/-- When all visits have come to their ends they are in blocks, too. -/
theorem Visited.inBlocks_whole {visited rest : List String} (h : Visited np visited blocks)
    (hc : Consists t blocks) (ho : sortStrings np.members = visited ++ rest) :
    InBlocks t np blocks := by
  refine ⟨hc, ?_, ?_, ?_⟩
  · rw [h.addrs, ho]
    exact List.prefix_append _ _
  · intro b hb
    exact h.whole b (List.dropLast_subset _ hb)
  · intro b hb
    exact (h.whole b (List.mem_of_getLast? hb)).isPrefix

/-- At every coherent place the calls so far are in blocks. -/
theorem PoolPos.Shaped.inBlocks {f : JobFrame} {pos : PoolPos} (h : pos.Shaped t) (hc : pos.Coherent f) :
    ∃ blocks, InBlocks t (poolRead t) blocks := by
  cases pos with
  | pool => exact Untouched.inBlocks h
  | cluster | nodes => exact Untouched.inBlocks h.2
  | member view visited addr todo stage =>
    obtain ⟨hpool, -, blocks, hvisited, hvisit⟩ := h
    have hread : poolRead t = view.np := by rw [poolRead, hpool]; rfl
    rw [hread]
    rcases hvisit with ⟨-, hcons⟩ | ⟨b, hcons, rfl, hstage⟩
    · exact ⟨blocks, hvisited.inBlocks_whole hcons hc.2⟩
    · exact ⟨blocks ++ [b], hvisited.inBlocks hcons hstage.isPrefix hc.2⟩
  | returned result => exact h

namespace RolloutReconciler

variable {r : RolloutReconciler} {view : PoolView} {visited todo : List String} {addr : String}
  {t : Trace medeaSig} {e : Ev}

/-- The next member's visit has not begun. -/
theorem nextMember_shaped (hpool : poolOf t = some view.np) (hv : Visited view.np visited blocks)
    (hc : Consists t blocks) (ho : view.members = visited ++ todo) :
    (nextMember view visited todo).Shaped t := by
  cases todo with
  | nil =>
    refine ⟨blocks, ?_⟩
    have hread : poolRead t = view.np := by rw [poolRead, hpool]; rfl
    rw [hread]
    exact hv.inBlocks_whole hc ho
  | cons addr todo => exact ⟨hpool, nofun, blocks, hv, Or.inl ⟨rfl, hc⟩⟩

/-- After an event of the visit the block of its calls is in shape, wherever the visit goes. -/
theorem settleStep_shaped {step : StageStep} (hpool : poolOf t = some view.np)
    (hv : Visited view.np visited blocks) (hc : Consists t (blocks ++ [b])) (hb : b.addr = addr)
    (hstep : b.AtStep view.np step)
    (hpoll : ∀ left ready, step = .at (.report left ready) → pollsNode t = true)
    (ho : view.members = visited ++ addr :: todo) :
    (settleStep view addr visited todo step).Shaped t := by
  subst hb
  rcases step with s | (_ | result)
  · refine ⟨hpool, ?_, blocks, hv, Or.inr ⟨b, hc, rfl, hstep⟩⟩
    rintro left ready rfl
    exact hpoll left ready rfl
  · have hwhole : b.Whole view.np := hstep
    refine nextMember_shaped hpool (hv.snoc hwhole) hc ?_
    rw [ho]
    simp
  · refine ⟨blocks ++ [b], ?_⟩
    have hread : poolRead t = view.np := by rw [poolRead, hpool]; rfl
    rw [hread]
    exact hv.inBlocks hc hstep ho

/-- One event of a visit. -/
theorem visit_shaped {stage : Stage} (hop : r.stageIssues view addr stage = e.op)
    (ho : view.members = visited ++ addr :: todo) (hpool : poolOf t = some view.np)
    (h : VisitShaped t view.np visited addr stage) :
    (settleStep view addr visited todo (r.stageNext view addr stage e)).Shaped (t ++ [e]) := by
  obtain ⟨hread, hmut, hbegins⟩ := shows_at_stage hop
  have hmove := stageNext_moves hop
  have hpool' : poolOf (t ++ [e]) = some view.np := by rw [poolOf_snoc_none hread, hpool]
  have hpoll : ∀ left ready, r.stageNext view addr stage e = .at (.report left ready) →
      pollsNode (t ++ [e]) = true := by
    intro left ready hstep
    have hlast : pollsNode (t ++ [e]) = pollsNode [e] := by simp [pollsNode]
    rw [hlast]
    exact hmove.polled_of_report hstep
  obtain ⟨-, blocks, hv, hvisit⟩ := h
  rcases hvisit with ⟨rfl, hc⟩ | ⟨b, hc, hb, hstage⟩
  · -- the record is read: a new block begins
    obtain ⟨resumed, hbegin, hstep⟩ := hmove.atStep_record
    have hc' : Consists (t ++ [e]) (blocks ++ [⟨addr, resumed, []⟩]) :=
      hc.begin hbegin hmut rfl
    exact settleStep_shaped hpool' hv hc' rfl hstep hpoll ho
  · have hne : stage ≠ .record := by
      rintro rfl
      exact hstage
    have hmut' : mutation e = stage.mutates.map fun c => (b.addr, c) := by rw [hb, hmut]
    have hc' := hc.inside (hbegins hne) hmut'
    exact settleStep_shaped hpool' hv hc' hb (hmove.atStep hstage) hpoll ho

/-- One event of a pass. -/
theorem poolNext_shaped {f : JobFrame} {pos : PoolPos} {pool : String} (hc : pos.Coherent f)
    (hop : r.poolIssues f.cl.name pool pos = some e.op) (h : pos.Shaped t) :
    (r.poolNext f.cl.name pool pos e).Shaped (t ++ [e]) := by
  have hmove := poolNext_moves hop
  generalize hpos' : r.poolNext f.cl.name pool pos e = pos' at hmove
  cases hmove with
  -- until the first visit there are no calls for members
  | poolFailed | poolMissing | paused => exact Untouched.inBlocks (Consists.quiet h rfl rfl)
  | pinned | unpinned => exact ⟨poolOf_snoc_some rfl, Consists.quiet h rfl rfl⟩
  | clusterFailed | clusterMissing | untargeted | nodesFailed | nobody =>
    exact Untouched.inBlocks (Consists.quiet h.2 rfl rfl)
  | targeted => exact ⟨(poolOf_snoc_none rfl).trans h.1, Consists.quiet h.2 rfl rfl⟩
  | @entered np =>
    have hvisited : Visited np [] [] := ⟨rfl, fun b hb => by cases hb⟩
    refine ⟨(poolOf_snoc_none rfl).trans h.1, nofun, [], hvisited, Or.inl ⟨rfl, ?_⟩⟩
    exact Consists.quiet h.2 rfl rfl
  | inVisit | nextVisit | lastVisit | endedVisit =>
    rw [← hpos']
    exact visit_shaped (Option.some.inj hop) hc.2 h.1 h.2

end RolloutReconciler

namespace RolloutExecutor

variable {x : RolloutExecutor} {f : JobFrame} {pos : ExecPos} {t : Trace medeaSig} {e : Ev}

/-- One event of a job that is the last one of its pass. -/
theorem next_shaped (hk : f.job.kind = .talos) (hlast : afterJob f = .idle) (hc : pos.Coherent)
    (hop : x.issues pos = some e.op) (h : pos.Shaped f t) : (x.next pos e).Shaped f (t ++ [e]) := by
  cases pos with
  | connect f' =>
    obtain ⟨rfl, hu⟩ := h
    obtain ⟨op, rep⟩ := e
    cases hop
    have hu' : Untouched (t ++ [ev (.connect f'.cl (.rollout f'.job)) rep]) :=
      Consists.quiet hu rfl rfl
    cases rep with
    | error err =>
      show (afterJob f').Shaped f' _
      rw [hlast]
      exact hu'.inBlocks
    | ok _ =>
      have hd : x.dispatch f' = .markRunning f' := by rw [dispatch, hk]
      show (x.dispatch f').Shaped f' _
      rw [hd]
      exact ⟨rfl, hu'⟩
  | markRunning f' =>
    obtain ⟨rfl, hu⟩ := h
    obtain ⟨op, rep⟩ := e
    cases hop
    exact ⟨rfl, Consists.quiet hu rfl rfl⟩
  | pool f' pos =>
    obtain ⟨rfl, hpos⟩ := h
    cases pos with
    | returned result =>
      -- the record of the job ends the pass
      obtain ⟨op, rep⟩ := e
      cases hop
      obtain ⟨blocks, hb⟩ := hpos
      show (afterJob f').Shaped f' _
      rw [hlast]
      have hread : poolRead (t ++ [ev (.store (.putRolloutJob (outcome f'.job result))) rep]) =
          poolRead t := by rw [poolRead, poolRead, poolOf_snoc_none rfl]
      refine ⟨blocks, ?_⟩
      rw [hread]
      exact ⟨hb.toConsists.quiet rfl rfl, hb.order, hb.whole, hb.last⟩
    | _ => exact ⟨rfl, poolNext_shaped hc.2.2 hop hpos⟩
  | idle => cases hop
  | _ => exact absurd h id

/-- The whole execution of a job, up to any point. -/
theorem foldl_shaped (hk : f.job.kind = .talos) (hlast : afterJob f = .idle) (hact : f.Active)
    (ht : Along x.next (fun pos e => x.issues pos = some e.op) (.connect f) t) :
    (t.foldl x.next (.connect f)).Shaped f t := by
  induction t using List.reverseRecOn with
  | nil => exact ⟨rfl, rfl, rfl⟩
  | append_singleton t e ih =>
    obtain ⟨hbefore, hop, -⟩ := along_append.1 ht
    have hstart : (ExecPos.connect f).Coherent := hact
    have hc := foldl_next_coherent hstart hbefore
    rw [List.foldl_append]
    exact next_shaped hk hlast hc hop (ih hbefore)

end RolloutExecutor

/-- The calls of a job for a pool are in blocks, at every point of every execution. -/
theorem runJob_inBlocks {x : RolloutExecutor} {cl : Cluster} {job : Rollout} {q : Prog Unit}
    (hk : job.kind = .talos) (hact : actionable job.state = true) (h : (x.runJob cl job).Steps t q) :
    ∃ blocks, InBlocks t (poolRead t) blocks := by
  by_cases hen : cl.rolloutsEnabled = true
  swap
  · rw [runJob, if_neg hen] at h
    obtain ⟨rfl, -⟩ := Program.Steps.of_done h
    exact Untouched.inBlocks ⟨rfl, rfl⟩
  let f : JobFrame := ⟨[], cl, [], job⟩
  have hstart : (ExecPos.connect f).Coherent := ⟨hen, hact⟩
  have halong := (x.runJob_along f hen h).1
  have hshaped := foldl_shaped hk rfl ⟨hen, hact⟩ halong
  have hcoherent := foldl_next_coherent hstart halong
  cases hpos : t.foldl x.next (.connect f) with
  | connect f' | markRunning f' =>
    rw [hpos] at hshaped
    exact hshaped.2.inBlocks
  | pool f' pos =>
    rw [hpos] at hshaped hcoherent
    exact hshaped.2.inBlocks hcoherent.2.2
  | idle =>
    rw [hpos] at hshaped
    exact hshaped
  | _ =>
    rw [hpos] at hshaped
    exact absurd hshaped id

/-! ## Failures -/

/-- A call for a member fails, or the wait for it times out. The calls of a health poll are not
meant, and the version of a node is read both by the poll and before the visit decides. -/
def failsMember (past : Trace medeaSig) : Ev → Bool
  | ⟨.talos _ (.version _), .error _⟩ => !pollsNode past
  | ⟨.talos _ (.etcdSnapshot _ _), .error _⟩ => true
  | ⟨.talos _ (.installImage _), .error _⟩ => true
  | ⟨.talos _ (.upgradeOS _ _), .error _⟩ => true
  | ⟨.kube _ _ (.drain _ _), .error _⟩ => true
  | ⟨.kube _ _ (.uncordon _), .error _⟩ => true
  | ⟨.mkdirAll _, .error _⟩ => true
  | ⟨.openFile _, .error _⟩ => true
  | ⟨.closeFile _, .error _⟩ => true
  | ⟨.wait _ left, expired⟩ => expired || left == 0
  | _ => false

/-- All that follows: the snapshot file is closed, if it is open, and the failures of the member and
of the job are recorded. -/
def Halts (cl : Cluster) (job : Rollout) (addr : String) (t : Trace medeaSig) : Prop :=
  ∃ (closing : List Op) (mr : MachineRollout) (job' : Rollout),
    t.map (·.op) = closing ++ [.store (.putMachineRollout mr), .store (.putRolloutJob job')] ∧
      (closing = [] ∨ ∃ path, closing = [.closeFile path]) ∧
      mr.cluster = cl.name ∧ mr.addr = addr ∧ mr.state = .failed ∧
      job'.key = job.key ∧ job'.state = .failed

namespace RolloutReconciler

variable {r : RolloutReconciler} {view : PoolView} {visited todo : List String} {addr : String}
  {stage : Stage} {e : Ev}

/-- A failed call leads to the record of the failure, at most past the closing of the file. -/
theorem StageMove.fails {step : StageStep} {past : Trace medeaSig}
    (h : StageMove r view addr stage e step) (hop : r.stageIssues view addr stage = e.op)
    (hpoll : ∀ left ready, stage = .report left ready → pollsNode past = true)
    (hfail : failsMember past e = true) :
    (∃ msg, step = .at (.markFailed msg)) ∨ ∃ err, step = .at (.closeFile (.error err)) := by
  cases h with
  | unread | dirFailed | openFailed | streamFailed | closeFailed | drainFailed | imageFailed
  | upgradeFailed | timedOut | uncordonFailed => exact Or.inl ⟨_, rfl⟩
  | draining | upgrading | waiting | finished | halted =>
    obtain ⟨op, rep⟩ := e
    cases hop
    cases hfail
  | streamed =>
    rename_i rep
    cases rep with
    | error err => exact Or.inr ⟨err, rfl⟩
    | ok _ => cases hfail
  | healthy hversion =>
    rename_i rep
    cases rep with
    | error err =>
      rw [failsMember, hpoll _ _ rfl] at hfail
      cases hfail
    | ok _ => cases hfail
  | unhealthy hversion =>
    rename_i rep
    cases rep with
    | error err =>
      rw [failsMember, hpoll _ _ rfl] at hfail
      cases hfail
    | ok _ => cases hfail
  | again => cases hfail
  | _ => cases hfail

end RolloutReconciler

/-- The member in hand is the one whose record was read last. -/
theorem Consists.memberOf (h : Consists t (blocks ++ [b])) :
    memberOf t = some b.addr := by
  rw [Medea.memberOf, h.visits]
  simp

namespace RolloutExecutor

variable {x : RolloutExecutor} {f : JobFrame} {pos : ExecPos} {t : Trace medeaSig} {e : Ev}

/-- A call for a member fails in the visit of the member, and its failure is recorded next. -/
theorem next_of_failsMember (hop : x.issues pos = some e.op) (h : pos.Shaped f t)
    (hfail : failsMember t e = true) :
    ∃ view visited addr todo stage, pos = .pool f (.member view visited addr todo stage) ∧
      memberOf t = some addr ∧
      ((∃ msg, x.next pos e = .pool f (.member view visited addr todo (.markFailed msg))) ∨
        ∃ err, x.next pos e = .pool f (.member view visited addr todo (.closeFile (.error err)))) := by
  cases pos with
  | idle => cases hop
  | connect f' | markRunning f' =>
    obtain ⟨op, rep⟩ := e
    cases hop
    cases hfail
  | pool f' pos =>
    obtain ⟨rfl, hpos⟩ := h
    cases pos with
    | member view visited addr todo stage =>
      obtain ⟨-, hpoll, blocks, -, hvisit⟩ := hpos
      have hop := Option.some.inj hop
      have hmember : memberOf t = some addr := by
        rcases hvisit with ⟨rfl, -⟩ | ⟨b, hcons, rfl, -⟩
        · -- reading the record is no call
          obtain ⟨op, rep⟩ := e
          cases hop
          cases hfail
        · exact hcons.memberOf
      refine ⟨view, visited, addr, todo, stage, rfl, hmember, ?_⟩
      have hnext : x.next (.pool f' (.member view visited addr todo stage)) e =
          .pool f' (settleStep view addr visited todo
            ((x.reconcilerOf f').stageNext view addr stage e)) := rfl
      rcases (stageNext_moves hop).fails hop hpoll hfail with
        ⟨msg, hstep⟩ | ⟨err, hstep⟩
      · exact Or.inl ⟨msg, by rw [hnext, hstep]; rfl⟩
      · exact Or.inr ⟨err, by rw [hnext, hstep]; rfl⟩
    | _ =>
      obtain ⟨op, rep⟩ := e
      cases hop
      cases hfail
  | _ => exact absurd h id

section Tail

variable {view : PoolView} {visited todo : List String} {addr : String}
  (hlast : afterJob f = .idle) (hview : view.cluster = f.cl.name)

include hlast hview

/-- From the record of a member's failure a job goes straight to its end. -/
theorem halts_of_markFailed {msg : String}
    (ht : Along x.next (fun pos e => x.issues pos = some e.op)
      (.pool f (.member view visited addr todo (.markFailed msg))) t)
    (hend : t.foldl x.next (.pool f (.member view visited addr todo (.markFailed msg))) = .idle) :
    ∃ mr job', t.map (·.op) = [.store (.putMachineRollout mr), .store (.putRolloutJob job')] ∧
      mr.cluster = f.cl.name ∧ mr.addr = addr ∧ mr.state = .failed ∧
      job'.key = f.job.key ∧ job'.state = .failed := by
  cases t with
  | nil => cases hend
  | cons e1 t =>
    obtain ⟨hop1, ht⟩ := ht
    cases t with
    | nil => cases hend
    | cons e2 t =>
      obtain ⟨hop2, ht⟩ := ht
      -- past the record of the job nothing is left to do
      have hidle : x.next (x.next (.pool f (.member view visited addr todo (.markFailed msg))) e1)
          e2 = .idle := hlast
      rw [hidle] at ht
      cases t with
      | cons e3 t => exact absurd ht.1 nofun
      | nil =>
        let mr := memberRecord view addr .failed msg
        let job' := outcome f.job (.error ("rollout halted at " ++ addr ++ ": " ++ msg))
        refine ⟨mr, job', ?_, hview, rfl, rfl, rfl, rfl⟩
        rw [List.map_cons, List.map_singleton, ← Option.some.inj hop1,
          ← Option.some.inj hop2]
        rfl

theorem halts_of_closeFile {err : String}
    (ht : Along x.next (fun pos e => x.issues pos = some e.op)
      (.pool f (.member view visited addr todo (.closeFile (.error err)))) t)
    (hend : t.foldl x.next (.pool f (.member view visited addr todo (.closeFile (.error err)))) =
      .idle) :
    ∃ path mr job', t.map (·.op) =
        [.closeFile path, .store (.putMachineRollout mr), .store (.putRolloutJob job')] ∧
      mr.cluster = f.cl.name ∧ mr.addr = addr ∧ mr.state = .failed ∧
      job'.key = f.job.key ∧ job'.state = .failed := by
  cases t with
  | nil => cases hend
  | cons e t =>
    obtain ⟨hop, ht⟩ := ht
    obtain ⟨mr, job', hops, hrest⟩ := halts_of_markFailed hlast hview ht hend
    refine ⟨(x.reconcilerOf f).snapshotPath view.cluster addr, mr, job', ?_, hrest⟩
    rw [List.map_cons, hops, ← Option.some.inj hop]
    rfl

end Tail

end RolloutExecutor

/-- A call for a member that fails is the last call of the job. -/
theorem runJob_halts {x : RolloutExecutor} {cl : Cluster} {job : Rollout}
    {t1 t2 : Trace medeaSig} {e : Ev} (hk : job.kind = .talos)
    (hact : actionable job.state = true)
    (h : (x.runJob cl job).Steps (t1 ++ e :: t2) (.done ())) (hfail : failsMember t1 e = true) :
    ∃ addr, memberOf t1 = some addr ∧ Halts cl job addr t2 := by
  by_cases hen : cl.rolloutsEnabled = true
  swap
  · rw [runJob, if_neg hen] at h
    have hnil := (Program.Steps.of_done h).1
    simp at hnil
  let f : JobFrame := ⟨[], cl, [], job⟩
  have hstart : (ExecPos.connect f).Coherent := ⟨hen, hact⟩
  obtain ⟨halong, hend⟩ := x.runJob_along f hen h
  have hend : (t1 ++ e :: t2).foldl x.next (.connect f) = .idle := hend rfl
  obtain ⟨hpre, hop, hpost⟩ := along_append.1 halong
  have hshaped := foldl_shaped hk rfl ⟨hen, hact⟩ hpre
  have hcoherent := foldl_next_coherent hstart hpre
  rw [List.foldl_append, List.foldl_cons] at hend
  obtain ⟨view, visited, addr, todo, stage, hpos, hmember, hnext⟩ :=
    next_of_failsMember hop hshaped hfail
  have hview : view.cluster = f.cl.name := by
    rw [hpos] at hcoherent
    exact hcoherent.2.2.1.cluster
  refine ⟨addr, hmember, ?_⟩
  rcases hnext with ⟨msg, hnext⟩ | ⟨err, hnext⟩
  · rw [hnext] at hpost hend
    obtain ⟨mr, job', hops, hrest⟩ := halts_of_markFailed rfl hview hpost hend
    exact ⟨[], mr, job', hops, Or.inl rfl, hrest⟩
  · rw [hnext] at hpost hend
    obtain ⟨path, mr, job', hops, hrest⟩ := halts_of_closeFile rfl hview hpost hend
    exact ⟨[.closeFile path], mr, job', hops, Or.inr ⟨path, rfl⟩, hrest⟩

end Medea
