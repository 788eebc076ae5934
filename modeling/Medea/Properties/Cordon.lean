import Medea.ControlPlane.Observations

/-!
# Finished nodes and their cordon

A drain cordons the node, whether it succeeds or not, and only an uncordon call releases it. A visit
that upgrades a node ends with that call. A visit that finds the node already at its target records
it as done without looking at the cordon, so a node that an earlier job left drained stays cordoned
behind a record that says done.

`done_record_released` says that this shortcut is the only way: in a run where it is taken for
released nodes only, every node recorded as done is released.
-/

set_option autoImplicit false
set_option maxRecDepth 100000

namespace Medea

open Medea.Interaction RolloutExecutor

/-- The calls that affect the cordon of a node. -/
inductive CordonCall where
  | drain
  | uncordon (succeeded : Bool)
  deriving DecidableEq

/-- The cordon call a pass over a pool makes, with its node. -/
def Lbl.cordons : Lbl → Option (String × CordonCall)
  | .act .rollouts ⟨.kube client member (.drain _ _), _⟩ =>
    if client.ofPool then some (client.node member, .drain) else none
  | .act .rollouts ⟨.kube client member (.uncordon _), rep⟩ =>
    if client.ofPool then some (client.node member, .uncordon rep.isOk) else none
  | _ => none

/-- The cordon calls made for a node, in order. -/
def cordonCalls (k : String) (ls : List Lbl) : List CordonCall :=
  (ls.filterMap Lbl.cordons).filterMap fun p => if p.1 = k then some p.2 else none

/-- No drain was issued for the node, or the last cordon call for it was a successful uncordon. -/
def Released (k : String) (ls : List Lbl) : Prop :=
  .drain ∉ cordonCalls k ls ∨ (cordonCalls k ls).getLast? = some (.uncordon true)

instance (k : String) (ls : List Lbl) : Decidable (Released k ls) :=
  inferInstanceAs (Decidable (_ ∨ _))

/-- The shortcut: a visit that reads the version of the node finds it at the target of the pass. -/
def foundAtTarget (k : String) : ExecPos → Lbl → Bool
  | .pool _ (.member view _ addr _ .check), .act .rollouts ⟨.talos _ (.version _), .ok cur⟩ =>
    ckey view.cluster addr = k ∧ cur = view.target
  | _, _ => false

namespace Cordon

variable {k : String} {ls : List Lbl} {l : Lbl}
variable {stage : Stage} {state : Option RolloutState}

theorem cordonCalls_snoc (k : String) (ls : List Lbl) (l : Lbl) :
    cordonCalls k (ls ++ [l]) = cordonCalls k ls ++ cordonCalls k [l] := by
  simp only [cordonCalls, List.filterMap_append]

/-- A label that makes no cordon call for the node changes nothing. -/
theorem released_of_other (h : ∀ call, l.cordons ≠ some (k, call)) :
    Released k (ls ++ [l]) ↔ Released k ls := by
  have hnil : cordonCalls k [l] = [] := by
    cases hl : l.cordons with
    | none => simp [cordonCalls, hl]
    | some p =>
      have hk : p.1 ≠ k := fun hk => h p.2 (by rw [hl, ← hk])
      simp [cordonCalls, hl, hk]
  rw [Released, cordonCalls_snoc, hnil, List.append_nil]
  exact Iff.rfl

theorem released_of_none (h : l.cordons = none) : Released k (ls ++ [l]) ↔ Released k ls :=
  released_of_other fun call hcall => by rw [h] at hcall; cases hcall

theorem released_of_uncordon (h : l.cordons = some (k, .uncordon true)) :
    Released k (ls ++ [l]) := by
  right
  rw [cordonCalls_snoc]
  simp [cordonCalls, h]

/-! ## Where cordon calls come from -/

/-- The cordon call of a stage. -/
def ofStage : Stage → Ev → Option CordonCall
  | .drain, _ => some .drain
  | .uncordon, ⟨.kube _ _ (.uncordon _), rep⟩ => some (.uncordon rep.isOk)
  | _, _ => none

theorem cordons_other {i : Who} {e : Ev} (hi : i ≠ .rollouts) : Lbl.cordons (.act i e) = none := by
  cases i <;> first | rfl | exact absurd rfl hi

theorem cordons_at_stage {e : RolloutExecutor} {f : JobFrame} {view : PoolView}
    {visited todo : List String} {addr : String} {ev : Ev}
    (hcoh : (ExecPos.pool f (.member view visited addr todo stage)).Coherent)
    (hop : e.issues (.pool f (.member view visited addr todo stage)) = some ev.op) :
    Lbl.cordons (.act .rollouts ev) =
      (ofStage stage ev).map fun call => (ckey view.cluster addr, call) := by
  obtain ⟨_, hkind, hview, _⟩ := hcoh
  have hpool := reconcilerOf_ofPool (e := e) hkind
  have hnode := reconcilerOf_node (e := e) hview addr
  obtain ⟨op, rep⟩ := ev
  cases stage with
  | drain | uncordon =>
    cases hop
    exact (if_pos hpool).trans (by rw [hnode]; rfl)
  | _ =>
    cases hop
    rfl

/-- Cordon calls are made in visits. -/
theorem member_of_cordons {e : RolloutExecutor} {pos : ExecPos} {ev : Ev} {call : CordonCall}
    (hcoh : pos.Coherent) (hop : e.issues pos = some ev.op)
    (h : Lbl.cordons (.act .rollouts ev) = some (k, call)) :
    ∃ f view visited addr todo stage, pos = .pool f (.member view visited addr todo stage) ∧
      ckey view.cluster addr = k := by
  cases pos with
  | pool f pos =>
    cases pos with
    | member view visited addr todo stage =>
      rw [cordons_at_stage hcoh hop] at h
      obtain ⟨call', -, he⟩ := Option.map_eq_some_iff.1 h
      exact ⟨f, view, visited, addr, todo, stage, rfl, congrArg Prod.fst he⟩
    | _ =>
      obtain ⟨op, rep⟩ := ev
      cases hop
      cases h
  | k8s f pos =>
    obtain ⟨op, rep⟩ := ev
    cases pos <;> cases hop <;> cases h
  | _ =>
    obtain ⟨op, rep⟩ := ev
    cases hop <;> cases h

/-! ## The invariant -/

/-- The stages at which a cordon call is due, with those that lead to the uncordon call. -/
def due : Stage → Bool
  | .drain | .ready _ | .report _ _ | .wait _ _ _ | .uncordon => true
  | _ => false

/-- What a stage of the visit of the node knows: while a cordon call is due the record does not say
done, and it is about to say so for a released node only. -/
structure StageOk (state : Option RolloutState) (released : Prop) (stage : Stage) : Prop where
  unsettled : due stage = true → state ≠ some .done
  finished : stage = .markDone → released

/-- A stage without a cordon call and without a record of its own. -/
theorem StageOk.of_other {released : Prop}
    (hd : due stage = false) (hm : stage ≠ .markDone) : StageOk state released stage where
  unsettled h := by simp [hd] at h
  finished h := absurd h hm

/-- A stage with a cordon call due. -/
theorem StageOk.of_due {released : Prop}
    (hs : state ≠ some .done) (hm : stage ≠ .markDone) : StageOk state released stage where
  unsettled _ := hs
  finished h := absurd h hm

/-- A stage that records a released node as done. -/
theorem StageOk.of_released {released : Prop} (h : released) :
    StageOk state released .markDone where
  unsettled hd := nomatch hd
  finished _ := h

/-- Within a visit of the node. It comes to the record of a finished node by the shortcut or by a
successful uncordon call. -/
theorem StageOk.next {r : RolloutReconciler} {view : PoolView} {addr : String}
    {before after : Prop} {stage' : Stage} {e : Ev}
    (h : StageOk state before stage)
    (hfound : stage = .check → e = ev (.talos r.client (.version addr)) (.ok view.target) → after)
    (huncordon : ofStage stage e = some (.uncordon true) → after)
    (hmove : RolloutReconciler.StageMove r view addr stage e (.at stage')) :
    StageOk (stage.stateAfter state) after stage' := by
  cases hmove with
  | found => exact .of_released (hfound rfl rfl)
  | uncordoned => exact .of_released (huncordon rfl)
  | draining | waiting => exact .of_due nofun nofun
  | polled | healthy | unhealthy | again => exact .of_due (h.unsettled rfl) nofun
  | _ => exact .of_other rfl nofun

/-- A stage leaves a record that says done by writing it, or by leaving it alone. -/
theorem stateAfter_eq_done
    (h : stage.stateAfter state = some .done) : stage = .markDone ∨ state = some .done := by
  cases stage with
  | markDone => exact Or.inl rfl
  | markDraining | markUpgrading | markWaiting | markFailed => cases h
  | _ => exact Or.inr h

theorem due_of_ofStage {ev : Ev} {call : CordonCall}
    (h : ofStage stage ev = some call) : due stage = true := by
  cases stage with
  | drain | uncordon => rfl
  | _ => cases h

/-- A record that says done is one of a released node. -/
structure Kept (k : String) (w : World) (m : Ghost) (ls : List Lbl) : Prop where
  record : w.store.recordState k = some .done → Released k ls
  visit : m.pos.AtMember fun view addr stage => ckey view.cluster addr = k →
    StageOk (w.store.recordState k) (Released k ls) stage

/-- The runs considered: record writes succeed, and the shortcut is taken for released nodes. -/
def Assumed (cfg : Settings) (k : String) (past : List Lbl) (l : Lbl) : Prop :=
  l.recordFails = false ∧ (foundAtTarget k (cfg.place past) l = true → Released k past)

section Steps

variable {cfg : Settings} {w w' : World} {m : Ghost} {e : Ev}

/-- A visit of the node itself. -/
theorem Kept.visit_step {f : JobFrame} {view : PoolView} {visited todo : List String}
    {addr : String} {stage : Stage} (h : Kept k w m ls)
    (hpos : m.pos = .pool f (.member view visited addr todo stage)) (hcoh : m.pos.Coherent)
    (hplace : m.pos = cfg.place ls) (ha : Assumed cfg k ls (.act .rollouts e))
    (hop : cfg.rollouts.issues m.pos = some e.op) (hw : w.handles e w')
    (hk : ckey view.cluster addr = k) :
    Kept k w' { m with pos := cfg.rollouts.next m.pos e } (ls ++ [.act .rollouts e]) := by
  have hstage : StageOk (w.store.recordState k) (Released k ls) stage := by
    have hv := h.visit
    rw [hpos] at hv
    exact hv hk
  have hissues := hpos ▸ hop
  have hcall := cordons_at_stage (hpos ▸ hcoh) hissues
  have hstate : w'.store.recordState k = stage.stateAfter (w.store.recordState k) := by
    rw [recordState_at_stage hissues hw ha.1 k, if_pos hk]
  rw [hk] at hcall
  refine ⟨fun hdone => ?_, ?_⟩
  · rw [hstate] at hdone
    cases hof : ofStage stage e with
    | none =>
      rw [hof] at hcall
      refine (released_of_none hcall).2 ?_
      rcases stateAfter_eq_done hdone with hmark | hsame
      · exact hstage.finished hmark
      · exact h.record hsame
    | some call =>
      -- no record says done while a cordon call is due
      have hdue := due_of_ofStage hof
      rcases stateAfter_eq_done hdone with rfl | hsame
      · cases hdue
      · exact absurd hsame (hstage.unsettled hdue)
  · rw [hstate]
    refine next_atMember hop (fun _ _ _ => .of_other rfl nofun) ?_
    intro f' view' visited' addr' todo' st st' hpos' hmove _
    cases hpos.symm.trans hpos'
    refine hstage.next ?_ ?_ hmove
    · rintro rfl rfl
      refine (released_of_none hcall).2 (ha.2 ?_)
      rw [← hplace, hpos]
      exact decide_eq_true ⟨hk, rfl⟩
    · intro hun
      rw [hun] at hcall
      exact released_of_uncordon hcall

/-- A step without a cordon call for the node and without a record of it. -/
theorem Kept.of_quiet {m' : Ghost} (h : Kept k w m ls)
    (hm : Supervision.Moves (controlPlane cfg) w l w') (hr : ∀ s, l.recorded ≠ some (k, s))
    (hrel : Released k (ls ++ [l]) ↔ Released k ls)
    (hv : m'.pos.AtMember fun view addr stage => ckey view.cluster addr = k →
      StageOk (w.store.recordState k) (Released k ls) stage) :
    Kept k w' m' (ls ++ [l]) := by
  have horigin : w'.store.recordState k = some .done → w.store.recordState k = some .done :=
    fun hd => (recordState_origin hm hd).resolve_left (hr .done)
  refine ⟨fun hd => hrel.2 (h.record (horigin hd)), hv.mono fun view addr stage hstage hk => ?_⟩
  exact ⟨fun hd hdone => (hstage hk).unsettled hd (horigin hdone),
    fun hmark => hrel.2 ((hstage hk).finished hmark)⟩

/-- A step of the executor. -/
theorem Kept.exec (h : Kept k w m ls) (hcoh : m.pos.Coherent) (hplace : m.pos = cfg.place ls)
    (ha : Assumed cfg k ls (.act .rollouts e)) (hop : cfg.rollouts.issues m.pos = some e.op)
    (hw : w.handles e w') :
    Kept k w' { m with pos := cfg.rollouts.next m.pos e } (ls ++ [.act .rollouts e]) := by
  rcases visit_or_elsewhere k hcoh hop ha.1 with
    ⟨f, view, visited, addr, todo, stage, hpos, hk⟩ | helse
  · exact h.visit_step hpos hcoh hplace ha hop hw hk
  · have hmoves : Supervision.Moves (controlPlane cfg) w (.act .rollouts e) w' := hw
    refine h.of_quiet hmoves helse.recorded (released_of_other fun call hcall => ?_)
      (helse.next_atMember hop fun _ _ => .of_other rfl nofun)
    obtain ⟨f, view, visited, addr, todo, stage, hpos, hk⟩ := member_of_cordons hcoh hop hcall
    exact helse.visit f view visited addr todo stage hpos hk

/-- The other processes make no cordon calls in passes over pools and keep no machine records. -/
theorem Kept.other (cfg : Settings) {i : Who} {t : Task} (h : Kept k w m ls) (hi : i ≠ .rollouts)
    (hal : Discipline.any.Allows t e.op) (hw : w.handles e w') :
    Kept k w' m (ls ++ [.act i e]) := by
  have hmoves : Supervision.Moves (controlPlane cfg) w (.act i e) w' := hw
  refine h.of_quiet hmoves ?_ (released_of_none (cordons_other hi)) h.visit
  rw [Lbl.recorded_other hal]
  exact fun s he => nomatch he

end Steps

/-- The invariant of the runs considered. -/
theorem kept_invariant (cfg : Settings) (k : String) :
    RunInvariant cfg .any (Assumed cfg k) (fun _ _ => True) (Kept k) where
  initial := ⟨fun hd => (nomatch hd), trivial⟩
  start {w m ls i t} hmay h _ := by
    have hmoves : Supervision.Moves (controlPlane cfg) w (.start i t) w := ⟨hmay, rfl⟩
    refine ⟨trivial, h.of_quiet hmoves nofun (released_of_none rfl) ?_⟩
    show (if i = Who.rollouts then ExecPos.clusters else m.pos).AtMember _
    split
    · trivial
    · exact h.visit
  crash {w m ls} h _ := by
    have hmoves : Supervision.Moves (controlPlane cfg) w .crash ⟨w.store.open⟩ := rfl
    exact ⟨trivial, h.of_quiet hmoves nofun (released_of_none rfl) trivial⟩
  exec h _ ht ha hop hw := ⟨trivial, h.exec ht.coherent ht.place ha hop hw⟩
  other hi h _ _ _ _ hal hw := ⟨trivial, h.other cfg hi hal hw⟩

end Cordon

/-- In every run in which record writes succeed, and in which a node found at its target by the
version check of a visit was released before: a node whose record says done is released. -/
theorem done_record_released {cfg : Settings} {ls : List Lbl} {c : State} {k : String}
    (h : Reaches cfg ls c) (hwrites : ∀ l ∈ ls, l.recordFails = false)
    (hfound : Throughout (fun past l =>
      foundAtTarget k (cfg.place past) l = true → Released k past) ls)
    (hdone : c.world.store.recordState k = some .done) : Released k ls := by
  have hassumed : Throughout (Cordon.Assumed cfg k) ls := fun n l hn =>
    ⟨hwrites l (List.mem_of_getElem? hn), hfound n l hn⟩
  obtain ⟨_, m, _, hat⟩ := (Cordon.kept_invariant cfg k).along h hassumed
  exact hat.holds.record hdone

theorem node_in_time_released : Released (ckey "c" "10.0.0.1")
    (runScript Script.settings Script.nodeInTime State.initial).1 :=
  done_record_released (reaches_script Script.settings Script.nodeInTime) (by decide +kernel)
    (by decide +kernel) (by decide +kernel)

/-- The wait for the upgraded node times out. The node comes up later, and the next job finds it at
the target. -/
def Script.lateNode : List Move :=
  armed ++ order ++ pass 40 (.working "v1.7.0" [node]) ++ order ++
    pass 40 (.working "v1.8.0" [node])

/-- The node is recorded as done and left cordoned. -/
theorem late_node_left_cordoned : ∃ ls c, Reaches Script.settings ls c ∧
    (∀ l ∈ ls, l.recordFails = false) ∧
    c.world.store.recordState (ckey "c" "10.0.0.1") = some .done ∧
    ¬Released (ckey "c" "10.0.0.1") ls := by
  refine ⟨_, _, reaches_script Script.settings Script.lateNode, ?_, ?_, ?_⟩
  · decide +kernel
  · decide +kernel
  · decide +kernel

end Medea
