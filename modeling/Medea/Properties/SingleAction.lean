import Medea.ControlPlane.History
import Medea.ControlPlane.Observations

/-!
# One action per node and rollout

Between an upgrade call for a node and the record that settles it, passes over pools do not disrupt
the node again, however often the server crashes and whatever the nodes answer.

The record is what carries this across a crash. It is written as upgrading before the call is made,
and only a settled record lets a visit past the first stage. `Upgrade.Linked` states this link
between the record, the calls already made and the stage of the visit.
-/

set_option autoImplicit false

namespace Medea

open Medea.Interaction RolloutExecutor

namespace Stage

/-- The stages before the upgrade of a fresh member is recorded. -/
def preparing : Stage → Bool
  | .check | .mkdir | .openFile | .snapshot | .closeFile _ | .markDraining | .drain
  | .markUpgrading => true
  | _ => false

/-- The stages between that record and the upgrade call. -/
def sending : Stage → Bool
  | .image | .upgrade _ => true
  | _ => false

end Stage

namespace Upgrade

variable {state : Option RolloutState}

/-- Whether an upgrade call for the node is open: it has been made and not been settled. -/
def track (k : String) (isOpen : Bool) (l : Lbl) : Bool :=
  if l.settles = some k then false
  else if l.upgrades = some k then true
  else isOpen

def isOpenAfter (k : String) (ls : List Lbl) : Bool := ls.foldl (track k) false

theorem isOpenAfter_snoc (k : String) (ls : List Lbl) (l : Lbl) :
    isOpenAfter k (ls ++ [l]) = track k (isOpenAfter k ls) l := by
  rw [isOpenAfter, List.foldl_append]
  rfl

/-- What a stage of the visit of the node knows. -/
structure StageOk (isOpen : Bool) (state : Option RolloutState) (stage : Stage) : Prop where
  closed : stage.preparing = true ∨ stage.sending = true → isOpen = false
  upgrading : stage.sending = true → state = some .upgrading

/-- An open call shows in the record, and a visit that may disrupt the node finds none open. -/
structure Linked (k : String) (w : World) (m : Ghost) (isOpen : Bool) : Prop where
  recorded : isOpen = true → InFlight (w.store.recordState k)
  visit : m.pos.AtMember fun view addr stage => ckey view.cluster addr = k →
    StageOk isOpen (w.store.recordState k) stage

variable {k : String} {isOpen : Bool} {stage : Stage}

/-- A stage without a claim on the node. -/
theorem StageOk.of_other (hp : stage.preparing = false) (hs : stage.sending = false) :
    StageOk isOpen state stage where
  closed h := by simp [hp, hs] at h
  upgrading h := by simp [hs] at h

/-- A stage before the record, with no call open. -/
theorem StageOk.of_closed (hs : stage.sending = false) : StageOk false state stage where
  closed _ := rfl
  upgrading h := by simp [hs] at h

/-- Whether a call is open after a stage. -/
def openAfter (stage : Stage) (isOpen : Bool) : Bool :=
  match stage.marks with
  | some .done | some .failed => false
  | _ => isOpen || stage.upgrades

/-- Within a visit of the node. The record read at its start decides: it is either in flight, and
then the visit only waits, or no call is open. -/
theorem StageOk.next {r : RolloutReconciler} {view : PoolView} {addr : String} {isOpen : Bool}
    {stage stage' : Stage} {e : Ev}
    (h : StageOk isOpen state stage) (hopen : isOpen = true → InFlight state)
    (hread : ∀ rep, e = ev (.store (.getMachineRollout view.cluster addr)) rep →
      readState rep = state)
    (hmove : RolloutReconciler.StageMove r view addr stage e (.at stage')) :
    StageOk (openAfter stage isOpen) (stage.stateAfter state) stage' := by
  cases hmove with
  | fresh hfresh =>
    have hclosed : isOpen = false := by
      by_contra hne
      rw [hread _ rfl] at hfresh
      exact hfresh (hopen (by simpa using hne))
    subst hclosed
    exact .of_closed rfl
  | snapshotFirst | drainFirst | dirMade | opened | streamed | closed | draining | drained =>
    obtain rfl : isOpen = false := h.closed (Or.inl rfl)
    exact .of_closed rfl
  | upgrading =>
    -- from here on the record says that the call may have been made
    obtain rfl : isOpen = false := h.closed (Or.inl rfl)
    exact ⟨fun _ => rfl, fun _ => rfl⟩
  | imageRead =>
    obtain rfl : isOpen = false := h.closed (Or.inr rfl)
    exact ⟨fun _ => rfl, fun _ => h.upgrading rfl⟩
  | _ => exact .of_other rfl rfl

/-- A call left open by a stage shows in the record the stage leaves. -/
theorem StageOk.inFlight (h : StageOk isOpen state stage) (hopen : isOpen = true → InFlight state)
    (ho : openAfter stage isOpen = true) :
    InFlight (stage.stateAfter state) := by
  cases stage with
  | markDraining =>
    obtain rfl : isOpen = false := h.closed (Or.inl rfl)
    cases ho
  | markUpgrading => exact Or.inl rfl
  | markWaiting => exact Or.inr rfl
  | markDone => cases ho
  | markFailed msg => cases ho
  | upgrade image => exact Or.inl (h.upgrading rfl)
  | _ => exact hopen (by simpa [openAfter, Stage.marks, Stage.upgrades] using ho)

/-! ## Steps -/

/-- What the steps are assumed to do: record writes succeed and no cluster is deleted. -/
def Undisturbed (l : Lbl) : Prop := l.recordFails = false ∧ l.deletesCluster = false

/-- A step that shows nothing of the node. -/
theorem Linked.of_quiet {cfg : Settings} {w w' : World} {m m' : Ghost} {l : Lbl}
    (h : Linked k w m isOpen) (hm : Supervision.Moves (controlPlane cfg) w l w')
    (hd : l.deletesCluster = false) (hu : l.upgrades ≠ some k)
    (hr : ∀ s, l.recorded ≠ some (k, s))
    (hv : m'.pos.AtMember fun view addr stage => ckey view.cluster addr = k →
      StageOk isOpen (w.store.recordState k) stage) :
    Linked k w' m' (track k isOpen l) := by
  have hset : l.settles ≠ some k := by
    rw [Lbl.settles]
    split
    next k' hk => exact fun he => hr .done (Option.some.inj he ▸ hk)
    next k' hk => exact fun he => hr .failed (Option.some.inj he ▸ hk)
    next => exact fun he => nomatch he
  have htrack : track k isOpen l = isOpen := by rw [track, if_neg hset, if_neg hu]
  have hs := recordState_of_quiet hm hd hr
  rw [htrack]
  exact ⟨fun ho => hs ▸ h.recorded ho, hs ▸ hv⟩

section Executor

variable {cfg : Settings} {w w' : World} {m : Ghost} {isOpen : Bool} {e : Ev}

/-- A visit of the node itself. -/
theorem Linked.visit_step {f : JobFrame} {view : PoolView} {visited todo : List String} {addr : String}
    (h : Linked k w m isOpen) (hpos : m.pos = .pool f (.member view visited addr todo stage))
    (hcoh : m.pos.Coherent) (hu : Undisturbed (.act .rollouts e))
    (hop : cfg.rollouts.issues m.pos = some e.op) (hw : w.handles e w')
    (hk : ckey view.cluster addr = k) :
    (Lbl.disrupts (.act .rollouts e) = some k → isOpen = false) ∧
      Linked k w' { m with pos := cfg.rollouts.next m.pos e }
        (track k isOpen (.act .rollouts e)) := by
  have hstage : StageOk isOpen (w.store.recordState k) stage := by
    have hv := h.visit
    rw [hpos] at hv
    exact hv hk
  have hvisit := hpos ▸ hcoh
  have hissues := hpos ▸ hop
  -- what the label shows is what the stage does
  obtain ⟨hdis, hup⟩ := downs_at_stage hvisit hissues
  have hrec := recorded_at_stage hissues hu.1
  rw [hk] at hdis hup hrec
  have hstate : w'.store.recordState k = stage.stateAfter (w.store.recordState k) := by
    rw [recordState_at_stage hissues hw hu.1 k, if_pos hk]
  have htrack : track k isOpen (.act .rollouts e) = openAfter stage isOpen := by
    rw [track, Lbl.settles, hrec, hup]
    cases stage <;> simp [openAfter, Stage.marks, Stage.upgrades]
  rw [htrack]
  refine ⟨fun hd => ?_, ?_, ?_⟩
  · refine hstage.closed ?_
    rw [hdis] at hd
    cases stage <;> simp_all [Stage.disrupts, Stage.preparing, Stage.sending]
  · intro ho
    rw [hstate]
    exact hstage.inFlight h.recorded ho
  · rw [hstate]
    refine next_atMember hop (fun _ _ _ => .of_other rfl rfl) ?_
    intro f' view' visited' addr' todo' st st' hpos' hmove _
    cases hpos.symm.trans hpos'
    refine hstage.next h.recorded ?_ hmove
    rintro rep rfl
    rw [← hk]
    exact read_record hw

/-- A step of the executor. -/
theorem Linked.exec (h : Linked k w m isOpen) (hcoh : m.pos.Coherent)
    (hu : Undisturbed (.act .rollouts e)) (hop : cfg.rollouts.issues m.pos = some e.op)
    (hw : w.handles e w') :
    (Lbl.disrupts (.act .rollouts e) = some k → isOpen = false) ∧
      Linked k w' { m with pos := cfg.rollouts.next m.pos e }
        (track k isOpen (.act .rollouts e)) := by
  rcases visit_or_elsewhere k hcoh hop hu.1 with
    ⟨f, view, visited, addr, todo, stage, hpos, hk⟩ | helse
  · exact h.visit_step hpos hcoh hu hop hw hk
  · have hmoves : Supervision.Moves (controlPlane cfg) w (.act .rollouts e) w' := hw
    exact ⟨fun hd => absurd hd helse.disrupts, h.of_quiet hmoves hu.2 helse.upgrades helse.recorded
      (helse.next_atMember hop fun _ _ => .of_other rfl rfl)⟩

end Executor

/-- The other processes write no machine records and are not the executor. -/
theorem Linked.other (cfg : Settings) {w w' : World} {m : Ghost} {isOpen : Bool} {i : Who}
    {t : Task} {e : Ev} (h : Linked k w m isOpen) (hi : i ≠ .rollouts)
    (hd : Lbl.deletesCluster (.act i e) = false) (hal : Discipline.any.Allows t e.op)
    (hw : w.handles e w') :
    (Lbl.disrupts (.act i e) = some k → isOpen = false) ∧
      Linked k w' m (track k isOpen (.act i e)) := by
  have hmoves : Supervision.Moves (controlPlane cfg) w (.act i e) w' := hw
  refine ⟨fun hdis => ?_, h.of_quiet hmoves hd ?_ ?_ h.visit⟩
  · rw [Lbl.disrupts_other hi] at hdis
    cases hdis
  · rw [Lbl.upgrades_other hi]
    exact fun he => nomatch he
  · rw [Lbl.recorded_other hal]
    exact fun s he => nomatch he

/-! ## Runs -/

theorem track_of_upgrades {l : Lbl} (hu : l.upgrades = some k) :
    track k isOpen l = true := by
  have hset : l.settles = none := by
    unfold Lbl.upgrades at hu
    split at hu
    · rfl
    · cases hu
  rw [track, hset, hu]
  simp

/-- A call stays open until it is settled. -/
theorem track_stays_open {ls : List Lbl} (h : ∀ l ∈ ls, l.settles ≠ some k) :
    ls.foldl (track k) true = true := by
  induction ls with
  | nil => rfl
  | cons l ls ih =>
    have hl : track k true l = true := by
      rw [track, if_neg (h l List.mem_cons_self)]
      exact ite_self true
    rw [List.foldl_cons, hl]
    exact ih fun x hx => h x (List.mem_cons_of_mem l hx)

/-- Other tools upgrade no nodes. -/
theorem isOpenAfter_foreign {pre : List Lbl} (h : ∀ l ∈ pre, l.foreign = true) :
    isOpenAfter k pre = false :=
  foldl_foreign (fun _ _ _ => by simp [track, Lbl.upgrades]) h

theorem linked_foreign {pre : List Lbl} (h : ∀ l ∈ pre, l.foreign = true) :
    Linked k ⟨storeAt pre⟩ Ghost.initial (isOpenAfter k pre) := by
  refine ⟨fun ho => ?_, trivial⟩
  rw [isOpenAfter_foreign h] at ho
  cases ho

/-- The link is an invariant of undisturbed runs. -/
theorem linked_invariant (cfg : Settings) (k : String) :
    RunInvariant cfg .any (fun _ => Undisturbed)
      (fun ls l => l.disrupts = some k → isOpenAfter k ls = false)
      (fun w m ls => Linked k w m (isOpenAfter k ls)) where
  initial := ⟨fun ho => (nomatch ho), trivial⟩
  start {w m ls i t} _ h _ := by
    refine ⟨fun hd => (nomatch hd), ?_⟩
    rw [isOpenAfter_snoc]
    refine ⟨h.recorded, ?_⟩
    show (if i = Who.rollouts then ExecPos.clusters else m.pos).AtMember _
    split
    · trivial
    · exact h.visit
  crash h _ := by
    refine ⟨fun hd => (nomatch hd), ?_⟩
    rw [isOpenAfter_snoc]
    exact ⟨h.recorded, trivial⟩
  exec h _ ht hu hop hw := by
    rw [isOpenAfter_snoc]
    exact h.exec ht.coherent hu hop hw
  other hi h _ _ hu _ hal hw := by
    rw [isOpenAfter_snoc]
    exact h.other cfg hi hu.2 hal hw

end Upgrade

/-- In every run, on a store with any records, in which record writes succeed and no cluster is deleted:
between an upgrade call
for a node and a later snapshot, drain or upgrade call for it, a record has settled the first. -/
theorem upgrade_settled_before_next_disruption {cfg : Settings} {ls : List Lbl} {c : State}
    {i j : Nat} {k : String} (h : Stocked cfg ls c) (hwrites : ∀ l ∈ ls, l.recordFails = false)
    (hdelete : ∀ l ∈ ls, l.deletesCluster = false) (hij : i < j)
    (hu : ls[i]?.bind Lbl.upgrades = some k) (hd : ls[j]?.bind Lbl.disrupts = some k) :
    ∃ n, i < n ∧ n < j ∧ ls[n]?.bind Lbl.settles = some k := by
  obtain ⟨u, hi, hu⟩ := Option.bind_eq_some_iff.1 hu
  obtain ⟨d, hj, hd⟩ := Option.bind_eq_some_iff.1 hd
  have hund : Throughout (fun _ => Upgrade.Undisturbed) ls := fun n l hn =>
    ⟨hwrites l (List.mem_of_getElem? hn), hdelete l (List.mem_of_getElem? hn)⟩
  have hclosed := ((Upgrade.linked_invariant cfg k).stocked (fun _ hf => Upgrade.linked_foreign hf)
    (fun pre _ hf _ _ => Upgrade.isOpenAfter_foreign hf) h hund).1 j d hj hd
  by_contra hno
  -- otherwise the call at `i` is still open at `j`
  have hopen : Upgrade.isOpenAfter k (ls.take j) = true := by
    rw [Upgrade.isOpenAfter, foldl_take_of_lt hij hi, Upgrade.track_of_upgrades hu]
    refine Upgrade.track_stays_open fun l hl hs => hno ?_
    obtain ⟨n, hin, hnj, hn⟩ := getElem?_of_mem_between hl
    exact ⟨n, hin, hnj, Option.bind_eq_some_iff.2 ⟨l, hn, hs⟩⟩
  rw [hopen] at hclosed
  cases hclosed

/-- The server crashes right after the upgrade call, resumes, and gets a second order. -/
def Script.crashAfterUpgrade : List Move :=
  armed ++ order ++ pass 13 (.working "v1.7.0" [node]) ++ [.crash] ++
    pass 40 (.working "v1.7.0" [node]) ++ order ++ pass 40 (.working "v1.7.0" [node])

set_option maxRecDepth 100000 in
theorem crashAfterUpgrade_settled : ∃ n, 34 < n ∧ n < 69 ∧
    (runScript Script.settings Script.crashAfterUpgrade State.initial).1[n]?.bind Lbl.settles =
      some (ckey "c" "10.0.0.1") :=
  upgrade_settled_before_next_disruption
    (reaches_script Script.settings Script.crashAfterUpgrade).stocked (by decide +kernel)
    (by decide +kernel) (by decide) (by decide +kernel) (by decide +kernel)

end Medea
