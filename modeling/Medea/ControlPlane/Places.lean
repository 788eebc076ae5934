import Medea.ControlPlane.PassLog
import Medea.ControlPlane.History

/-!
# Places along a run

`Settings.place` is the place of the executor after a run. In a run that is `Driven` the executor does
what its program asks for at that place, whatever it is answered: its steps are made from coherent
places whose log is that of the run (`Driven.steps`). `Driven.places` is the rule for properties of the
places along such a run: idle and just started executors have the property, a step of the executor keeps
it, and so does everything else that happens. Unlike `RunInvariant` it speaks of positions in the run, so
that the store at a position, and what was committed before it, can be used.
-/

set_option autoImplicit false

namespace Medea

open Medea.Interaction

variable {cfg : Settings} {ls : List Lbl} {c : State} {n : Nat} {l : Lbl}

theorem take_succ_eq (hn : ls[n]? = some l) :
    ls.take (n + 1) = ls.take n ++ [l] := by
  rw [List.take_add_one, hn]
  rfl

/-- The place after the label at a position. -/
theorem place_succ (hn : ls[n]? = some l) :
    cfg.place (ls.take (n + 1)) = cfg.placeNext (cfg.place (ls.take n)) l := by
  rw [take_succ_eq hn, Settings.place, List.foldl_append]
  rfl

theorem place_succ_exec {e : Ev} (hn : ls[n]? = some (.act .rollouts e)) :
    cfg.place (ls.take (n + 1)) = cfg.rollouts.next (cfg.place (ls.take n)) e := by
  rw [place_succ hn, Settings.placeNext, if_pos rfl]

/-- The label belongs to the executor. -/
def Lbl.ofExecutor : Lbl → Bool
  | .start .rollouts _ | .act .rollouts _ | .crash => true
  | _ => false

theorem Lbl.ofExecutor_act {i : Who} {e : Ev} (hi : i ≠ .rollouts) :
    Lbl.ofExecutor (.act i e) = false := by
  cases i with
  | rollouts => exact absurd rfl hi
  | _ => rfl

/-- What a label does to the place of the executor. -/
inductive Settings.PlaceMove (cfg : Settings) (pos : ExecPos) : Lbl → ExecPos → Prop where
  | crash : PlaceMove cfg pos .crash .idle
  | start (t : Task) : PlaceMove cfg pos (.start .rollouts t) .clusters
  | exec (e : Ev) : PlaceMove cfg pos (.act .rollouts e) (cfg.rollouts.next pos e)
  | other {l : Lbl} (hl : l.ofExecutor = false) : PlaceMove cfg pos l pos

theorem Settings.placeNext_moves (cfg : Settings) (pos : ExecPos) (l : Lbl) :
    cfg.PlaceMove pos l (cfg.placeNext pos l) := by
  cases l with
  | crash => exact .crash
  | start i t =>
    cases i with
    | rollouts => exact .start t
    | _ => exact .other rfl
  | act i e =>
    cases i with
    | rollouts => exact .exec e
    | _ => exact .other rfl

theorem place_moves (cfg : Settings) (hn : ls[n]? = some l) :
    cfg.PlaceMove (cfg.place (ls.take n)) l (cfg.place (ls.take (n + 1))) := by
  rw [place_succ hn]
  exact cfg.placeNext_moves _ l

/-- Only its own labels and crashes move the executor. -/
theorem place_succ_other (hn : ls[n]? = some l) (hl : l.ofExecutor = false) :
    cfg.place (ls.take (n + 1)) = cfg.place (ls.take n) := by
  have hmove := place_moves cfg hn
  generalize cfg.place (ls.take (n + 1)) = pos at hmove
  cases hmove with
  | other _ => rfl
  | crash | start t | exec e => cases hl

/-- Rule for properties of the places along the labels of a run, whatever the answers in it. -/
theorem Settings.places (cfg : Settings) {P : Nat → ExecPos → Prop} (idle : ∀ n, P n .idle)
    (clusters : ∀ n, P n .clusters)
    (exec : ∀ n e, ls[n]? = some (.act .rollouts e) → P n (cfg.place (ls.take n)) →
      P (n + 1) (cfg.rollouts.next (cfg.place (ls.take n)) e))
    (other : ∀ n l, ls[n]? = some l → l.ofExecutor = false → P n (cfg.place (ls.take n)) →
      P (n + 1) (cfg.place (ls.take n)))
    (n : Nat) (hn : n ≤ ls.length) : P n (cfg.place (ls.take n)) := by
  induction n with
  | zero => exact idle 0
  | succ n ih =>
    have hget : ls[n]? = some ls[n] := List.getElem?_eq_getElem hn
    have hbefore := ih (Nat.le_of_lt hn)
    have hmove := place_moves cfg hget
    generalize ls[n] = l at hget hmove
    generalize cfg.place (ls.take (n + 1)) = pos at hmove
    cases hmove with
    | crash => exact idle (n + 1)
    | start t => exact clusters (n + 1)
    | exec e => exact exec n e hget hbefore
    | other hl => exact other n l hget hl hbefore

/-- The operations of the executor in the run are those of its program. -/
def Driven (cfg : Settings) (ls : List Lbl) : Prop :=
  ∀ n e, ls[n]? = some (.act .rollouts e) →
    cfg.rollouts.issues (cfg.place (ls.take n)) = some e.op

/-- The place from which the executor makes a step of a run. -/
structure StepsFrom (cfg : Settings) (past : List Lbl) (e : Ev) : Prop where
  coherent : (cfg.place past).Coherent
  issues : cfg.rollouts.issues (cfg.place past) = some e.op
  log : (cfg.place past).InPool (passLog past).Of

theorem PassLog.see_of_other {log : PassLog} (hl : l.ofExecutor = false) :
    log.see l = log := by
  cases l with
  | act i e => exact see_other (by rintro rfl; cases hl)
  | _ => rfl

namespace Driven

/-- The executor is at a coherent place, whose log is that of the run. -/
theorem logged (hd : Driven cfg ls) (n : Nat) (hn : n ≤ ls.length) :
    (cfg.place (ls.take n)).Coherent ∧ (cfg.place (ls.take n)).InPool (passLog (ls.take n)).Of := by
  refine cfg.places (P := fun n pos => pos.Coherent ∧ pos.InPool (passLog (ls.take n)).Of)
    (fun _ => ⟨trivial, trivial⟩) (fun _ => ⟨trivial, trivial⟩) ?_ ?_ n hn
  · rintro n e hget ⟨hcoh, hlog⟩
    have hop := hd n e hget
    refine ⟨RolloutExecutor.next_coherent hcoh hop, ?_⟩
    rw [take_succ_eq hget, passLog_snoc]
    refine RolloutExecutor.next_inPool hop (fun _ => trivial) fun f pos hpos hissues => ?_
    rw [hpos] at hlog
    exact PassLog.of_poolNext hlog hissues
  · rintro n l hget hl ⟨hcoh, hlog⟩
    rw [take_succ_eq hget, passLog_snoc, PassLog.see_of_other hl]
    exact ⟨hcoh, hlog⟩

/-- Every step of the executor is the one of its place. -/
theorem steps (hd : Driven cfg ls) {n : Nat} {e : Ev} (hn : ls[n]? = some (.act .rollouts e)) :
    StepsFrom cfg (ls.take n) e := by
  obtain ⟨hcoh, hlog⟩ := hd.logged n (Nat.le_of_lt (List.getElem?_eq_some_iff.1 hn).1)
  exact ⟨hcoh, hd n e hn, hlog⟩

/-- Rule for properties of the places along a run. -/
theorem places (hd : Driven cfg ls) {P : Nat → ExecPos → Prop} (idle : ∀ n, P n .idle)
    (clusters : ∀ n, P n .clusters)
    (exec : ∀ n e, ls[n]? = some (.act .rollouts e) → StepsFrom cfg (ls.take n) e →
      P n (cfg.place (ls.take n)) → P (n + 1) (cfg.rollouts.next (cfg.place (ls.take n)) e))
    (other : ∀ n l, ls[n]? = some l → l.ofExecutor = false → P n (cfg.place (ls.take n)) →
      P (n + 1) (cfg.place (ls.take n)))
    (n : Nat) (hn : n ≤ ls.length) : P n (cfg.place (ls.take n)) :=
  cfg.places idle clusters (fun n e hget => exec n e hget (hd.steps hget)) other n hn

end Driven

/-! ## What the supervision says of a run -/

theorem allowed_invariant (cfg : Settings) :
    RunInvariant cfg .any (fun _ _ => True)
      (fun past l => ∀ i e, l = .act i e →
        (i = .rollouts → cfg.rollouts.issues (cfg.place past) = some e.op) ∧
          (i ≠ .rollouts → ∀ t, tasksAfter past i = some t → Discipline.any.Allows t e.op))
      (fun _ _ _ => True) where
  initial := trivial
  start _ _ _ := ⟨fun i e he => (nomatch he), trivial⟩
  crash _ _ := ⟨fun i e he => (nomatch he), trivial⟩
  exec _ _ ht _ hop _ := by
    refine ⟨fun i e he => ?_, trivial⟩
    cases he
    exact ⟨fun _ => ht.place ▸ hop, fun hi => absurd rfl hi⟩
  other hi _ _ ht _ htask hal _ := by
    refine ⟨fun i' e' he => ?_, trivial⟩
    cases he
    refine ⟨fun h => absurd h hi, fun _ t ht' => ?_⟩
    rw [← ht.tasks, htask] at ht'
    cases ht'
    exact hal

/-- On a stocked store, too, the executor follows its program. -/
theorem Stocked.driven (h : Stocked cfg ls c) : Driven cfg ls := by
  refine fun n e hn => ((((allowed_invariant cfg).stocked (fun _ _ => trivial) (fun pre l hpre hl => ?_) h
    fun _ _ _ => trivial).1 n _ hn) .rollouts e rfl).1 rfl
  rintro i e rfl
  refine ⟨fun hi => ?_, fun _ t ht => ?_⟩
  · subst hi
    cases hl
  · rw [tasksAfter_foreign hpre] at ht
    cases ht

theorem Reaches.driven (hr : Reaches cfg ls c) : Driven cfg ls := hr.stocked.driven

/-- What another process does in a run is allowed to its task. -/
theorem Reaches.allowed (hr : Reaches cfg ls c) {n : Nat} {i : Who} {e : Ev}
    (hn : ls[n]? = some (.act i e)) (hi : i ≠ .rollouts) :
    ∃ t, tasksAfter (ls.take n) i = some t ∧ Discipline.any.Allows t e.op := by
  obtain ⟨t, ht, -⟩ := hr.task_of_act hn
  have hok := ((allowed_invariant cfg).along hr fun _ _ _ => trivial).1 n _ hn i e rfl
  exact ⟨t, ht, hok.2 hi t ht⟩

end Medea
