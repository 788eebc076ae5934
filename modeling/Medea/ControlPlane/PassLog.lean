import Medea.ControlPlane.Observations

/-!
# What a pass over a pool has seen

`passLog ls` collects, from the labels of a run, what the pass over a pool that the executor is in
(or was last in) has read and been told: the pool, the target version, the versions its members
reported, and the members of which a snapshot was taken since they were last upgraded.

`PassLog.Of` relates the log to the place of the executor.
-/

set_option autoImplicit false

namespace Medea

open Medea.Interaction

structure PassLog where
  /-- The pool as the pass read it, with the cluster it was read for. -/
  pool : Option (String × NodePool) := none
  target : String := ""
  /-- Addresses and the versions they reported. -/
  reports : List (String × String) := []
  /-- Members with a successful snapshot and no upgrade call since. -/
  snapshots : List String := []

namespace PassLog

/-- The log after one more label. A pass begins with reading its pool. -/
def see (log : PassLog) : Lbl → PassLog
  | .act .rollouts ⟨.store (.getNodePool cluster _), .ok (some np, _)⟩ =>
    { pool := some (cluster, np), target := np.desiredTalosVersion }
  | .act .rollouts ⟨.store (.getCluster _), .ok (some cl, _)⟩ =>
    { log with target := cl.desiredTalosVersion }
  | .act .rollouts ⟨.talos _ (.version addr), .ok version⟩ =>
    { log with reports := (addr, version) :: log.reports }
  | .act .rollouts ⟨.talos _ (.etcdSnapshot addr _), .ok _⟩ =>
    { log with snapshots := addr :: log.snapshots }
  | .act .rollouts ⟨.talos _ (.upgradeOS addr _), _⟩ =>
    { log with snapshots := log.snapshots.filter (· ≠ addr) }
  | _ => log

end PassLog

def passLog (ls : List Lbl) : PassLog := ls.foldl PassLog.see {}

theorem passLog_snoc (ls : List Lbl) (l : Lbl) : passLog (ls ++ [l]) = (passLog ls).see l := by
  rw [passLog, List.foldl_append]
  rfl

namespace PassLog

variable {log : PassLog}

theorem see_other {i : Who} {e : Ev} (hi : i ≠ .rollouts) : log.see (.act i e) = log := by
  cases i <;> first | rfl | exact absurd rfl hi

/-- Inside a visit the pool and the target of the pass stay, and reports are only added. -/
structure Extends (log log' : PassLog) : Prop where
  pool : log'.pool = log.pool
  target : log'.target = log.target
  reports : ∀ p ∈ log.reports, p ∈ log'.reports

theorem see_at_stage {r : RolloutReconciler} {view : PoolView} {addr : String} {stage : Stage}
    {ev : Ev} (hop : r.stageIssues view addr stage = ev.op) :
    log.Extends (log.see (.act .rollouts ev)) := by
  obtain ⟨op, rep⟩ := ev
  cases stage with
  | check | report =>
    cases hop
    cases rep with
    | error err => exact ⟨rfl, rfl, fun _ => id⟩
    | ok version => exact ⟨rfl, rfl, fun _ => List.mem_cons_of_mem _⟩
  | snapshot =>
    cases hop
    cases rep <;> exact ⟨rfl, rfl, fun _ => id⟩
  | _ =>
    cases hop
    exact ⟨rfl, rfl, fun _ => id⟩

end PassLog

/-! ## The log and the place -/

/-- The log is that of the visit, and an image that is about to be installed was derived for the
target. -/
structure PassLog.OfVisit (log : PassLog) (view : PoolView) (stage : Stage) : Prop where
  pool : log.pool = some (view.cluster, view.np)
  target : log.target = view.target
  image : ∀ image, stage = .upgrade image → ∃ cur, image = deriveInstallerImage cur view.target

/-- The log is that of the pass at this place. -/
def PassLog.Of (log : PassLog) (f : JobFrame) : PoolPos → Prop
  | .pool | .returned _ => True
  | .cluster np => log.pool = some (f.cl.name, np)
  | .nodes np target => log.pool = some (f.cl.name, np) ∧ log.target = target
  | .member view _ _ _ stage => log.OfVisit view stage

namespace PassLog

variable {log : PassLog} {f : JobFrame}

/-- From stage to stage. -/
theorem OfVisit.next {r : RolloutReconciler} {view : PoolView} {addr : String}
    {stage stage' : Stage} {e : Ev} (h : log.OfVisit view stage)
    (hop : r.stageIssues view addr stage = e.op)
    (hmove : RolloutReconciler.StageMove r view addr stage e (.at stage')) :
    (log.see (.act .rollouts e)).OfVisit view stage' := by
  have hext : log.Extends (log.see (.act .rollouts e)) := see_at_stage hop
  refine ⟨hext.pool.trans h.pool, hext.target.trans h.target, ?_⟩
  intro image hs
  subst hs
  cases hmove with
  | imageRead => exact ⟨_, rfl⟩

/-- A step of a pass. -/
theorem of_poolNext {r : RolloutReconciler} {pool : String} {pos : PoolPos} {e : Ev}
    (h : log.Of f pos) (hop : r.poolIssues f.cl.name pool pos = some e.op) :
    (log.see (.act .rollouts e)).Of f (r.poolNext f.cl.name pool pos e) := by
  have hmove := RolloutReconciler.poolNext_moves hop
  generalize r.poolNext f.cl.name pool pos e = pos' at hmove
  cases hmove with
  | pinned => exact ⟨rfl, rfl⟩
  | unpinned => exact rfl
  | targeted => exact ⟨h, rfl⟩
  | entered => exact ⟨h.1, h.2, fun image hs => nomatch hs⟩
  | inVisit hstep => exact h.next (Option.some.inj hop) hstep
  | nextVisit =>
    have hext : log.Extends (log.see (.act .rollouts e)) := see_at_stage (Option.some.inj hop)
    exact ⟨hext.pool.trans h.pool, hext.target.trans h.target, fun image hs => nomatch hs⟩
  | _ => trivial

end PassLog

end Medea
