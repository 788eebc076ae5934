import Medea.ControlPlane.Places

/-!
# What a finished Talos job says

A job is recorded as done when its pass over the pool returns without an error. The pass does so at
its end, when every member has been visited, but also when the pool is paused and when a member
cannot be started because too many others are unavailable. `hindered` singles out those two exits.

`done_job_converged`: in a run without them a job is recorded as done only if every member of the
pool, as the pass read it, reported the target during the pass and has a record that says done.
-/

set_option autoImplicit false
set_option maxRecDepth 100000

namespace Medea

open Medea.Interaction

/-- The job a pass of the executor records. -/
def Lbl.jobWritten : Lbl → Option Rollout
  | .act .rollouts ⟨.store (.putRolloutJob job), _⟩ => some job
  | _ => none

/-- The exits of a pass that leave members behind without an error: the pool that was read is paused
and has members, or a member is not at the target and over the budget of its pool. -/
def hindered : ExecPos → Lbl → Bool
  | .pool _ .pool, .act .rollouts ⟨.store (.getNodePool _ _), .ok (some np, _)⟩ =>
    np.paused && !np.members.isEmpty
  | .pool _ (.member view _ addr _ .check), .act .rollouts ⟨.talos _ (.version _), .ok cur⟩ =>
    cur ≠ view.target ∧ view.overBudget addr
  | _, _ => false

/-- The member reported the target during the pass, and its record says done. -/
def Converged (w : World) (log : PassLog) (cluster addr : String) : Prop :=
  (addr, log.target) ∈ log.reports ∧ w.store.recordState (ckey cluster addr) = some .done

namespace Convergence

/-- What is known during the visit of a member: those visited before have converged. An address that
the pool lists twice is being visited again. -/
structure VisitOk (w : World) (log : PassLog) (view : PoolView) (visited : List String)
    (addr : String) (stage : Stage) : Prop where
  pool : log.pool = some (view.cluster, view.np)
  target : log.target = view.target
  visited : ∀ a ∈ visited, a ≠ addr → Converged w log view.cluster a
  reported : stage = .uncordon ∨ stage = .markDone → (addr, view.target) ∈ log.reports

/-- What is known at the places of a pass. -/
def PassOk (w : World) (log : PassLog) (f : JobFrame) : PoolPos → Prop
  | .pool => True
  | .cluster np => log.pool = some (f.cl.name, np)
  | .nodes np target => log.pool = some (f.cl.name, np) ∧ log.target = target
  | .member view visited addr _ stage => VisitOk w log view visited addr stage
  | .returned (.ok ()) => ∃ np, log.pool = some (f.cl.name, np) ∧
      ∀ addr ∈ np.members, Converged w log f.cl.name addr
  | .returned (.error _) => True

/-- The runs considered. -/
def Assumed (cfg : Settings) (past : List Lbl) (l : Lbl) : Prop :=
  l.recordFails = false ∧ l.deletesCluster = false ∧ hindered (cfg.place past) l = false

variable {w w' : World} {log log' : PassLog} {f : JobFrame} {view : PoolView}

/-- Convergence of a member outlasts what happens elsewhere. -/
theorem converged_mono {cluster addr : String} (h : Converged w log cluster addr)
    (hl : log.Extends log')
    (hs : w'.store.recordState (ckey cluster addr) = w.store.recordState (ckey cluster addr)) :
    Converged w' log' cluster addr := by
  refine ⟨?_, hs.trans h.2⟩
  rw [hl.target]
  exact hl.reports _ h.1

/-! ## One visit -/

/-- A stage comes to the uncordon call or to the record of a finished member only after the member
has reported the target. -/
theorem reported_next {r : RolloutReconciler} {addr : String} {stage stage' : Stage} {e : Ev}
    (htarget : view.target ≠ "")
    (h : stage = .uncordon ∨ stage = .markDone → (addr, view.target) ∈ log.reports)
    (hmove : RolloutReconciler.StageMove r view addr stage e (.at stage'))
    (hs : stage' = .uncordon ∨ stage' = .markDone) :
    (addr, view.target) ∈ (log.see (.act .rollouts e)).reports := by
  cases hmove with
  | found => exact List.mem_cons_self
  | @healthy left rep hversion =>
    cases rep with
    | error err => exact absurd hversion.symm htarget
    | ok version =>
      obtain rfl : version = view.target := hversion
      exact List.mem_cons_self
  | uncordoned => exact h (Or.inl rfl)
  | _ => rcases hs with hs | hs <;> cases hs

section Visit

variable {cfg : Settings} {f : JobFrame} {view : PoolView} {visited todo : List String}
  {addr : String} {stage : Stage} {e : Ev}

/-- The members visited before keep what they have, unless they are visited again. -/
theorem VisitOk.visited_step (h : VisitOk w log view visited addr stage)
    (hop : cfg.rollouts.issues (.pool f (.member view visited addr todo stage)) = some e.op)
    (hw : w.handles e w') (hok : Lbl.recordFails (.act .rollouts e) = false) {a : String}
    (ha : a ∈ visited) (hne : a ≠ addr) :
    Converged w' (log.see (.act .rollouts e)) view.cluster a := by
  refine converged_mono (h.visited a ha hne) (PassLog.see_at_stage (Option.some.inj hop)) ?_
  rw [RolloutExecutor.recordState_at_stage hop hw hok]
  exact if_neg fun hk => hne (ckey_right hk).symm

/-- From stage to stage. -/
theorem VisitOk.next {stage' : Stage} (h : VisitOk w log view visited addr stage)
    (hv : view.Coherent f)
    (hop : cfg.rollouts.issues (.pool f (.member view visited addr todo stage)) = some e.op)
    (hw : w.handles e w') (hok : Lbl.recordFails (.act .rollouts e) = false)
    (hmove : RolloutReconciler.StageMove (cfg.rollouts.reconcilerOf f) view addr stage e
      (.at stage')) :
    VisitOk w' (log.see (.act .rollouts e)) view visited addr stage' := by
  have hext : log.Extends (log.see (.act .rollouts e)) :=
    PassLog.see_at_stage (Option.some.inj hop)
  exact {
    pool := hext.pool.trans h.pool
    target := hext.target.trans h.target
    visited := fun a ha hne => h.visited_step hop hw hok ha hne
    reported := reported_next hv.target h.reported hmove }

/-- A member whose visit has ended has converged, and so have those before it. -/
theorem VisitOk.leave (h : VisitOk w log view visited addr .markDone)
    (hop : cfg.rollouts.issues (.pool f (.member view visited addr todo .markDone)) = some e.op)
    (hw : w.handles e w') (hok : Lbl.recordFails (.act .rollouts e) = false) {a : String}
    (ha : a ∈ visited ++ [addr]) :
    Converged w' (log.see (.act .rollouts e)) view.cluster a := by
  have hext : log.Extends (log.see (.act .rollouts e)) :=
    PassLog.see_at_stage (Option.some.inj hop)
  by_cases hne : a = addr
  · subst hne
    refine ⟨?_, ?_⟩
    · rw [hext.target, h.target]
      exact hext.reports _ (h.reported (Or.inr rfl))
    · rw [RolloutExecutor.recordState_at_stage hop hw hok, if_pos rfl]
      rfl
  · have hmem : a ∈ visited := by simpa [hne] using ha
    exact h.visited_step hop hw hok hmem hne

end Visit

/-! ## One pass -/

/-- The pass goes on to the next member once all before have converged. -/
theorem record_ok {visited todo : List String} {addr : String}
    (hpool : log.pool = some (view.cluster, view.np)) (htarget : log.target = view.target)
    (hvisited : ∀ a ∈ visited, Converged w log view.cluster a) :
    PassOk w log f (.member view visited addr todo .record) where
  pool := hpool
  target := htarget
  visited a ha _ := hvisited a ha
  reported hs := by rcases hs with hs | hs <;> cases hs

/-- The pass ends well once all members have converged. -/
theorem returned_ok (hv : view.Coherent f) (hpool : log.pool = some (view.cluster, view.np))
    (hvisited : ∀ a ∈ view.members, Converged w log view.cluster a) :
    PassOk w log f (.returned (.ok ())) := by
  refine ⟨view.np, hv.cluster ▸ hpool, fun addr haddr => ?_⟩
  rw [← hv.cluster]
  exact hvisited addr (PoolView.mem_members.2 haddr)

/-- A step of a pass. -/
theorem poolNext_ok {cfg : Settings} {pos : PoolPos} {e : Ev} (h : PassOk w log f pos)
    (hcoh : (ExecPos.pool f pos).Coherent)
    (hop : (cfg.rollouts.reconcilerOf f).poolIssues f.cl.name f.job.pool pos = some e.op)
    (hw : w.handles e w') (hok : Lbl.recordFails (.act .rollouts e) = false)
    (hfree : hindered (.pool f pos) (.act .rollouts e) = false) :
    PassOk w' (log.see (.act .rollouts e)) f
      ((cfg.rollouts.reconcilerOf f).poolNext f.cl.name f.job.pool pos e) := by
  have hissues := RolloutExecutor.issues_pool hop
  have hmove := RolloutReconciler.poolNext_moves hop
  generalize (cfg.rollouts.reconcilerOf f).poolNext f.cl.name f.job.pool pos e = pos' at hmove
  obtain ⟨_, _, hpos⟩ := hcoh
  cases hmove with
  | @paused np rev hp =>
    -- a paused pool is not considered, unless there is nothing to do
    have hnone : np.members = [] := by simpa [hindered, hp] using hfree
    refine ⟨np, rfl, fun addr haddr => ?_⟩
    rw [hnone] at haddr
    cases haddr
  | pinned => exact ⟨rfl, rfl⟩
  | unpinned => exact rfl
  | targeted => exact ⟨h, rfl⟩
  | @nobody np target nodes hm =>
    have hv : PoolView.Coherent ⟨f.cl.name, np, target, nodes⟩ f := ⟨rfl, hpos.1, hpos.2⟩
    refine returned_ok hv h.1 fun a ha => ?_
    rw [PoolView.members, hm] at ha
    cases ha
  | entered => exact record_ok h.1 h.2 fun a ha => nomatch ha
  | inVisit hstep => exact h.next hpos.1 hissues hw hok hstep
  | nextVisit hstep =>
    have hext : log.Extends (log.see (.act .rollouts e)) :=
      PassLog.see_at_stage (Option.some.inj hop)
    cases hstep with
    | finished =>
      refine record_ok (hext.pool.trans h.pool) (hext.target.trans h.target) fun a ha => ?_
      exact h.leave hissues hw hok ha
  | lastVisit hstep =>
    have hext : log.Extends (log.see (.act .rollouts e)) :=
      PassLog.see_at_stage (Option.some.inj hop)
    cases hstep with
    | finished =>
      refine returned_ok hpos.1 (hext.pool.trans h.pool) fun a ha => ?_
      exact h.leave hissues hw hok (hpos.2 ▸ ha)
  | endedVisit hstep =>
    cases hstep with
    | held hne hover =>
      -- the exit over the budget
      exact absurd hfree (by simp [hindered, hne, hover])
    | halted => trivial
  | _ => trivial

/-- What is known of the pass at the place of the executor. -/
def Known (w : World) (m : Ghost) (ls : List Lbl) : Prop :=
  m.pos.InPool (PassOk w (passLog ls))

/-- A step that is not one of the executor, and leaves the records alone. -/
theorem passOk_frame {pos : PoolPos} (h : PassOk w log f pos)
    (hs : ∀ k, w'.store.recordState k = w.store.recordState k) : PassOk w' log f pos := by
  have hsame : ∀ cluster addr, Converged w log cluster addr → Converged w' log cluster addr :=
    fun cluster addr hc => converged_mono hc ⟨rfl, rfl, fun _ => id⟩ (hs _)
  cases pos with
  | member view visited addr todo stage =>
    exact ⟨h.pool, h.target, fun a ha hne => hsame _ _ (h.visited a ha hne), h.reported⟩
  | returned result =>
    rcases result with err | ⟨⟩
    · trivial
    · obtain ⟨np, hpool, hall⟩ := h
      exact ⟨np, hpool, fun addr haddr => hsame _ _ (hall addr haddr)⟩
  | _ => exact h

theorem known_invariant (cfg : Settings) :
    RunInvariant cfg .any (Assumed cfg) (fun _ _ => True) Known where
  initial := trivial
  start {w m ls i t} _ h _ := by
    refine ⟨trivial, ?_⟩
    rw [Known, passLog_snoc]
    show (if i = Who.rollouts then ExecPos.clusters else m.pos).InPool _
    split
    · trivial
    · exact h
  crash _ _ := ⟨trivial, trivial⟩
  exec {w m ls e w'} h _ ht ha hop hw := by
    obtain ⟨hcoh, hplace, _⟩ := ht
    refine ⟨trivial, ?_⟩
    rw [Known, passLog_snoc]
    refine RolloutExecutor.next_inPool hop (fun _ => trivial) fun f pos hpos hissues => ?_
    have hfree := ha.2.2
    rw [← hplace] at hfree
    rw [hpos] at hcoh hfree
    rw [Known, hpos] at h
    exact poolNext_ok h hcoh hissues hw ha.1 hfree
  other {w m ls i t e w'} hi h _ _ ha _ hal hw := by
    have hmoves : Supervision.Moves (controlPlane cfg) w (.act i e) w' := hw
    refine ⟨trivial, ?_⟩
    rw [Known, passLog_snoc, PassLog.see_other hi]
    refine ExecPos.InPool.mono (fun f pos hp => passOk_frame hp fun k => ?_) h
    refine recordState_of_quiet hmoves ha.2.1 ?_
    rw [Lbl.recorded_other hal]
    exact fun s he => nomatch he

/-- A Talos job is recorded as done only from the end of its pass. -/
theorem place_of_done {e : RolloutExecutor} {pos : ExecPos} {job : Rollout}
    (hcoh : pos.Coherent) (hop : e.issues pos = some (.store (.putRolloutJob job)))
    (hkind : job.kind = .talos) (hdone : job.state = .done) :
    ∃ f, pos = .pool f (.returned (.ok ())) := by
  obtain ⟨f, hrec⟩ := RolloutExecutor.records_of_issues hop
  cases hrec with
  | running | runningK8s | rejected => cases hdone
  | concluded result =>
    rcases result with err | ⟨⟩
    · cases hdone
    · exact ⟨f, rfl⟩
  | concludedK8s result =>
    -- this job is of the other kind
    have hk : (RolloutExecutor.outcome f.job result).kind = f.job.kind := by cases result <;> rfl
    rw [hk, hcoh.2] at hkind
    cases hkind

end Convergence

/-- In every run, on a store with any records, in which record writes succeed, no cluster is deleted,
and no pass ends early at a paused pool or over the budget: when a Talos job is recorded as done, every
member of the pool, as the pass read it, reported the target of the pass during the pass and has a
record that says done. -/
theorem done_job_converged {cfg : Settings} {ls : List Lbl} {c : State} {job : Rollout}
    (h : Stocked cfg ls c) (hjob : ls.getLast?.bind Lbl.jobWritten = some job)
    (hkind : job.kind = .talos) (hdone : job.state = .done)
    (hwrites : ∀ l ∈ ls, l.recordFails = false) (hdelete : ∀ l ∈ ls, l.deletesCluster = false)
    (hfree : Throughout (fun past l => hindered (cfg.place past) l = false) ls) :
    ∃ cluster np, (passLog ls).pool = some (cluster, np) ∧
      ∀ addr ∈ np.members, Converged c.world (passLog ls) cluster addr := by
  have hassumed : Throughout (Convergence.Assumed cfg) ls := fun n l hn =>
    ⟨hwrites l (List.mem_of_getElem? hn), hdelete l (List.mem_of_getElem? hn), hfree n l hn⟩
  obtain ⟨l, hlast, hl⟩ := Option.bind_eq_some_iff.1 hjob
  obtain ⟨past, rfl⟩ := List.getLast?_eq_some_iff.1 hlast
  unfold Lbl.jobWritten at hl
  split at hl
  next job' rep =>
    cases hl
    obtain ⟨w, m, hat, hop, hw⟩ := (Convergence.known_invariant cfg).last
      (fun _ _ => trivial) (fun _ _ _ _ => trivial) h hassumed
    obtain ⟨f, hpos⟩ := Convergence.place_of_done hat.coherent hop hkind hdone
    have hknown : Convergence.PassOk w (passLog past) f (.returned (.ok ())) := by
      have hholds := hat.holds
      rw [Convergence.Known, hpos] at hholds
      exact hholds
    -- the job record is written over unchanged machine records
    have hmoves : Supervision.Moves (controlPlane cfg) w
        (.act .rollouts ⟨.store (.putRolloutJob job), rep⟩) c.world := hw
    have hsame : ∀ k, c.world.store.recordState k = w.store.recordState k := fun k =>
      recordState_of_quiet hmoves rfl nofun
    obtain ⟨np, hpool, hall⟩ := Convergence.passOk_frame hknown hsame
    rw [passLog_snoc]
    exact ⟨f.cl.name, np, hpool, hall⟩
  next => cases hl

theorem node_in_time_converged : ∃ cluster np,
    (passLog (runScript Script.settings Script.nodeInTime State.initial).1).pool =
      some (cluster, np) ∧
    ∀ addr ∈ np.members,
      Converged (runScript Script.settings Script.nodeInTime State.initial).2.world
        (passLog (runScript Script.settings Script.nodeInTime State.initial).1) cluster addr :=
  done_job_converged (reaches_script Script.settings Script.nodeInTime).stocked rfl rfl rfl
    (by decide +kernel) (by decide +kernel) (by decide +kernel)

/-- A job is created for a paused pool. -/
def Script.pausedPool : List Move :=
  armed ++ request (.pauseRollout "c" "controlplane") ++ order ++
    pass 40 (.working "v1.7.0" [node])

/-- The job is recorded as done, and the only member has neither reported the target nor a record. -/
theorem paused_pool_recorded_done : ∃ ls c job cluster np addr,
    Reaches Script.settings ls c ∧ (∀ l ∈ ls, l.recordFails = false) ∧
    (∀ l ∈ ls, l.deletesCluster = false) ∧ ls.getLast?.bind Lbl.jobWritten = some job ∧
    job.kind = .talos ∧ job.state = .done ∧ (passLog ls).pool = some (cluster, np) ∧
    addr ∈ np.members ∧ (addr, (passLog ls).target) ∉ (passLog ls).reports ∧
    c.world.store.recordState (ckey cluster addr) = none := by
  refine ⟨_, _, _, _, _, "10.0.0.1", reaches_script Script.settings Script.pausedPool,
    ?_, ?_, rfl, ?_, ?_, rfl, ?_, ?_, ?_⟩
  · decide +kernel
  · decide +kernel
  · decide +kernel
  · decide +kernel
  · decide +kernel
  · decide +kernel
  · decide +kernel

end Medea
