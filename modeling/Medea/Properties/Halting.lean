import Medea.ControlPlane.Jobs
import Medea.Properties.Blocks
import Medea.Properties.Shutdown

/-!
# Halting on failure

A pass over a pool takes the members one after the other, and the first failure ends it. What one
execution of a job does is in `Medea.Properties.Blocks`; here are the runs after it. Once the
executor has recorded a job as failed, it makes no call for the job any more: later listings show the
record as failed, and the pass in which it failed holds no second copy of it. That ends when somebody
else writes a job for the same cluster and pool, and only a request to create one does that, or a
record written by hand.

`rollout_halts` puts the three parts together.
-/

set_option autoImplicit false

namespace Medea

open Medea.Interaction Shutdown

/-- The cluster and the pool a job is for. There is at most one record for them. -/
def Rollout.order (job : Rollout) : String × String := (job.cluster, job.pool)

theorem Rollout.key_of_order {job job' : Rollout} (h : job.order = job'.order) :
    job.key = job'.key := by
  have hc : job.cluster = job'.cluster := congrArg Prod.fst h
  have hp : job.pool = job'.pool := congrArg Prod.snd h
  rw [Rollout.key, Rollout.key, hc, hp]

namespace Lbl

/-- The executor records the job of the order as failed. -/
def failsJob (k : String × String) (l : Lbl) : Bool :=
  match l.jobWrite with
  | some (.rollouts, job) => job.order == k && job.state == .failed
  | _ => false

/-- Another process writes a job for the same cluster and pool. -/
def reorders (k : String × String) (l : Lbl) : Bool :=
  match l.jobWrite with
  | some (i, job) => i != .rollouts && job.order == k
  | none => false

/-- The cluster and pool of the job for which the executor builds clients or makes a call. -/
def callsFor : Lbl → Option (String × String)
  | .act .rollouts ⟨.connect _ (.rollout job), _⟩ => some job.order
  | .act .rollouts ⟨.connectK8s _ (.rollout job), _⟩ => some job.order
  | .act .rollouts ⟨.talos ⟨_, .rollout job⟩ _, _⟩ => some job.order
  | .act .rollouts ⟨.kube ⟨_, .rollout job⟩ _ _, _⟩ => some job.order
  | .act .rollouts ⟨.upgradeK8s ⟨_, .rollout job⟩ _ _, _⟩ => some job.order
  | _ => none

theorem callsFor_other {i : Who} {e : Ev} (hi : i ≠ .rollouts) : callsFor (.act i e) = none := by
  cases i <;> first | rfl | exact absurd rfl hi

end Lbl

namespace Halting

/-! ## Failed jobs -/

/-- Failed jobs rest until they are ordered again. -/
def rests (k : String × String) (resting : Bool) (l : Lbl) : Bool :=
  if l.failsJob k then true else if l.reorders k then false else resting

/-- The job was recorded as failed and has not been ordered since. -/
def resting (k : String × String) (ls : List Lbl) : Bool := ls.foldl (rests k) false

variable {k : String × String} {ls : List Lbl} {l : Lbl}

theorem resting_snoc : resting k (ls ++ [l]) = rests k (resting k ls) l := by
  rw [resting, List.foldl_append]
  rfl

theorem rests_of_none {b : Bool} (h : l.jobWrite = none) : rests k b l = b := by
  simp [rests, Lbl.failsJob, Lbl.reorders, h]

theorem resting_of_none (h : l.jobWrite = none) : resting k (ls ++ [l]) = resting k ls := by
  rw [resting_snoc, rests_of_none h]

/-- A job rests until it is ordered. -/
theorem rests_until_ordered {ls : List Lbl} (h : ∀ l ∈ ls, l.reorders k = false) :
    ls.foldl (rests k) true = true := by
  induction ls with
  | nil => rfl
  | cons l ls ih =>
    have hl : rests k true l = true := by simp [rests, h l List.mem_cons_self]
    rw [List.foldl_cons, hl]
    exact ih fun l' hl' => h l' (List.mem_cons_of_mem l hl')

/-! ## The invariant -/

/-- A resting job is neither stored nor held as one to run. -/
structure Kept (k : String × String) (w : World) (m : Ghost) (ls : List Lbl) : Prop where
  stored : resting k ls = true → ∀ job, w.store.job job.key = some job →
    job.order = k → actionable job.state = false
  held : resting k ls = true → ∀ job ∈ m.pos.jobsHeld, actionable job.state = true → job.order ≠ k
  nodup : (m.pos.jobsHeld.map Rollout.key).Nodup

/-- What is shown of every label: no call for a resting job, and every other writer of a job has been
ordered to write it. -/
def Fine (k : String × String) (past : List Lbl) (l : Lbl) : Prop :=
  (resting k past = true → l.callsFor ≠ some k) ∧
    ∀ i job, l.jobWrite = some (i, job) → i ≠ .rollouts →
      ∃ t, tasksAfter past i = some t ∧ t.orders job

/-- A call for a job is made while the job is in hand. -/
theorem held_of_callsFor {x : RolloutExecutor} {pos : ExecPos} {e : Ev} (hcoh : pos.Coherent)
    (hop : x.issues pos = some e.op) (h : Lbl.callsFor (.act .rollouts e) = some k) :
    ∃ job ∈ pos.jobsHeld, actionable job.state = true ∧ job.order = k := by
  obtain ⟨client, hc, job, hjob, rfl⟩ : ∃ client, e.op.client = some client ∧
      ∃ job, client.work = .rollout job ∧ job.order = k := by
    unfold Lbl.callsFor at h
    split at h <;> first | (rename_i heq; cases heq; cases h; exact ⟨_, rfl, _, rfl, rfl⟩) | cases h
  obtain ⟨f, rfl, hcalls⟩ := RolloutExecutor.calls_of_issues hop hc
  cases hjob
  generalize e.op = op at hcalls
  cases hcalls with
  | connect => exact ⟨f.job, List.mem_cons_self, hcoh.actionable, rfl⟩
  | _ => exact ⟨f.job, List.mem_cons_self, hcoh.1.actionable, rfl⟩

section Steps

variable {cfg : Settings} {w w' : World} {m : Ghost} {e : Ev}

/-- Jobs that nobody writes stay as they are or go. -/
theorem Kept.stored_of_unwritten (h : Kept k w m ls) (hrest : resting k ls = true)
    (hjobs : ∀ key, w'.store.job key = none ∨ w'.store.job key = w.store.job key) (job : Rollout)
    (hget : w'.store.job job.key = some job) (hk : job.order = k) :
    actionable job.state = false := by
  rcases hjobs job.key with hgone | hsame
  · rw [hgone] at hget
    cases hget
  · exact h.stored hrest job (hsame ▸ hget) hk

/-- A job written for another order changes nothing for this one. -/
theorem Kept.stored_of_other (h : Kept k w m ls) (hrest : resting k ls = true) {written : Rollout}
    {rev : Nat} (hjobs : ∀ key, w'.store.job key =
      if written.key = key then some { written with revision := rev } else w.store.job key)
    (hother : written.order ≠ k) (job : Rollout) (hget : w'.store.job job.key = some job)
    (hk : job.order = k) : actionable job.state = false := by
  rw [hjobs] at hget
  split at hget
  · cases hget
    exact absurd hk hother
  · exact h.stored hrest job hget hk

/-- After a step of the executor the copies it holds are still distinct, and none of them is a resting
job to run. -/
theorem Kept.held_next (h : Kept k w m ls) (hkeyed : w.store.WellKeyed)
    (hop : cfg.rollouts.issues m.pos = some e.op) (hw : w.handles e w') :
    (resting k ls = true → ∀ job ∈ (cfg.rollouts.next m.pos e).jobsHeld,
        actionable job.state = true → job.order ≠ k) ∧
      ((cfg.rollouts.next m.pos e).jobsHeld.map Rollout.key).Nodup := by
  rcases RolloutExecutor.jobsHeld_next hop with hsuf | ⟨c, jobs, rfl, hsuf⟩
  · refine ⟨?_, h.nodup.sublist (hsuf.sublist.map _)⟩
    intro hrest job hjob
    exact h.held hrest job (hsuf.subset hjob)
  · refine ⟨?_, (keys_of_listed hkeyed hw).sublist (hsuf.sublist.map _)⟩
    -- a listed job is the stored one, and that is not to run
    intro hrest job hjob hact hk
    have hget := job_of_listed hkeyed hw (hsuf.subset hjob)
    rw [h.stored hrest job hget hk] at hact
    cases hact

/-- The executor records the job in hand as failed. -/
theorem Kept.exec_failed {f : JobFrame} {msg : String} {rev : Nat} (h : Kept k w m ls)
    (hpos : m.pos.jobsHeld = f.job :: f.jobs) (hk : f.job.order = k)
    (hjobs : ∀ key, w'.store.job key = if f.job.key = key then
      some { f.job with state := .failed, message := msg, revision := rev } else w.store.job key)
    {m' : Ghost} (hbehind : m'.pos.jobsHeld <:+ f.jobs) :
    Kept k w' m' (ls ++ [l]) := by
  have hnd := h.nodup
  rw [hpos, List.map_cons, List.nodup_cons] at hnd
  refine ⟨?_, ?_, hnd.2.sublist (hbehind.sublist.map _)⟩
  · intro _ job hget hjob
    rw [hjobs, if_pos (Rollout.key_of_order (hk.trans hjob.symm))] at hget
    cases hget
    rfl
  · -- the pass holds no second copy of the job
    intro _ job hjob _ hjk
    refine hnd.1 ?_
    rw [Rollout.key_of_order (hk.trans hjk.symm)]
    exact List.mem_map_of_mem (hbehind.subset hjob)

theorem Kept.exec (h : Kept k w m ls) (hkeyed : w.store.WellKeyed) (hcoh : m.pos.Coherent)
    (hop : cfg.rollouts.issues m.pos = some e.op) (hw : w.handles e w') :
    Kept k w' { m with pos := cfg.rollouts.next m.pos e } (ls ++ [.act .rollouts e]) := by
  obtain ⟨hheld, hnodup⟩ := h.held_next hkeyed hop hw
  rcases job_moves .rollouts hw with ⟨job, rev, hwrite, hjobs⟩ | ⟨hnone, hjobs⟩
  swap
  · have hsame : resting k (ls ++ [.act .rollouts e]) = resting k ls := resting_of_none hnone
    exact ⟨fun hrest => h.stored_of_unwritten (hsame ▸ hrest) hjobs,
      fun hrest => hheld (hsame ▸ hrest), hnodup⟩
  obtain ⟨f, state, msg, hpos, hactive, rfl, hnext⟩ :=
    RolloutExecutor.jobWrite_of_issues hcoh hop hwrite
  have hmine : Rollout.order { f.job with state := state, message := msg } = f.job.order := rfl
  by_cases hk : f.job.order = k
  swap
  · have hsame : resting k (ls ++ [.act .rollouts e]) = resting k ls := by
      rw [resting_snoc, rests, Lbl.failsJob, Lbl.reorders, hwrite]
      simp [hmine, hk]
    exact ⟨fun hrest => h.stored_of_other (hsame ▸ hrest) hjobs hk,
      fun hrest => hheld (hsame ▸ hrest), hnodup⟩
  by_cases hfailed : state = .failed
  · subst hfailed
    rcases hnext with ⟨hrun, -⟩ | ⟨-, hbehind⟩
    · cases hrun
    · exact h.exec_failed hpos hk hjobs hbehind
  · -- the job in hand does not rest before this write, and so not after it
    have hfree : resting k ls ≠ true := by
      intro hrest
      refine h.held hrest f.job ?_ hactive.actionable hk
      rw [hpos]
      exact List.mem_cons_self
    have hstill : resting k (ls ++ [.act .rollouts e]) ≠ true := by
      rw [resting_snoc, rests, Lbl.failsJob, Lbl.reorders, hwrite]
      simpa [hfailed] using hfree
    exact ⟨fun hrest => absurd hrest hstill, fun hrest => absurd hrest hstill, hnodup⟩

theorem Kept.other {i : Who} (hi : i ≠ .rollouts) (h : Kept k w m ls) (hw : w.handles e w') :
    Kept k w' m (ls ++ [.act i e]) := by
  rcases job_moves i hw with ⟨job, rev, hwrite, hjobs⟩ | ⟨hnone, hjobs⟩
  swap
  · have hsame : resting k (ls ++ [.act i e]) = resting k ls := resting_of_none hnone
    exact ⟨fun hrest => h.stored_of_unwritten (hsame ▸ hrest) hjobs,
      fun hrest => h.held (hsame ▸ hrest), h.nodup⟩
  have hrests : rests k (resting k ls) (.act i e) =
      if job.order = k then false else resting k ls := by
    rw [rests, Lbl.failsJob, Lbl.reorders, hwrite]
    cases i <;> first | exact absurd rfl hi | simp
  by_cases hk : job.order = k
  · have hfree : resting k (ls ++ [.act i e]) ≠ true := by
      rw [resting_snoc, hrests, if_pos hk]
      exact Bool.false_ne_true
    exact ⟨fun hrest => absurd hrest hfree, fun hrest => absurd hrest hfree, h.nodup⟩
  · have hsame : resting k (ls ++ [.act i e]) = resting k ls := by
      rw [resting_snoc, hrests, if_neg hk]
    exact ⟨fun hrest => h.stored_of_other (hsame ▸ hrest) hjobs hk,
      fun hrest => h.held (hsame ▸ hrest), h.nodup⟩

/-- A place at which no job is held. -/
theorem Kept.of_empty {m' : Ghost} (h : Kept k w m ls) (hl : l.jobWrite = none)
    (hs : w'.store.job = w.store.job) (hm : m'.pos.jobsHeld = []) :
    Kept k w' m' (ls ++ [l]) := by
  refine ⟨?_, ?_, ?_⟩
  · rw [resting_of_none hl, hs]
    exact h.stored
  · intro _ job hjob
    rw [hm] at hjob
    cases hjob
  · rw [hm]
    exact List.nodup_nil

end Steps

/-- A writer of jobs other than the executor has been ordered to write this one. -/
theorem orders_of_jobWrite {cfg : Settings} {m : Ghost} {i : Who} {t : Task} {e : Ev}
    (ht : Tracked cfg m ls) (htask : m.task i = some t) (hal : Discipline.any.Allows t e.op)
    {i' : Who} {job : Rollout} (hw : Lbl.jobWrite (.act i e) = some (i', job)) :
    ∃ t, tasksAfter ls i' = some t ∧ t.orders job := by
  obtain ⟨rfl, rep, rfl⟩ := Lbl.eq_of_jobWrite hw
  exact ⟨t, by rw [← ht.tasks, htask], hal.writes.2.1⟩

theorem kept_invariant (cfg : Settings) (k : String × String) :
    RunInvariant cfg .any (fun _ _ => True) (Fine k) (Kept k) where
  initial := ⟨fun h => (nomatch h), fun h => (nomatch h), List.nodup_nil⟩
  start {w m ls i t} _ h _ := by
    refine ⟨⟨fun _ hc => (nomatch hc), fun i job hc => (nomatch hc)⟩, ?_⟩
    by_cases hi : i = .rollouts
    · subst hi
      exact h.of_empty rfl rfl rfl
    · have hpos : (Settings.mark m (.start i t)).pos = m.pos := if_neg hi
      have hrest : resting k (ls ++ [.start i t]) = resting k ls := resting_of_none rfl
      refine ⟨?_, ?_, ?_⟩
      · rw [hrest]
        exact h.stored
      · rw [hrest, hpos]
        exact h.held
      · rw [hpos]
        exact h.nodup
  crash h _ := ⟨⟨fun _ hc => (nomatch hc), fun i job hc => (nomatch hc)⟩, h.of_empty rfl rfl rfl⟩
  exec {w m ls e w'} h hstore ht _ hop hw := by
    refine ⟨⟨?_, ?_⟩, h.exec hstore.keyed ht.coherent hop hw⟩
    · intro hrest hcall
      obtain ⟨job, hjob, hact, hkey⟩ := held_of_callsFor ht.coherent hop hcall
      exact h.held hrest job hjob hact hkey
    · intro i job hwrite hi
      exact absurd (Lbl.eq_of_jobWrite hwrite).1 hi
  other {w m ls i t e w'} hi h _ ht _ htask hal hw := by
    refine ⟨⟨?_, ?_⟩, h.other hi hw⟩
    · rw [Lbl.callsFor_other hi]
      exact fun _ hc => nomatch hc
    · intro i' job hwrite _
      exact orders_of_jobWrite ht htask hal hwrite

/-! ## Orders -/

/-- Between the failure of a job and a later call for it, it is ordered again. -/
theorem ordered_between {cfg : Settings} {c : State} (hr : Reaches cfg ls c) {p n : Nat}
    {failed l : Lbl} (hp : ls[p]? = some failed) (hfailed : failed.failsJob k = true) (hpn : p < n)
    (hn : ls[n]? = some l) (hcall : l.callsFor = some k) :
    ∃ q i job t, p < q ∧ q < n ∧ ls[q]?.bind Lbl.jobWrite = some (i, job) ∧ job.order = k ∧
      tasksAfter (ls.take q) i = some t ∧ t.orders job := by
  have hfine := ((kept_invariant cfg k).along hr fun _ _ _ => trivial).1
  by_contra hno
  refine (hfine n l hn).1 ?_ hcall
  rw [resting, foldl_take_of_lt hpn hp, rests, if_pos hfailed]
  refine rests_until_ordered ?_
  intro l' hl'
  obtain ⟨q, hpq, hqn, hq⟩ := getElem?_of_mem_between hl'
  by_contra hre
  rw [Bool.not_eq_false, Lbl.reorders] at hre
  split at hre
  case h_2 => cases hre
  case h_1 i job hw =>
      obtain ⟨hi, hk⟩ : i ≠ .rollouts ∧ job.order = k := by simpa using hre
      obtain ⟨t, ht, ho⟩ := (hfine q l' hq).2 i job hw hi
      exact hno ⟨q, i, job, t, hpq, hqn, Option.bind_eq_some_iff.2 ⟨l', hq, hw⟩, hk, ht, ho⟩

end Halting

/-- One node at a time, and a stop at the first failure. The calls of a job come in blocks, one for
each member in address order; a call for a member that fails is the last call, and the failure is
recorded; and once a failure is recorded no call is made for the job until it is ordered again. -/
theorem rollout_halts (cfg : Settings) :
    (∀ {cl : Cluster} {job : Rollout} {t : Trace medeaSig} {q : Prog Unit}, job.kind = .talos →
      actionable job.state = true → (cfg.rollouts.runJob cl job).Steps t q →
      ∃ blocks, InBlocks t (poolRead t) blocks) ∧
    (∀ {cl : Cluster} {job : Rollout} {t₁ t₂ : Trace medeaSig} {e : Ev}, job.kind = .talos →
      actionable job.state = true →
      (cfg.rollouts.runJob cl job).Steps (t₁ ++ e :: t₂) (.done ()) → failsMember t₁ e = true →
      ∃ addr, memberOf t₁ = some addr ∧ Halts cl job addr t₂) ∧
    ∀ {ls : List Lbl} {c : State}, Reaches cfg ls c → ∀ {p n : Nat} {l : Lbl} {job : Rollout},
      ls[p]?.bind Lbl.jobWrite = some (.rollouts, job) → job.state = .failed → p < n →
      ls[n]? = some l → l.callsFor = some job.order →
      ∃ q i job' t, p < q ∧ q < n ∧ ls[q]?.bind Lbl.jobWrite = some (i, job') ∧
        job'.order = job.order ∧ tasksAfter (ls.take q) i = some t ∧ t.orders job' := by
  refine ⟨fun hk hact h => runJob_inBlocks hk hact h,
    fun hk hact h hfail => runJob_halts hk hact h hfail, ?_⟩
  intro ls c hr p n l job hp hfailed hpn hn hcall
  obtain ⟨failed, hget, hw⟩ := Option.bind_eq_some_iff.1 hp
  refine Halting.ordered_between hr hget ?_ hpn hn hcall
  rw [Lbl.failsJob, hw]
  simp [hfailed]

/-- Every call succeeds but the drain. -/
def Halting.refusing : Oracle
  | .kube _ _ (.drain _ _) => .error "eviction blocked"
  | op => Shutdown.serving "v1.7.0" op

/-- A job on one member, executed to its end with the first `n` answers given. -/
def Halting.refused (n : Nat) : Trace medeaSig × Prog Unit :=
  (Script.settings.rollouts.runJob Shutdown.cluster Shutdown.job).replay Halting.refusing n

/-- The job of an order fails with the drain; it is ordered again and executed again. -/
def Script.refusedDrain : List Move :=
  armed ++ order ++ pass 30 Halting.refusing ++ order ++ pass 30 Halting.refusing

set_option maxRecDepth 100000 in
/-- The drain is the last call of the job that it fails, and the next call comes after the second
order. -/
theorem refusedDrain_halts :
    (∃ blocks, InBlocks (Halting.refused 10).1 (poolRead (Halting.refused 10).1) blocks) ∧
    (∃ addr, memberOf (Halting.refused 7).1 = some addr ∧
      Halts Shutdown.cluster Shutdown.job addr ((Halting.refused 10).1.drop 8)) ∧
    ∃ q i job t, 33 < q ∧ q < 46 ∧
      (runScript Script.settings Script.refusedDrain State.initial).1[q]?.bind Lbl.jobWrite =
        some (i, job) ∧ job.order = ("c", "controlplane") ∧
      tasksAfter ((runScript Script.settings Script.refusedDrain State.initial).1.take q) i =
        some t ∧ t.orders job := by
  obtain ⟨hblocks, hhalts, hlater⟩ := rollout_halts Script.settings
  have hsteps : (Script.settings.rollouts.runJob cluster job).Steps
      (Halting.refused 10).1 (.done ()) := by
    have hdone : (Halting.refused 10).2 = .done () := rfl
    rw [← hdone]
    exact Program.replay_steps _ 10 (Script.settings.rollouts.runJob cluster job)
  refine ⟨hblocks rfl rfl hsteps, ?_, ?_⟩
  · have hsplit : (Halting.refused 10).1 = (Halting.refused 7).1 ++
        ⟨.kube ⟨"c", .rollout job⟩ "10.0.0.1" (.drain "n1" pool.drainTimeout),
          .error "eviction blocked"⟩ ::
          (Halting.refused 10).1.drop 8 := rfl
    rw [hsplit] at hsteps
    exact hhalts rfl rfl hsteps rfl
  · have hwrite : ((runScript Script.settings Script.refusedDrain State.initial).1[33]?.bind
        Lbl.jobWrite).map (fun w => (w.1, w.2.order, w.2.state)) =
          some (.rollouts, ("c", "controlplane"), .failed) := by decide +kernel
    obtain ⟨⟨i, job⟩, hget, hjob⟩ := Option.map_eq_some_iff.1 hwrite
    obtain ⟨rfl, horder, hfailed⟩ : i = .rollouts ∧ job.order = ("c", "controlplane") ∧
      job.state = .failed := by simpa using hjob
    have hcall : (runScript Script.settings Script.refusedDrain State.initial).1[46]?.bind
        Lbl.callsFor = some ("c", "controlplane") := by decide +kernel
    obtain ⟨l, hl, hcall⟩ := Option.bind_eq_some_iff.1 hcall
    rw [← horder] at hcall ⊢
    exact hlater (reaches_script _ _) hget hfailed (by decide) hl hcall

end Medea
