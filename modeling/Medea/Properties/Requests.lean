import Medea.ControlPlane.Jobs
import Medea.ControlPlane.Places

/-!
# Confirmed requests

A job record is written by two parties without any comparison: `CreateRollout` puts a pending record,
and the executor puts back the whole record that it listed at the start of its work, as running, done
or failed. A request that is confirmed while the executor holds an older job for the same pool is
overwritten by the outcome of the older job: `overtaken_overwritten` is such a run.

`request_kept` says that this is the only way to lose a request: if jobs for a pool are ordered only
while the executor holds no actionable job for it, the stored record is the confirmed job, pending or
running, until the executor records its outcome, the job is ordered again, or the cluster is deleted.
-/

set_option autoImplicit false
set_option maxRecDepth 100000

namespace Medea

open Medea.Interaction

/-- The job without what changes in the course of its execution. -/
def Rollout.core (job : Rollout) : Rollout :=
  { job with state := .unspecified, message := "", revision := 0 }

/-- The job that a response returns, and the process that has sent it. -/
def Lbl.returnsJob : Lbl → Option (Who × Rollout)
  | .act i ⟨.respond (.ok (.job (some job))), _⟩ => some (i, job)
  | _ => none

/-- What may end the life of a job record: its own outcome, a later order for the same pool, or the
end of its cluster. -/
inductive Superseded (k : String) (job : Rollout) (past : List Lbl) (l : Lbl) : Prop
  | ended (job' : Rollout) : l.jobWrite = some (.rollouts, job') → job'.key = k →
      job'.core = job.core → job'.state = .done ∨ job'.state = .failed → Superseded k job past l
  | ordered (i : Who) (job' : Rollout) (t : Task) : l.jobWrite = some (i, job') → job'.key = k →
      tasksAfter past i = some t → t.orders job' → Superseded k job past l
  | deleted (cluster : String) : l.removesCluster = some cluster →
      hasPrefix k (cluster ++ "\x00") = true → Superseded k job past l

namespace Requests

variable {cfg : Settings} {ls : List Lbl} {c : State} {k : String}

/-! ## The stored job -/

/-- How the stored job at a key changes with a label. -/
theorem job_succ (k : String) {n : Nat} {l : Lbl} (hr : Reaches cfg ls c) (hn : ls[n]? = some l) :
    (∃ i job rev, l.jobWrite = some (i, job) ∧ job.key = k ∧
      (storeAt (ls.take (n + 1))).job k = some { job with revision := rev }) ∨
    (∃ cluster, l.removesCluster = some cluster ∧ hasPrefix k (cluster ++ "\x00") = true ∧
      (storeAt (ls.take (n + 1))).job k = none) ∨
    (storeAt (ls.take (n + 1))).job k = (storeAt (ls.take n)).job k := by
  rw [storeAt_succ hn]
  cases l with
  | start | crash => exact Or.inr (Or.inr rfl)
  | act i e =>
    obtain ⟨op, rep⟩ := e
    cases op with
    | store op =>
      cases rep with
      | error err => exact Or.inr (Or.inr rfl)
      | ok v =>
        have hok := (hr.fits hn).ok
        show (∃ i job rev, _ ∧ _ ∧ (op.exec (storeAt (ls.take n))).2.job k = _) ∨
          (∃ cluster, _ ∧ _ ∧ (op.exec (storeAt (ls.take n))).2.job k = none) ∨
          (op.exec (storeAt (ls.take n))).2.job k = _
        rcases StoreOp.exec_db (storeAt (ls.take n)) op with ⟨hdb, -⟩ | ⟨db, w, hc, -, hdb⟩
        · exact Or.inr (Or.inr (by rw [Store.job, hdb, Store.job]))
        cases op with
        | putRolloutJob job =>
          cases hc
          by_cases hk : job.key = k
          · refine Or.inl ⟨i, job, (storeAt (ls.take n)).db.revision + 1, rfl, hk, ?_⟩
            rw [Store.job, hdb]
            show ((storeAt (ls.take n)).db.jobs.insert _ _)[k]? = _
            rw [Bucket.get_insert]
            exact if_pos hk
          · refine Or.inr (Or.inr ?_)
            rw [Store.job, hdb]
            show ((storeAt (ls.take n)).db.jobs.insert _ _)[k]? = _
            rw [Bucket.get_insert]
            exact if_neg hk
        | deleteCluster cluster =>
          cases hc
          by_cases hk : hasPrefix k (cluster ++ "\x00") = true
          · refine Or.inr (Or.inl ⟨cluster, rfl, hk, ?_⟩)
            rw [Store.job, hdb]
            show (Store.deleteByClusterPrefix _ cluster)[k]? = none
            rw [Bucket.get_deleteByClusterPrefix, if_pos hk]
          · refine Or.inr (Or.inr ?_)
            rw [Store.job, hdb]
            show (Store.deleteByClusterPrefix _ cluster)[k]? = _
            rw [Bucket.get_deleteByClusterPrefix, if_neg hk]
            rfl
        | _ =>
          cases hc <;> exact Or.inr (Or.inr (by rw [Store.job, hdb]; rfl))
    | _ => exact Or.inr (Or.inr rfl)

/-- A stored job was put there by a label before. -/
theorem job_origin (hr : Reaches cfg ls c) {g : Nat} (hg : g ≤ ls.length) {job : Rollout}
    (h : (storeAt (ls.take g)).job k = some job) :
    ∃ n l i job' rev, n < g ∧ ls[n]? = some l ∧ l.jobWrite = some (i, job') ∧ job'.key = k ∧
      job = { job' with revision := rev } ∧
      (storeAt (ls.take (n + 1))).job k = some { job' with revision := rev } := by
  induction g with
  | zero => simp [storeAt, storeAfter, accessesOf, Store.job] at h
  | succ g ih =>
    have hget : ls[g]? = some ls[g] := List.getElem?_eq_getElem hg
    generalize ls[g] = l at hget
    rcases job_succ k hr hget with ⟨i, job', rev, hw, hk, hput⟩ | ⟨_, _, _, hgone⟩ | hsame
    · rw [hput] at h
      cases h
      exact ⟨g, l, i, job', rev, Nat.lt_succ_self g, hget, hw, hk, rfl, hput⟩
    · rw [hgone] at h
      cases h
    · rw [hsame] at h
      obtain ⟨n, l', i, job', rev, hn, hrest⟩ := ih (Nat.le_of_lt hg) h
      exact ⟨n, l', i, job', rev, by omega, hrest⟩

/-! ## The life of a job record -/

/-- The stored record is the job, pending or running, and so are the actionable copies that the
executor holds for its key. -/
structure Alive (cfg : Settings) (k : String) (job : Rollout) (past : List Lbl) : Prop where
  stored : ∃ job', (storeAt past).job k = some job' ∧ job'.core = job.core ∧
    (job'.state = .pending ∨ job'.state = .running)
  held : ∀ job' ∈ (cfg.place past).jobsHeld, actionable job'.state = true → job'.key = k →
    job'.core = job.core

/-- The steps of the runs considered: a job is ordered while the executor holds no actionable job for
the same key. -/
def Assumed (cfg : Settings) (k : String) (past : List Lbl) (l : Lbl) : Prop :=
  ∀ w ∈ l.jobWrite, w.1 ≠ .rollouts → w.2.key = k →
    ∀ job ∈ (cfg.place past).jobsHeld, actionable job.state = true → job.key ≠ k

instance (cfg : Settings) (k : String) (past : List Lbl) (l : Lbl) :
    Decidable (Assumed cfg k past l) := inferInstanceAs (Decidable (∀ _ ∈ _, _))

variable {job : Rollout}

/-- A copy that the executor comes to hold is one it held before, or the stored one. -/
theorem held_succ (hr : Reaches cfg ls c) {n : Nat} {e : Ev} (hn : ls[n]? = some (.act .rollouts e))
    {job' : Rollout} (h : job' ∈ (cfg.place (ls.take (n + 1))).jobsHeld) :
    job' ∈ (cfg.place (ls.take n)).jobsHeld ∨ (storeAt (ls.take n)).job job'.key = some job' := by
  rw [place_succ_exec hn] at h
  rcases RolloutExecutor.jobsHeld_next (hr.driven.steps hn).issues with hsuf | ⟨c', jobs, rfl, hsuf⟩
  · exact Or.inl (hsuf.subset h)
  · right
    let w : World := ⟨storeAt (ls.take n)⟩
    have hw : w.handles (ev (.store (.listRolloutJobs c')) (.ok jobs)) w :=
      Or.inl ⟨(hr.fits hn).ok.symm, rfl⟩
    exact job_of_listed (storeAt_wellKeyed _) hw (hsuf.subset h)

/-- One label: the record lives on, or is superseded. -/
theorem alive_succ (hr : Reaches cfg ls c) {n : Nat} {l : Lbl} (hn : ls[n]? = some l)
    (h : Alive cfg k job (ls.take n)) :
    Superseded k job (ls.take n) l ∨ Alive cfg k job (ls.take (n + 1)) := by
  -- what the executor holds after the label
  have hheld : ∀ job' ∈ (cfg.place (ls.take (n + 1))).jobsHeld, actionable job'.state = true →
      job'.key = k → job'.core = job.core := by
    intro job' hmem hact hk
    have hmove := place_moves cfg hn
    generalize hpos : cfg.place (ls.take (n + 1)) = pos at hmove hmem
    cases hmove with
    | crash | start t => cases hmem
    | other hl => exact h.held job' hmem hact hk
    | exec e =>
      rcases held_succ hr hn (hpos ▸ hmem) with hbefore | hstored
      · exact h.held job' hbefore hact hk
      · -- a copy that has just been listed is the stored record
        obtain ⟨job'', hjob, hcore, -⟩ := h.stored
        rw [hk, hjob] at hstored
        cases hstored
        exact hcore
  rcases job_succ k hr hn with ⟨i, job', rev, hw, hk, hput⟩ | ⟨cluster, hd, hk, -⟩ | hsame
  · by_cases hi : i = .rollouts
    · -- the executor writes the job in its hand, which is this one
      subst hi
      obtain ⟨rev', rfl⟩ := Lbl.act_of_jobWrite hw
      have hfrom := hr.driven.steps hn
      obtain ⟨f, state, msg, hjobs, hactive, rfl, hstate⟩ :=
        RolloutExecutor.jobWrite_of_issues hfrom.coherent hfrom.issues hw
      have hcore : f.job.core = job.core :=
        h.held f.job (hjobs ▸ List.mem_cons_self) hactive.actionable hk
      rcases hstate with ⟨rfl, -⟩ | ⟨hend, -⟩
      · exact Or.inr ⟨⟨_, hput, hcore, Or.inr rfl⟩, hheld⟩
      · exact Or.inl (.ended _ hw hk hcore hend)
    · obtain ⟨rev', rfl⟩ := Lbl.act_of_jobWrite hw
      obtain ⟨t, ht, hal⟩ := hr.allowed hn hi
      exact Or.inl (.ordered i job' t hw hk ht hal.writes.2.1)
  · exact Or.inl (.deleted cluster hd hk)
  · obtain ⟨job', hjob, hrest⟩ := h.stored
    exact Or.inr ⟨⟨job', hsame.trans hjob, hrest⟩, hheld⟩

/-- From its commit on the record lives until it is superseded. -/
theorem alive_until (hr : Reaches cfg ls c) {n : Nat} (h : Alive cfg k job (ls.take (n + 1)))
    (q : Nat) (hnq : n < q) (hq : q ≤ ls.length) :
    Alive cfg k job (ls.take q) ∨
      ∃ m l, n < m ∧ m < q ∧ ls[m]? = some l ∧ Superseded k job (ls.take m) l := by
  induction q with
  | zero => omega
  | succ q ih =>
    rcases Nat.lt_or_eq_of_le (Nat.le_of_lt_succ hnq) with hlt | rfl
    · have hget : ls[q]? = some ls[q] := List.getElem?_eq_getElem hq
      rcases ih hlt (Nat.le_of_lt hq) with halive | ⟨m, l, h1, h2, hm, hs⟩
      · rcases alive_succ hr hget halive with hs | hnext
        · exact Or.inr ⟨q, _, hlt, Nat.lt_succ_self q, hget, hs⟩
        · exact Or.inl hnext
      · exact Or.inr ⟨m, l, h1, by omega, hm, hs⟩
    · exact Or.inl h

/-- A pending record is the work of an order, and lives from then on. -/
theorem alive_of_pending (hr : Reaches cfg ls c) (ha : Throughout (Assumed cfg k) ls) {g : Nat}
    (hg : g ≤ ls.length) (h : (storeAt (ls.take g)).job k = some job)
    (hpending : job.state = .pending) :
    ∃ n i job' t, n < g ∧ ls[n]?.bind Lbl.jobWrite = some (i, job') ∧ job'.core = job.core ∧
      tasksAfter (ls.take n) i = some t ∧ t.orders job' ∧ Alive cfg k job (ls.take (n + 1)) := by
  obtain ⟨n, l, i, job', rev, hng, hn, hw, hk, rfl, hput⟩ := job_origin hr hg h
  obtain ⟨rev', rfl⟩ := Lbl.act_of_jobWrite hw
  have hi : i ≠ .rollouts := by
    rintro rfl
    -- the executor writes no pending jobs
    have hfrom := hr.driven.steps hn
    obtain ⟨f, state, msg, -, -, rfl, hstate⟩ :=
      RolloutExecutor.jobWrite_of_issues hfrom.coherent hfrom.issues hw
    have hstate' : state = .pending := hpending
    rcases hstate with ⟨rfl, -⟩ | ⟨rfl | rfl, -⟩
    · cases hstate'
    · cases hstate'
    · cases hstate'
  obtain ⟨t, ht, hal⟩ := hr.allowed hn hi
  have hord : t.orders job' := hal.writes.2.1
  refine ⟨n, i, job', t, hng, by rw [hn]; exact hw, rfl, ht, hord, ⟨_, hput, rfl, ?_⟩, ?_⟩
  · exact Or.inl hpending
  · -- the executor holds no actionable job for the key
    rw [place_succ_other hn (Lbl.ofExecutor_act hi)]
    intro job'' hmem hact hk''
    exact absurd hk'' (ha n _ hn _ hw hi hk job'' hmem hact)

/-! ## The response -/

/-- A job that `CreateRollout` returns was stored when the call has read it back. -/
theorem returned_stored (hr : Reaches cfg ls c) {r : Nat} {i : Who} {req : CreateRolloutRequest}
    (hret : ls[r]?.bind Lbl.returnsJob = some (i, job))
    (ht : tasksAfter (ls.take r) i = some (.request (.createRollout req))) :
    ∃ g < r, (storeAt (ls.take g)).job job.key = some job := by
  obtain ⟨l, hl, hjob⟩ := Option.bind_eq_some_iff.1 hret
  obtain rfl : l = .act i ⟨.respond (.ok (.job (some job))), ()⟩ := by
    unfold Lbl.returnsJob at hjob
    split at hjob
    · cases hjob
      rfl
    · cases hjob
  obtain ⟨es, next, hwork, hsteps⟩ := hr.stocked.work_at hl ht
  obtain ⟨cluster, pool, hmem⟩ := ((cfg.server.handle_serves _ rfl).of_steps hsteps ()).tells
  obtain ⟨g, hlt, hg⟩ := before_of_work hwork hmem
  refine ⟨g, hlt, ?_⟩
  have hread : (storeAt (ls.take g)).db.jobs[ckey cluster pool]? = some job :=
    Except.ok.inj (hr.fits hg).ok
  have hkey : job.key = ckey cluster pool :=
    congrArg Prod.snd (storeAt_wellKeyed _ _ _ _ (DB.entry_of_job hread))
  rw [hkey]
  exact hread

end Requests

/-- A confirmed request is not lost. In every run in which jobs for the key are ordered only while
the executor holds no actionable job for it: a pending job that `CreateRollout` has returned was
ordered before, and at every later point the stored record is still that job, pending or running,
unless since the order the executor has recorded its outcome, another job has been ordered for the
key, or the cluster has been deleted. -/
theorem request_kept {cfg : Settings} {ls : List Lbl} {c : State} (hr : Reaches cfg ls c)
    {job : Rollout} (ha : Throughout (Requests.Assumed cfg job.key) ls) {r q : Nat} {i : Who}
    {req : CreateRolloutRequest}
    (hret : ls[r]?.bind Lbl.returnsJob = some (i, job))
    (ht : tasksAfter (ls.take r) i = some (.request (.createRollout req)))
    (hpending : job.state = .pending) (hrq : r < q) (hq : q ≤ ls.length) :
    ∃ n i₀ job₀ t₀, n < r ∧ ls[n]?.bind Lbl.jobWrite = some (i₀, job₀) ∧ job₀.core = job.core ∧
      tasksAfter (ls.take n) i₀ = some t₀ ∧ t₀.orders job₀ ∧
      ((∃ job', (storeAt (ls.take q)).job job.key = some job' ∧ job'.core = job.core ∧
          (job'.state = .pending ∨ job'.state = .running)) ∨
        ∃ m l, n < m ∧ m < q ∧ ls[m]? = some l ∧ Superseded job.key job (ls.take m) l) := by
  obtain ⟨g, hgr, hstored⟩ := Requests.returned_stored hr hret ht
  obtain ⟨n, i₀, job₀, t₀, hng, hw, hcore, ht0, hord, halive⟩ :=
    Requests.alive_of_pending hr ha (by omega) hstored hpending
  refine ⟨n, i₀, job₀, t₀, by omega, hw, hcore, ht0, hord, ?_⟩
  rcases Requests.alive_until hr halive q (by omega) hq with hlive | hover
  · exact Or.inl hlive.stored
  · exact Or.inr hover

/-- The job that is ordered for the node in time, after the executor has marked it running. -/
theorem nodeInTime_kept : ∃ job : Rollout, job.targetVersion = "v1.8.0" ∧
    ∃ n i₀ job₀ t₀, n < 20 ∧
      (runScript Script.settings Script.nodeInTime State.initial).1[n]?.bind Lbl.jobWrite =
        some (i₀, job₀) ∧ job₀.core = job.core ∧
      tasksAfter ((runScript Script.settings Script.nodeInTime State.initial).1.take n) i₀ =
        some t₀ ∧ t₀.orders job₀ ∧
      ((∃ job', (storeAt ((runScript Script.settings Script.nodeInTime State.initial).1.take
          26)).job job.key = some job' ∧ job'.core = job.core ∧
          (job'.state = .pending ∨ job'.state = .running)) ∨
        ∃ m l, n < m ∧ m < 26 ∧
          (runScript Script.settings Script.nodeInTime State.initial).1[m]? = some l ∧
          Superseded job.key job
            ((runScript Script.settings Script.nodeInTime State.initial).1.take m) l) := by
  have hret : ((runScript Script.settings Script.nodeInTime State.initial).1[20]?.bind
      Lbl.returnsJob).map (fun w => (w.1, w.2.key, w.2.state, w.2.targetVersion)) =
        some (.client 0, ckey "c" "controlplane", .pending, "v1.8.0") := by decide +kernel
  obtain ⟨⟨i, job⟩, hjob, hdata⟩ := Option.map_eq_some_iff.1 hret
  obtain ⟨rfl, hkey, hstate, htarget⟩ : i = .client 0 ∧ job.key = ckey "c" "controlplane" ∧
    job.state = .pending ∧ job.targetVersion = "v1.8.0" := by simpa using hdata
  have hassumed : Throughout (Requests.Assumed Script.settings job.key)
      (runScript Script.settings Script.nodeInTime State.initial).1 := by
    rw [hkey]
    decide +kernel
  have htask : tasksAfter ((runScript Script.settings Script.nodeInTime State.initial).1.take 20)
      (.client 0) = some (.request
        (.createRollout ⟨"c", "controlplane", .talos, "v1.8.0", "me"⟩)) := by decide +kernel
  refine ⟨job, htarget, ?_⟩
  exact request_kept (reaches_script Script.settings Script.nodeInTime) hassumed hjob
    htask hstate (by decide) (by decide +kernel)

/-- A second request for the pool is confirmed while the executor works on the first. -/
def Script.overtaken : List Move :=
  armed ++ order ++ pass 12 (.working "v1.7.0" [node]) ++
    request (.createRollout ⟨"c", "controlplane", .talos, "v1.9.0", "you"⟩) ++
    List.replicate 20 (.step .rollouts (.working "v1.8.0" [node]))

/-- The second job is returned as pending, and in the end the first one is stored as done. No job has
been written in between but by the executor. -/
theorem overtaken_overwritten : ∃ (ls : List Lbl) (c : State) (r : Nat),
    Reaches Script.settings ls c ∧
    (ls[r]?.bind Lbl.returnsJob).map
        (fun w => (w.1, w.2.key, w.2.state, w.2.targetVersion, w.2.createdBy)) =
      some (.client 0, ckey "c" "controlplane", .pending, "v1.9.0", "you") ∧
    tasksAfter (ls.take r) (.client 0) =
      some (.request (.createRollout ⟨"c", "controlplane", .talos, "v1.9.0", "you"⟩)) ∧
    ((ls.drop r).filterMap Lbl.jobWrite).map Prod.fst = [.rollouts] ∧
    (ls.drop r).filterMap Lbl.removesCluster = [] ∧
    ((storeAt ls).job (ckey "c" "controlplane")).map
        (fun job => (job.state, job.targetVersion, job.createdBy)) =
      some (.done, "v1.8.0", "me") := by
  refine ⟨_, _, 42, reaches_script Script.settings Script.overtaken, ?_, ?_, ?_, ?_, ?_⟩
  · decide +kernel
  · decide +kernel
  · decide +kernel
  · decide +kernel
  · decide +kernel

end Medea
