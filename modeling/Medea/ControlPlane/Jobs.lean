import Medea.ControlPlane.Observations
import Medea.Rollout.Holdings

/-!
# Jobs in the store and jobs in hand

A job is a record of the store that the executor also holds copies of: a pass lists the jobs of a
cluster once, works on them one after the other, and writes each of them back under its own key.

`job_moves` says how the stored jobs change, `jobsHeld_next` where the copies of the executor come
from, and `job_of_listed` and `keys_of_listed` what a listing says about the store.
-/

set_option autoImplicit false

namespace Medea

open Medea.Interaction

/-- The job record that a label commits, with the process that writes it. -/
def Lbl.jobWrite : Lbl → Option (Who × Rollout)
  | .act i ⟨.store (.putRolloutJob job), .ok _⟩ => some (i, job)
  | _ => none

/-- The commit of a job record is an answered call. -/
theorem Lbl.act_of_jobWrite {l : Lbl} {i : Who} {job : Rollout} (h : l.jobWrite = some (i, job)) :
    ∃ rev, l = .act i ⟨.store (.putRolloutJob job), .ok rev⟩ := by
  rw [Lbl.jobWrite.eq_def] at h
  split at h
  · cases h
    exact ⟨_, rfl⟩
  · cases h

theorem Lbl.eq_of_jobWrite {i i' : Who} {e : Ev} {job : Rollout}
    (h : Lbl.jobWrite (.act i e) = some (i', job)) :
    i' = i ∧ ∃ rep, e = ⟨.store (.putRolloutJob job), .ok rep⟩ := by
  obtain ⟨rev, hl⟩ := Lbl.act_of_jobWrite h
  cases hl
  exact ⟨rfl, rev, rfl⟩

/-! ## The store -/

/-- The stored job at a key. -/
def Store.job (s : Store) (k : String) : Option Rollout := s.db.jobs[k]?

/-- How a step changes the stored jobs: a committed record replaces one of them, and otherwise they can
only go with their clusters. -/
theorem job_moves {w w' : World} (i : Who) {e : Ev} (hw : w.handles e w') :
    (∃ job rev, Lbl.jobWrite (.act i e) = some (i, job) ∧
      ∀ k, w'.store.job k = if job.key = k then some { job with revision := rev }
        else w.store.job k) ∨
      Lbl.jobWrite (.act i e) = none ∧
        ∀ k, w'.store.job k = none ∨ w'.store.job k = w.store.job k := by
  obtain ⟨op, rep⟩ := e
  cases op with
  | store op =>
    rcases World.handles_db hw with ⟨hdb, herr⟩ | ⟨db, v, hc, rfl, hdb⟩
    · refine Or.inr ⟨?_, fun k => Or.inr (by rw [Store.job, hdb, Store.job])⟩
      cases op with
      | putRolloutJob job =>
        obtain ⟨e, rfl⟩ := herr rfl
        rfl
      | _ => rfl
    cases op with
    | putRolloutJob job =>
      refine Or.inl ⟨job, w.store.db.revision + 1, rfl, fun k => ?_⟩
      cases hc
      rw [Store.job, hdb]
      exact Bucket.get_insert ..
    | deleteCluster cluster =>
      refine Or.inr ⟨rfl, fun k => ?_⟩
      cases hc
      rw [Store.job, hdb]
      show (Store.deleteByClusterPrefix _ cluster)[k]? = none ∨
        (Store.deleteByClusterPrefix _ cluster)[k]? = _
      rw [Bucket.get_deleteByClusterPrefix]
      split
      · exact Or.inl rfl
      · exact Or.inr rfl
    | _ => cases hc <;> exact Or.inr ⟨rfl, fun k => Or.inr (by rw [Store.job, hdb]; rfl)⟩
  | _ =>
    cases hw
    exact Or.inr ⟨rfl, fun k => Or.inr rfl⟩

section Listing

variable {w w' : World} {c : String} {jobs : List Rollout}
  (hkeyed : w.store.WellKeyed)
  (hw : w.handles (ev (.store (.listRolloutJobs c)) (.ok jobs)) w')

include hkeyed hw

/-- A listed job is the stored one. -/
theorem job_of_listed {job : Rollout} (h : job ∈ jobs) : w.store.job job.key = some job := by
  rcases hw with ⟨hrep, -⟩ | ⟨hwr, -⟩
  · cases hrep
    obtain ⟨k, hget, -⟩ := Bucket.mem_listByCluster h
    have hk : job.key = k := congrArg Prod.snd (hkeyed _ _ _ (DB.entry_of_job hget))
    rw [hk]
    exact hget
  · cases hwr

/-- No key is listed twice. -/
theorem keys_of_listed : (jobs.map Rollout.key).Nodup := by
  rcases hw with ⟨hrep, -⟩ | ⟨hwr, -⟩
  · cases hrep
    show ((Store.listByCluster w.store.db.jobs c).map Rollout.key).Nodup
    have hkeys : (Store.listByCluster w.store.db.jobs c).map Rollout.key =
        (w.store.db.jobs.toList.filter fun kv => hasPrefix kv.1 (c ++ "\x00")).map Prod.fst := by
      rw [Store.listByCluster, List.map_map]
      refine List.map_congr_left ?_
      intro kv hkv
      have hmem := List.mem_of_mem_filter hkv
      have hget := Std.ExtTreeMap.mem_toList_iff_getElem?_eq_some.1 hmem
      exact congrArg Prod.snd (hkeyed _ _ _ (DB.entry_of_job hget))
    rw [hkeys]
    have hall : (w.store.db.jobs.toList.map Prod.fst).Nodup := by
      rw [Std.ExtTreeMap.map_fst_toList_eq_keys]
      exact Std.ExtTreeMap.nodup_keys
    exact hall.sublist (List.filter_sublist.map Prod.fst)
  · cases hwr

end Listing

/-! ## The executor -/

/-- The copies of jobs that a pass holds: the one in hand and those of its cluster to come. -/
def ExecPos.jobsHeld : ExecPos → List Rollout
  | .idle | .clusters | .jobs _ _ => []
  | .connect f | .markRunning f | .pool f _ | .connectK8s f | .markRunningK8s f | .k8s f _
  | .reject f _ => f.job :: f.jobs

namespace RolloutExecutor

variable {x : RolloutExecutor} {pos : ExecPos} {e : Ev} {f : JobFrame}

theorem jobsHeld_scanClusters (todo : List Cluster) : (scanClusters todo).jobsHeld = [] := by
  induction todo with
  | nil => rfl
  | cons cl todo ih =>
    rw [scanClusters]
    split
    · rfl
    · exact ih

theorem jobsHeld_scanJobs (cl : Cluster) (todo : List Cluster) (jobs : List Rollout) :
    (scanJobs cl todo jobs).jobsHeld <:+ jobs := by
  induction jobs with
  | nil =>
    exact ⟨[], (jobsHeld_scanClusters todo).symm ▸ rfl⟩
  | cons job jobs ih =>
    rw [scanJobs]
    split
    · exact List.suffix_refl _
    · exact ih.trans (List.suffix_cons _ _)

/-- Past a job only those behind it are held. -/
theorem jobsHeld_afterJob : (afterJob f).jobsHeld <:+ f.jobs := jobsHeld_scanJobs _ _ _

theorem jobsHeld_dispatch : (x.dispatch f).jobsHeld = f.job :: f.jobs := by
  rw [dispatch]
  cases f.job.kind with
  | talos => rfl
  | unspecified => rfl
  | kubernetes =>
    dsimp only
    split <;> rfl

/-- What a pass holds it held before, or it has just been listed. -/
theorem jobsHeld_next (hop : x.issues pos = some e.op) :
    (x.next pos e).jobsHeld <:+ pos.jobsHeld ∨
      ∃ c jobs, e = ev (.store (.listRolloutJobs c)) (.ok jobs) ∧
        (x.next pos e).jobsHeld <:+ jobs := by
  have hbehind : ∀ f : JobFrame, (afterJob f).jobsHeld <:+ f.job :: f.jobs := fun f =>
    jobsHeld_afterJob.trans (List.suffix_cons _ _)
  have hmove := next_moves hop
  generalize x.next pos e = pos' at hmove
  cases hmove with
  | clustersFailed | jobsFailed => exact Or.inl List.nil_suffix
  | clustersListed =>
    left
    rw [jobsHeld_scanClusters]
    exact List.nil_suffix
  | jobsListed => exact Or.inr ⟨_, _, rfl, jobsHeld_scanJobs _ _ _⟩
  | connected =>
    left
    rw [jobsHeld_dispatch]
    exact List.suffix_refl _
  | begun | passes | connectedK8s | begunK8s | upgrades => exact Or.inl (List.suffix_refl _)
  | unconnected | unconnectedK8s | concluded | concludedK8s | rejected => exact Or.inl (hbehind _)

/-- A job record that the executor commits is its job in hand, running or ended; past an end only the
jobs behind it are held. -/
theorem jobWrite_of_issues {i : Who} {job : Rollout} (hcoh : pos.Coherent)
    (hop : x.issues pos = some e.op) (hw : Lbl.jobWrite (.act i e) = some (i, job)) :
    ∃ (f : JobFrame) (state : RolloutJobState) (msg : String),
      pos.jobsHeld = f.job :: f.jobs ∧ f.Active ∧
      job = { f.job with state := state, message := msg } ∧
      (state = .running ∧ (x.next pos e).jobsHeld = f.job :: f.jobs ∨
        (state = .done ∨ state = .failed) ∧ (x.next pos e).jobsHeld <:+ f.jobs) := by
  unfold Lbl.jobWrite at hw
  split at hw
  next heq =>
    cases heq
    cases hw
    obtain ⟨f, hrec⟩ := records_of_issues hop
    cases hrec with
    | running | runningK8s =>
      exact ⟨f, .running, f.job.message, rfl, hcoh.1, rfl, Or.inl ⟨rfl, rfl⟩⟩
    | concluded result | concludedK8s result =>
      rcases result with err | ⟨⟩
      · exact ⟨f, .failed, err, rfl, hcoh.1, rfl, Or.inr ⟨Or.inr rfl, jobsHeld_afterJob⟩⟩
      · exact ⟨f, .done, "", rfl, hcoh.1, rfl, Or.inr ⟨Or.inl rfl, jobsHeld_afterJob⟩⟩
    | rejected msg =>
      exact ⟨f, .failed, msg, rfl, hcoh, rfl, Or.inr ⟨Or.inr rfl, jobsHeld_afterJob⟩⟩
  next => cases hw

end RolloutExecutor

end Medea
