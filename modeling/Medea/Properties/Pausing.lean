import Medea.ControlPlane.Places
import Medea.Properties.LostUpdates
import Medea.Rollout.Holdings

/-!
# Pausing a pool during a pass

A pass over a pool reads the flag that pauses it once, at its start. A pause that commits later is not
seen by the pass, which goes on to the members to come: `pausedBetween_drains` is a run in which the
second node of a pool is drained after the pause.

`pause_stops` says that this is the only way. If a pool is paused only while no pass has members of it
ahead, then every snapshot, drain or upgrade call for the pool that comes after the pause belongs to
the block that was open when the pause committed, until the rollout is resumed. A member is ahead of
a pass as long as none of these calls has been made in its visit.
-/

set_option autoImplicit false
set_option maxRecDepth 100000

namespace Medea

open Medea.Interaction RolloutReconciler

namespace Lbl

/-- The flag that a committed record of the pool carries. -/
def poolCommit (k : String) : Lbl → Option Bool
  | .act _ ⟨.store (.putNodePoolDesired np _), .ok _⟩ =>
    if ckey np.cluster np.name = k then some np.paused else none
  | _ => none

/-- The pool and the member of a snapshot, drain or upgrade call of a Talos job. -/
def takesDown : Lbl → Option (String × String)
  | .act .rollouts ⟨.talos ⟨c, .rollout job⟩ (.etcdSnapshot addr _), _⟩ =>
    if job.kind = .talos then some (ckey c job.pool, addr) else none
  | .act .rollouts ⟨.talos ⟨c, .rollout job⟩ (.upgradeOS addr _), _⟩ => some (ckey c job.pool, addr)
  | .act .rollouts ⟨.kube ⟨c, .rollout job⟩ addr (.drain _ _), _⟩ => some (ckey c job.pool, addr)
  | _ => none

/-- Only the executor makes such calls. -/
theorem takesDown_rollouts {l : Lbl} {p : String × String} (h : l.takesDown = some p) :
    ∃ e, l = .act .rollouts e := by
  unfold takesDown at h
  split at h
  · exact ⟨_, rfl⟩
  · exact ⟨_, rfl⟩
  · exact ⟨_, rfl⟩
  · cases h

/-- The commit of a pool record is a swap. -/
theorem swapped_of_poolCommit {l : Lbl} {k : String} {b : Bool} (h : l.poolCommit k = some b) :
    ∃ i np expected rev, l.swapped = some (i, .nodePool np, expected, rev) ∧
      ckey np.cluster np.name = k ∧ np.paused = b := by
  unfold poolCommit at h
  split at h
  · split at h
    next i np expected rev hk =>
      cases h
      exact ⟨i, np, expected, rev, rfl, hk, rfl⟩
    next => cases h
  · cases h

theorem poolCommit_of_swapped {l : Lbl} {i : Who} {np : NodePool} {expected rev : Nat}
    (h : l.swapped = some (i, .nodePool np, expected, rev)) :
    l.poolCommit (ckey np.cluster np.name) = some np.paused := by
  unfold swapped at h
  split at h
  · cases h
  · cases h
    exact if_pos rfl
  · cases h
  · cases h
  · cases h

end Lbl

/-- The last committed record of the pool is paused. -/
def poolPaused (k : String) (ls : List Lbl) : Bool :=
  (ls.filterMap (Lbl.poolCommit k)).getLast? = some true

/-- No call of a block has been made in the visit that stands at this stage. -/
def Stage.opens (view : PoolView) : Stage → Bool
  | .record | .check | .mkdir | .openFile | .snapshot => true
  | .markDraining | .drain => !RolloutReconciler.snapshots view.np
  | _ => false

/-- The members whose blocks a pass may still begin. -/
def PoolPos.ahead : PoolPos → List String
  | .pool | .returned _ => []
  | .cluster np | .nodes np _ => np.members
  | .member view _ addr todo stage => (if stage.opens view then [addr] else []) ++ todo

/-- The members of a pool whose blocks the executor may still begin from what it has read. -/
def ExecPos.ahead (k : String) : ExecPos → List String
  | .pool f pos => if ckey f.cl.name f.job.pool = k then pos.ahead else []
  | _ => []

namespace Pausing

variable {k : String} {ls : List Lbl} {l : Lbl} {addr : String} {visited todo : List String}
  {f : JobFrame} {view : PoolView}

theorem poolPaused_of_none (h : l.poolCommit k = none) :
    poolPaused k (ls ++ [l]) = poolPaused k ls := by
  simp [poolPaused, List.filterMap_append, h]

theorem poolPaused_of_commit {b : Bool} (h : l.poolCommit k = some b) :
    poolPaused k (ls ++ [l]) = b := by
  cases b <;> simp [poolPaused, List.filterMap_append, h]

/-! ## Stages -/

/-- A snapshot is only taken where the pool asks for it. -/
def SnapStage (view : PoolView) (_ : String) : Stage → Prop
  | .mkdir | .openFile | .snapshot | .closeFile _ => RolloutReconciler.snapshots view.np = true
  | _ => True

theorem snapStage_next {r : RolloutReconciler} {stage stage' : Stage} {e : Ev}
    (h : SnapStage view addr stage)
    (hmove : RolloutReconciler.StageMove r view addr stage e (.at stage')) :
    SnapStage view addr stage' := by
  cases hmove with
  | snapshotFirst _ _ hsnap => exact hsnap
  | dirMade | opened | streamed => exact h
  | _ => trivial

/-- A block that has been begun stays begun. -/
theorem opens_next {r : RolloutReconciler} {stage stage' : Stage} {e : Ev}
    (hsnap : SnapStage view addr stage) (h : stage.opens view = false)
    (hmove : RolloutReconciler.StageMove r view addr stage e (.at stage')) :
    stage'.opens view = false := by
  cases hmove with
  | closed =>
    -- the drain that follows a snapshot does not begin the block
    have hs : snapshots view.np = true := hsnap
    simp [Stage.opens, hs]
  | draining => exact h
  | resumed | resumedUnlisted | fresh | unread | found | unlisted | snapshotFirst | drainFirst
  | dirFailed | dirMade | openFailed | opened | streamed => cases h
  | _ => rfl

/-! ## Members ahead -/

section Ahead

variable {r : RolloutReconciler} {cluster pool : String}

/-- In a visit with nothing ahead the block of its calls has been begun, and nobody is to come. -/
theorem begun_of_none {stage : Stage} (h : (PoolPos.member view visited addr todo stage).ahead = []) :
    stage.opens view = false ∧ todo = [] := by
  obtain ⟨hopens, htodo⟩ := List.append_eq_nil_iff.1 h
  refine ⟨?_, htodo⟩
  by_contra hne
  rw [if_pos (by simpa using hne)] at hopens
  cases hopens

/-- A pass that has no members ahead does not get any, unless it reads a pool that is not paused. -/
theorem ahead_poolNext {pos : PoolPos} {e : Ev} (hop : r.poolIssues cluster pool pos = some e.op)
    (hsnap : pos.AtMember SnapStage) (h : pos.ahead = [])
    (hread : ∀ np rev, e = ev (.store (.getNodePool cluster pool)) (.ok (some np, rev)) →
      np.paused = true) : (r.poolNext cluster pool pos e).ahead = [] := by
  have hmove := poolNext_moves hop
  generalize r.poolNext cluster pool pos e = pos' at hmove
  cases hmove with
  | pinned hp | unpinned hp =>
    -- a pool that has just been read is paused
    rw [hread _ _ rfl] at hp
    cases hp
  | targeted => exact h
  | @entered np target addr nodes todo hm =>
    have hnone : np.members = [] := h
    rw [hnone] at hm
    cases hm
  | inVisit hstep =>
    obtain ⟨hbegun, htodo⟩ := begun_of_none h
    simp [PoolPos.ahead, opens_next hsnap hbegun hstep, htodo]
  | nextVisit => exact absurd (begun_of_none h).2 (List.cons_ne_nil _ _)
  | _ => rfl

end Ahead

section Steps

variable {x : RolloutExecutor} {pos : ExecPos} {e : Ev}

theorem ahead_next (hop : x.issues pos = some e.op) (hsnap : pos.AtMember SnapStage)
    (h : pos.ahead k = [])
    (hread : ∀ c p np rev, ckey c p = k →
      e = ev (.store (.getNodePool c p)) (.ok (some np, rev)) → np.paused = true) :
    (x.next pos e).ahead k = [] := by
  have hin : (x.next pos e).InPool fun f pos' =>
      ckey f.cl.name f.job.pool = k → pos'.ahead = [] := by
    refine RolloutExecutor.next_inPool hop (fun f _ => rfl) ?_
    rintro f pos' rfl hissues hk
    have hahead : pos'.ahead = [] := by
      rw [ExecPos.ahead, if_pos hk] at h
      exact h
    exact ahead_poolNext hissues hsnap hahead fun np rev he => hread _ _ np rev hk he
  cases hpos : x.next pos e with
  | pool f pos' =>
    rw [hpos] at hin
    rw [ExecPos.ahead]
    split
    next hk => exact hin hk
    next => rfl
  | _ => rfl

/-- A place in a visit, past its beginning, was reached from a place in the same visit. -/
theorem same_visit (hop : x.issues pos = some e.op) {stage' : Stage}
    (h : x.next pos e = .pool f (.member view visited addr todo stage')) (hs : stage' ≠ .record) :
    ∃ stage, pos = .pool f (.member view visited addr todo stage) := by
  have hin : (x.next pos e).InPool fun f' pos' => f' = f →
      pos' = .member view visited addr todo stage' →
      ∃ stage, pos = .pool f (.member view visited addr todo stage) := by
    refine RolloutExecutor.next_inPool hop (fun f' _ hp => nomatch hp) ?_
    rintro f' pos' rfl hissues rfl hnext
    have hmove := poolNext_moves hissues
    rw [hnext] at hmove
    cases hmove with
    | inVisit => exact ⟨_, rfl⟩
    | entered | nextVisit => exact absurd rfl hs
  rw [h] at hin
  exact hin rfl rfl

/-- A snapshot, drain or upgrade call is made in the visit of the member, for the pool in hand. -/
theorem place_of_takesDown (hcoh : pos.Coherent) (hop : x.issues pos = some e.op)
    (h : Lbl.takesDown (.act .rollouts e) = some (k, addr)) :
    ∃ f view visited todo stage, ckey f.cl.name f.job.pool = k ∧
      pos = .pool f (.member view visited addr todo stage) := by
  unfold Lbl.takesDown at h
  split at h
  next heq =>
    cases heq
    split at h
    next hkind =>
      cases h
      obtain ⟨f, hclient, hcalls⟩ := RolloutExecutor.calls_of_issues hop rfl
      cases hclient
      cases hcalls with
      | @visit view visited _ todo stage _ hstage =>
        cases stage <;> cases hstage
        exact ⟨f, view, visited, todo, _, rfl, rfl⟩
      | upgrade =>
        -- the snapshot of a Kubernetes job is not one of a pass
        rw [hcoh.2] at hkind
        cases hkind
    next => cases h
  next heq =>
    cases heq
    cases h
    obtain ⟨f, view, visited, todo, stage, hclient, rfl, -⟩ :=
      RolloutExecutor.visit_of_issues hop rfl
    cases hclient
    exact ⟨f, view, visited, todo, stage, rfl, rfl⟩
  next heq =>
    cases heq
    cases h
    obtain ⟨f, view, visited, todo, stage, hclient, rfl, -⟩ :=
      RolloutExecutor.visit_of_issues hop rfl
    cases hclient
    exact ⟨f, view, visited, todo, stage, rfl, rfl⟩
  next => cases h

/-- The executor commits no pool records. -/
theorem poolCommit_exec (hop : x.issues pos = some e.op) :
    Lbl.poolCommit k (.act .rollouts e) = none := by
  obtain ⟨op, rep⟩ := e
  cases op with
  | store op =>
    have hof := RolloutExecutor.issues_ofRollouts hop
    cases op <;> first | rfl | cases hof
  | _ => rfl

end Steps

/-! ## Runs -/

/-- The steps of the runs considered. A pool is paused only while no member of it is ahead of the
executor. A paused pool is not rewritten by seeding, by a bootstrap or by another tool. -/
structure Assumed (cfg : Settings) (k : String) (past : List Lbl) (l : Lbl) : Prop where
  pause : l.poolCommit k = some true → poolPaused k past = false → (cfg.place past).ahead k = []
  resume : l.poolCommit k = some false → poolPaused k past = true →
    ∀ w ∈ l.swapped, (tasksAfter past w.1).any Task.edits = true

instance (cfg : Settings) (k : String) (past : List Lbl) (l : Lbl) :
    Decidable (Assumed cfg k past l) :=
  decidable_of_iff
    ((l.poolCommit k = some true → poolPaused k past = false → (cfg.place past).ahead k = []) ∧
      (l.poolCommit k = some false → poolPaused k past = true →
        ∀ w ∈ l.swapped, (tasksAfter past w.1).any Task.edits = true))
    ⟨fun h => ⟨h.1, h.2⟩, fun h => ⟨h.pause, h.resume⟩⟩

variable {cfg : Settings} {c : State}

/-- The stored record of the pool carries the flag that was committed last. -/
theorem stored_flag (hr : Stocked cfg ls c) {n r : Nat} (hn : n ≤ ls.length) {np : NodePool}
    (he : (storeAt (ls.take n)).db.entry (.nodepool, k) = some (r, .nodePool np)) :
    ((ls.take n).filterMap (Lbl.poolCommit k)).getLast? = some np.paused := by
  induction n generalizing r np with
  | zero => simp [storeAt, storeAfter, accessesOf, DB.entry] at he
  | succ n ih =>
    have hget : ls[n]? = some ls[n] := List.getElem?_eq_getElem hn
    generalize ls[n] = l at hget
    rw [take_succ_eq hget, List.filterMap_append]
    -- a desired record with this key, to speak of it as one
    have hown := (Revisions.of_history (hr.history.1.take (n + 1))).own _ _ _ he
    have hkey : (Desired.nodePool np).key = (.nodepool, k) := hown.1
    cases hc : l.poolCommit k with
    | some b =>
      obtain ⟨i, np', expected, rev, hsw, hk, rfl⟩ := Lbl.swapped_of_poolCommit hc
      have hput := (hr.history.1.entry_of_swapped (n := n) (by rw [hget]; exact hsw)).2
      have hkey' : (Desired.nodePool np').key = (.nodepool, k) := congrArg _ hk
      rw [hkey', he] at hput
      cases hput
      simp [hc]
      rfl
    | none =>
      rw [← hkey] at he
      rcases hr.history.1.swapped_of_entry hget he with hbefore | ⟨i, d', expected, hsw, hk, hv⟩
      · rw [hkey] at hbefore
        simp [hc, ih (Nat.le_of_lt hn) hbefore]
      · cases d' with
        | nodePool np' =>
          have hcommit := Lbl.poolCommit_of_swapped hsw
          have hk' : ckey np'.cluster np'.name = k := congrArg Prod.snd (hk.trans hkey)
          rw [hk', hc] at hcommit
          cases hcommit
        | _ => cases hv

/-- While the pool is paused the executor has no member of it ahead. -/
theorem none_ahead (hr : Stocked cfg ls c) (ha : Throughout (Assumed cfg k) ls) (n : Nat)
    (hn : n ≤ ls.length) : (poolPaused k (ls.take n) = true → (cfg.place (ls.take n)).ahead k = []) ∧
      (cfg.place (ls.take n)).AtMember SnapStage := by
  refine hr.driven.places (P := fun n pos =>
    (poolPaused k (ls.take n) = true → pos.ahead k = []) ∧ pos.AtMember SnapStage)
    (fun n => ⟨fun _ => rfl, trivial⟩) (fun n => ⟨fun _ => rfl, trivial⟩) ?_ ?_ n hn
  · rintro n e hget hfrom ⟨h, hsnap⟩
    constructor
    · intro hp
      rw [take_succ_eq hget, poolPaused_of_none (poolCommit_exec hfrom.issues)] at hp
      refine ahead_next hfrom.issues hsnap (h hp) ?_
      -- a read of the paused pool returns a paused record
      rintro c' p' np rev rfl rfl
      have hlt := (List.getElem?_eq_some_iff.1 hget).1
      rcases LostUpdates.found_entry (hr.history.1.fits hget) rfl with ⟨hnone, _⟩ | ⟨v, v', hv, he, hcopy⟩
      · cases hnone
      · cases hv
        cases hcopy with
        | same =>
          have hflag := stored_flag hr (Nat.le_of_lt hlt) he
          rw [poolPaused, hflag] at hp
          simpa using hp
    · refine RolloutExecutor.next_atMember hfrom.issues (fun _ _ => trivial) ?_
      intro f view visited addr todo stage stage' hpos hmove
      rw [hpos] at hsnap
      exact snapStage_next hsnap hmove
  · rintro n l hget hl ⟨h, hsnap⟩
    refine ⟨fun hp => ?_, hsnap⟩
    cases hc : l.poolCommit k with
    | none =>
      rw [take_succ_eq hget, poolPaused_of_none hc] at hp
      exact h hp
    | some b =>
      rw [take_succ_eq hget, poolPaused_of_commit hc] at hp
      subst hp
      by_cases hbefore : poolPaused k (ls.take n) = true
      · exact h hbefore
      · exact (ha n l hget).pause hc (by simpa using hbefore)

/-- What is performed on the record of a pool is a change of a pool. -/
theorem nodePool_of_performs {t : Task} {u : Edit} (h : t.performs (.nodepool, k) u) :
    ∃ f, u = .nodePool f := by
  cases t with
  | request req =>
    cases req with
    | createRollout req =>
      rcases h with ⟨-, rfl⟩ | ⟨h, -⟩
      · exact ⟨_, rfl⟩
      · cases h
    | setNodePoolVersion | pauseRollout | resumeRollout => exact ⟨_, h.2⟩
    | setClusterVersions | enableRollouts | disableRollouts | enableProvisioning
    | disableProvisioning | registerHost => cases h.1
    | _ => cases h
  | provisionPass =>
    cases h with
    | addMember | removeMember => exact ⟨_, rfl⟩
  | _ => cases h

/-- Of the changes to a pool, only a resume clears the flag. -/
theorem resume_of_performs {t : Task} {f : NodePool → NodePool}
    (h : t.performs (.nodepool, k) (.nodePool f)) :
    (∀ np, np.paused = true → (f np).paused = true) ∨
      ∃ c p, t = .request (.resumeRollout c p) ∧ ckey c p = k := by
  cases t with
  | request req =>
    cases req with
    | createRollout req =>
      rcases h with ⟨-, h⟩ | ⟨-, h⟩
      · cases h
        exact Or.inl fun np hp => hp
      · cases h
    | registerHost req =>
      obtain ⟨-, role, h⟩ := h
      cases h
    | setNodePoolVersion cluster pool tv expected =>
      obtain ⟨-, h⟩ := h
      cases h
      exact Or.inl fun np hp => hp
    | pauseRollout cluster pool =>
      obtain ⟨-, h⟩ := h
      cases h
      exact Or.inl fun np _ => rfl
    | resumeRollout cluster pool =>
      obtain ⟨hk, -⟩ := h
      exact Or.inr ⟨cluster, pool, rfl, (congrArg Prod.snd hk).symm⟩
    | setClusterVersions | enableRollouts | disableRollouts | enableProvisioning
    | disableProvisioning =>
      obtain ⟨-, h⟩ := h
      cases h
    | _ => cases h
  | provisionPass =>
    cases h with
    | addMember | removeMember => exact Or.inl fun np hp => hp
  | _ => cases h

/-- An unpaused record that replaces a paused one is the work of a resume. -/
theorem resumed_by (hr : Stocked cfg ls c) (ha : Throughout (Assumed cfg k) ls) {m : Nat} {l : Lbl}
    (hm : ls[m]? = some l) (hc : l.poolCommit k = some false)
    (hp : poolPaused k (ls.take m) = true) :
    ∃ i e c p, l = .act i e ∧ tasksAfter (ls.take m) i = some (.request (.resumeRollout c p)) ∧
      ckey c p = k := by
  obtain ⟨i, np, expected, rev, hsw, hk, hpaused⟩ := Lbl.swapped_of_poolCommit hc
  obtain ⟨op, rep, rfl, -, -⟩ := Lbl.swap_of_swapped hsw
  obtain ⟨t, ht, hed⟩ := (Option.any_eq_true _ _).1 ((ha m _ hm).resume hc hp _ hsw)
  have hkey : (Desired.nodePool np).key = (.nodepool, k) := congrArg _ hk
  have hbind : ls[m]?.bind Lbl.swapped = some (i, .nodePool np, expected, rev) := by
    rw [hm]
    exact hsw
  obtain ⟨u, d', hu, hd', hstamp⟩ := LostUpdates.change_of_swapped hr hbind ht hed
  rw [hkey] at hu hd'
  have hlt := (List.getElem?_eq_some_iff.1 hm).1
  obtain ⟨f, rfl⟩ := nodePool_of_performs hu
  obtain ⟨np0, hcur, rfl⟩ := Edit.makes_of_apply hd'
  obtain ⟨⟨r, v⟩, hentry, rfl⟩ := Option.map_eq_some_iff.1 hcur
  have hbefore : np0.paused = true := by
    rw [poolPaused, stored_flag hr (Nat.le_of_lt hlt) hentry] at hp
    simpa using hp
  rcases resume_of_performs hu with hkeep | ⟨c', p', rfl, hk'⟩
  · -- every other change keeps the flag
    have hrecord : Store.nodePoolTable.stamp (f np0) rev = Store.nodePoolTable.stamp np rev :=
      Record.nodePool.inj hstamp
    have hflags := congrArg NodePool.paused hrecord
    have hsame : (f np0).paused = np.paused := hflags
    rw [hkeep np0 hbefore, hpaused] at hsame
    cases hsame
  · exact ⟨i, _, c', p', rfl, ht, hk'⟩

/-- From the pause on the pool stays paused until an unpaused record commits. -/
theorem paused_until {n : Nat} (hn : ls[n]?.bind (Lbl.poolCommit k) = some true) (j : Nat)
    (hnj : n < j) (hj : j ≤ ls.length)
    (hno : ∀ m, n < m → m < j → ls[m]?.bind (Lbl.poolCommit k) ≠ some false) :
    poolPaused k (ls.take j) = true := by
  induction j with
  | zero => omega
  | succ j ih =>
    have hget : ls[j]? = some ls[j] := List.getElem?_eq_getElem hj
    generalize ls[j] = l at hget
    rw [take_succ_eq hget]
    rcases Nat.lt_or_eq_of_le (Nat.le_of_lt_succ hnj) with hlt | rfl
    · have hbefore := ih hlt (Nat.le_of_lt hj) fun m hm hmj => hno m hm (by omega)
      cases hc : l.poolCommit k with
      | none => rw [poolPaused_of_none hc, hbefore]
      | some b =>
        -- no unpaused record has committed so far
        have hne := hno j hlt (Nat.lt_succ_self j)
        rw [hget, Option.bind_some, hc] at hne
        rw [poolPaused_of_commit hc]
        cases b with
        | true => rfl
        | false => exact absurd rfl hne
    · rw [hget, Option.bind_some] at hn
      exact poolPaused_of_commit hn

/-- Without members ahead, a visit of the pool stands in a block that has been begun. -/
theorem begun_of_ahead {stage : Stage} (hk : ckey f.cl.name f.job.pool = k)
    (h : (ExecPos.pool f (.member view visited addr todo stage)).ahead k = []) :
    stage.opens view = false := by
  rw [ExecPos.ahead, if_pos hk] at h
  exact (begun_of_none h).1

/-- The place at a position of a paused stretch was in the same visit one position before. -/
theorem visit_before (hr : Stocked cfg ls c) {j : Nat} {l : Lbl} (hj : ls[j]? = some l) {stage : Stage}
    (h : cfg.place (ls.take (j + 1)) = .pool f (.member view visited addr todo stage))
    (hs : stage.opens view = false) :
    ∃ stage0, cfg.place (ls.take j) = .pool f (.member view visited addr todo stage0) := by
  have hmove := place_moves cfg hj
  rw [h] at hmove
  generalize hpos : ExecPos.pool f (.member view visited addr todo stage) = pos at hmove
  cases hmove with
  | crash | start t => cases hpos
  | other hl => exact ⟨stage, hpos.symm⟩
  | exec e =>
    have hne : stage ≠ .record := by
      rintro rfl
      cases hs
    exact same_visit (hr.driven.steps hj).issues hpos.symm hne

end Pausing

open Pausing

/-- A pause stops the rollout between nodes. In every run, on a store with any records, in which the
pool is paused only while no member of it is ahead of the executor, and in which the paused record is
not rewritten by seeding, by a bootstrap or by another tool: a snapshot, drain or upgrade call for the
pool after the pause belongs to the visit the executor was in when the pause committed, in which such a
call had been made before; or the rollout has been resumed in between. -/
theorem pause_stops {cfg : Settings} {k : String} {ls : List Lbl} {c : State}
    (hr : Stocked cfg ls c) (ha : Throughout (Pausing.Assumed cfg k) ls) {n q : Nat} {addr : String}
    (hn : ls[n]?.bind (Lbl.poolCommit k) = some true) (hnq : n < q)
    (hq : ls[q]?.bind Lbl.takesDown = some (k, addr)) :
    (∃ f view visited todo, ckey f.cl.name f.job.pool = k ∧ ∀ j, n ≤ j → j ≤ q →
      ∃ stage, cfg.place (ls.take j) = .pool f (.member view visited addr todo stage) ∧
        stage.opens view = false) ∨
    ∃ m i e c p, n < m ∧ m < q ∧ ls[m]? = some (.act i e) ∧
      Lbl.poolCommit k (.act i e) = some false ∧
      tasksAfter (ls.take m) i = some (.request (.resumeRollout c p)) ∧ ckey c p = k := by
  obtain ⟨l, hl, htd⟩ := Option.bind_eq_some_iff.1 hq
  have hlen : q < ls.length := (List.getElem?_eq_some_iff.1 hl).1
  by_cases hres : ∃ m, n < m ∧ m < q ∧ ls[m]?.bind (Lbl.poolCommit k) = some false
  · -- the first unpaused record after the pause is the work of a resume
    right
    classical
    obtain ⟨hnm, hmq, hm⟩ := Nat.find_spec hres
    have hpaused : poolPaused k (ls.take (Nat.find hres)) = true := by
      refine paused_until hn _ hnm (by omega) fun m' h1 h2 h3 => ?_
      exact Nat.find_min hres h2 ⟨h1, by omega, h3⟩
    obtain ⟨l', hl', hc⟩ := Option.bind_eq_some_iff.1 hm
    obtain ⟨i, e, c', p', rfl, ht, hk⟩ := resumed_by hr ha hl' hc hpaused
    exact ⟨_, i, e, c', p', hnm, hmq, hl', hc, ht, hk⟩
  · left
    have hpaused : ∀ j, n < j → j ≤ q → poolPaused k (ls.take j) = true := by
      intro j hnj hjq
      refine paused_until hn j hnj (by omega) fun m h1 h2 h3 => ?_
      exact hres ⟨m, h1, by omega, h3⟩
    obtain ⟨e, rfl⟩ := Lbl.takesDown_rollouts htd
    have hfrom := hr.driven.steps hl
    obtain ⟨f, view, visited, todo, stage, hk, hpos⟩ :=
      place_of_takesDown hfrom.coherent hfrom.issues htd
    -- backwards from the call: the executor has been in this visit ever since the pause
    have hback : ∀ d j, j + d = q → n < j →
        ∃ stage, cfg.place (ls.take j) = .pool f (.member view visited addr todo stage) ∧
          stage.opens view = false := by
      intro d
      induction d with
      | zero =>
        intro j hj hnj
        obtain rfl : j = q := by omega
        refine ⟨stage, hpos, ?_⟩
        have hahead := (none_ahead hr ha j (Nat.le_of_lt hlen)).1
          (hpaused j hnj (Nat.le_refl j))
        rw [hpos] at hahead
        exact begun_of_ahead hk hahead
      | succ d ih =>
        intro j hj hnj
        obtain ⟨s', hplace, hs'⟩ := ih (j + 1) (by omega) (by omega)
        have hget : ls[j]? = some ls[j] := List.getElem?_eq_getElem (by omega)
        obtain ⟨s, hs⟩ := visit_before hr hget hplace hs'
        refine ⟨s, hs, ?_⟩
        have hahead := (none_ahead hr ha j (by omega)).1 (hpaused j hnj (by omega))
        rw [hs] at hahead
        exact begun_of_ahead hk hahead
    refine ⟨f, view, visited, todo, hk, fun j hnj hjq => ?_⟩
    rcases Nat.lt_or_eq_of_le hnj with hlt | rfl
    · exact hback (q - j) j (by omega) hlt
    · -- the commit of the pause has not moved the executor
      obtain ⟨l', hl', hc⟩ := Option.bind_eq_some_iff.1 hn
      have hother : l'.ofExecutor = false := by
        obtain ⟨i, np, expected, rev, hsw, -, -⟩ := Lbl.swapped_of_poolCommit hc
        obtain ⟨op, rep, rfl, -, -⟩ := Lbl.swap_of_swapped hsw
        cases i with
        | rollouts =>
          rw [poolCommit_exec (hr.driven.steps hl').issues] at hc
          cases hc
        | _ => rfl
      rw [← place_succ_other hl' hother]
      exact hback (q - (n + 1)) (n + 1) (by omega) (Nat.lt_succ_self n)

/-- The pool is paused while its only node is being upgraded. -/
def Script.pausedInFlight : List Move :=
  armed ++ order ++ pass 12 (.working "v1.7.0" [node]) ++
    request (.pauseRollout "c" "controlplane") ++
    List.replicate 14 (.step .rollouts (.working "v1.8.0" [node]))

/-- The upgrade call comes after the pause and belongs to the block that the drain had begun. -/
theorem pausedInFlight_finishes :
    ∃ f view visited todo, ckey f.cl.name f.job.pool = ckey "c" "controlplane" ∧
      ∀ j, 36 ≤ j → j ≤ 38 → ∃ stage,
        Script.settings.place
          ((runScript Script.settings Script.pausedInFlight State.initial).1.take j) =
          .pool f (.member view visited "10.0.0.1" todo stage) ∧ stage.opens view = false := by
  have hpause : (runScript Script.settings Script.pausedInFlight State.initial).1[36]?.bind
      (Lbl.poolCommit (ckey "c" "controlplane")) = some true := by decide +kernel
  have hcall : (runScript Script.settings Script.pausedInFlight State.initial).1[38]?.bind
      Lbl.takesDown = some (ckey "c" "controlplane", "10.0.0.1") := by decide +kernel
  have hassumed : Throughout (Pausing.Assumed Script.settings (ckey "c" "controlplane"))
      (runScript Script.settings Script.pausedInFlight State.initial).1 := by decide +kernel
  rcases pause_stops (reaches_script Script.settings Script.pausedInFlight).stocked hassumed hpause
    (by decide) hcall with h | ⟨m, i, e, c, p, h1, h2, hm, hc, _⟩
  · exact h
  · -- nothing but the response to the pause lies between
    obtain rfl : m = 37 := by omega
    have hnone : (runScript Script.settings Script.pausedInFlight State.initial).1[37]?.bind
        (Lbl.poolCommit (ckey "c" "controlplane")) = none := by decide +kernel
    rw [hm, Option.bind_some, hc] at hnone
    cases hnone

/-- A pool of two nodes is paused while the first of them is being upgraded. -/
def Script.pausedBetween : List Move :=
  let second : NodeInfo := ⟨"n2", "10.0.0.2", "controlplane", "v1.30.0", true⟩
  run (.client 0) (.seed ⟨"c", "k", ["10.0.0.1"], [node, second]⟩) 30
      (.working "v1.7.0" [node, second]) ++
    request (.enableRollouts "c") ++ order ++ pass 12 (.working "v1.7.0" [node, second]) ++
    request (.pauseRollout "c" "controlplane") ++
    List.replicate 6 (.step .rollouts (.working "v1.8.0" [node, second])) ++
    List.replicate 4 (.step .rollouts (.working "v1.7.0" [node, second]))

/-- The first node is in flight when the pause commits; afterwards the second is drained, and no
record of the pool has committed since. -/
theorem pausedBetween_drains : ∃ (ls : List Lbl) (c : State) (n q : Nat),
    Reaches Script.settings ls c ∧ n < q ∧
    ls[n]?.bind (Lbl.poolCommit (ckey "c" "controlplane")) = some true ∧
    (ls.take n).filterMap Lbl.takesDown = [(ckey "c" "controlplane", "10.0.0.1")] ∧
    ls[q]?.bind Lbl.takesDown = some (ckey "c" "controlplane", "10.0.0.2") ∧
    (ls.drop (n + 1)).filterMap (Lbl.poolCommit (ckey "c" "controlplane")) = [] := by
  refine ⟨_, _, 39, 50, reaches_script Script.settings Script.pausedBetween, by decide, ?_⟩
  refine ⟨?_, ?_, ?_, ?_⟩
  · decide +kernel
  · decide +kernel
  · decide +kernel
  · decide +kernel

end Medea
