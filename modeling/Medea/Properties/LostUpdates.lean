import Medea.ControlPlane.History
import Medea.Properties.Revisions

/-!
# No lost update

Concurrent changes of desired records take effect one after the other. `no_lost_update` says of every
run of the control plane: each desired record that an editing task commits is its change applied to
the version stored just before, a pinned change is applied to the pinned revision only, and a call
that changes one record has committed exactly one write if it succeeds and none if it fails.

The argument: the task has read a version with its revision, and the swap succeeds only if the record
has that revision. A revision stands for one record for all time, so the version read is the version
replaced, whatever the other processes have done in between.
-/

set_option autoImplicit false

namespace Medea

open Medea.Interaction ProvisionReconciler

namespace LostUpdates

variable {key : EventKind × String} {t : Task} {d : Desired} {expected rev : Nat} {i : Who}

/-! ## Copies -/

/-- `Copy v v'`: `v'` is the stored record `v` as a read returns it, with observed fields. -/
inductive Copy : Record → Record → Prop
  | cluster (c : Cluster) (o : Option ClusterObserved) :
      Copy (.cluster c) (.cluster { c with observed := o })
  | machine (m : Machine) (o : Option MachineObserved) :
      Copy (.machine m) (.machine { m with observed := o })
  | same (v : Record) : Copy v v

theorem Copy.key_eq {v v' : Record} (h : Copy v v') : v'.key = v.key := by
  cases h with
  | cluster | machine | same => rfl

/-- A read of a desired record returns what is stored. -/
theorem found_entry {s : Store} {op : StoreOp} {rep : (Op.store op).Reply}
    {cur : Option Record} {rev : Nat}
    (hfit : (Access.call op rep).Fits s) (hf : Ev.found ⟨.store op, rep⟩ = some (key, cur, rev)) :
    (cur = none ∧ rev = 0 ∧ s.db.entry key = none) ∨
      ∃ v v', cur = some v' ∧ s.db.entry key = some (rev, v) ∧ Copy v v' := by
  cases rep with
  | error e => cases op <;> cases hf
  | ok val =>
    have hok := hfit.ok
    cases op with
    | getCluster cluster =>
      cases hf
      cases hok
      rw [Store.getCluster, DB.entry]
      cases s.db.clusters[cluster]? with
      | none => exact Or.inl ⟨rfl, rfl, rfl⟩
      | some c => exact Or.inr ⟨_, _, rfl, rfl, .cluster c _⟩
    | getNodePool cluster pool =>
      cases hf
      cases hok
      rw [Store.getNodePool, DB.entry]
      cases s.db.nodePools[ckey cluster pool]? with
      | none => exact Or.inl ⟨rfl, rfl, rfl⟩
      | some np => exact Or.inr ⟨_, _, rfl, rfl, .same _⟩
    | getMachine cluster addr =>
      cases hf
      cases hok
      rw [Store.getMachine, DB.entry]
      cases s.db.machines[ckey cluster addr]? with
      | none => exact Or.inl ⟨rfl, rfl, rfl⟩
      | some m => exact Or.inr ⟨_, _, rfl, rfl, .machine m _⟩
    | getHost cluster mac =>
      cases hf
      cases hok
      rw [Store.getHost, DB.entry]
      cases s.db.hosts[ckey cluster mac]? with
      | none => exact Or.inl ⟨rfl, rfl, rfl⟩
      | some h => exact Or.inr ⟨_, _, rfl, rfl, .same _⟩
    | _ => cases hf

/-- A change of a cluster does not look at its observed fields. -/
theorem cluster_blind {f : Cluster → Cluster} (h : t.performs key (.cluster f)) (c : Cluster)
    (o : Option ClusterObserved) :
    f { c with observed := o } = { f c with observed := o } := by
  cases t with
  | request req =>
    cases req with
    | createRollout req =>
      rcases h with ⟨-, h⟩ | ⟨-, h⟩
      · cases h
      · cases h
        rfl
    | registerHost req =>
      obtain ⟨-, role, h⟩ := h
      cases h
    | setClusterVersions | enableRollouts | disableRollouts | enableProvisioning
    | disableProvisioning =>
      obtain ⟨-, h⟩ := h
      cases h
      rfl
    | setNodePoolVersion | pauseRollout | resumeRollout =>
      obtain ⟨-, h⟩ := h
      cases h
    | _ => cases h
  | provisionPass => cases h
  | _ => cases h

/-- Whether a change is applied to the stored record or to a copy makes no difference to what is
stored. -/
theorem stamped_copy {u : Edit} (h : t.performs key u) {v v' : Record} (hc : Copy v v') (rev : Nat) :
    (u.apply (some v')).map (Desired.stamped rev) = (u.apply (some v)).map (Desired.stamped rev) := by
  cases hc with
  | same v => rfl
  | machine m o => cases u <;> rfl
  | cluster c o =>
    cases u with
    | cluster f =>
      simp only [Edit.apply, Option.map_some, Desired.stamped, cluster_blind h c o]
      rfl
    | _ => rfl

/-- A change is made to the record it was made for. -/
theorem key_of_apply {u : Edit} {cur : Option Record} (h : t.performs key u)
    (hcur : ∀ v, cur = some v → v.key = key) (hd : u.apply cur = some d) : d.key = key := by
  cases t with
  | request req =>
    cases req with
    | createRollout req =>
      rcases h with ⟨-, rfl⟩ | ⟨-, rfl⟩
      · rcases cur with _ | v
        · cases hd
        cases v <;> cases hd
        exact hcur _ rfl
      · rcases cur with _ | v
        · cases hd
        cases v <;> cases hd
        exact hcur _ rfl
    | registerHost req =>
      obtain ⟨rfl, role, rfl⟩ := h
      -- the names in the record are those of the request, also where there was none
      rcases cur with _ | v
      · cases hd
        rfl
      cases v <;> cases hd
      rw [Desired.key, Server.registeredHost]
      dsimp only
      split <;> rfl
    | setClusterVersions | enableRollouts | disableRollouts | enableProvisioning
    | disableProvisioning | setNodePoolVersion | pauseRollout | resumeRollout =>
      obtain ⟨-, rfl⟩ := h
      rcases cur with _ | v
      · cases hd
      cases v <;> cases hd
      exact hcur _ rfl
    | _ => cases h
  | provisionPass =>
    cases h with
    | bindMachine m =>
      rcases cur with _ | v
      · cases hd
        rfl
      cases v <;> cases hd
      exact hcur _ rfl
    | _ =>
      rcases cur with _ | v
      · cases hd
      cases v <;> cases hd
      exact hcur _ rfl
  | _ => cases h

/-! ## Swaps in runs -/

section Chronicles

variable {ls : List Lbl} (h : Chronicle ls) {key : EventKind × String} {cur : Option Record}

include h

/-- What a successful swap expects at the revision of an earlier read is what was read. -/
theorem found_at_swap {m n : Nat} {e : Ev} {expected : Nat} (hm : ls[m]? = some (.act i e))
    (hf : Ev.found e = some (key, cur, expected)) (hexp : (storeAt (ls.take n)).Expects key expected) :
    (cur = none ∧ (storeAt (ls.take n)).db.entry key = none) ∨
      ∃ v v', cur = some v' ∧ (storeAt (ls.take n)).db.entry key = some (expected, v) ∧
        Copy v v' := by
  obtain ⟨op, rep⟩ := e
  cases op with
  | store op =>
    rcases found_entry (h.fits hm) hf with ⟨rfl, rfl, hnone⟩ | ⟨v, v', rfl, hthen, hcopy⟩
    · -- revision zero is expected where there is no record
      rcases hexp with ⟨hnow, _⟩ | ⟨v, hnow⟩
      · exact Or.inl ⟨rfl, hnow⟩
      · exact absurd (h.entry_pos hnow) (Nat.lt_irrefl 0)
    · rcases hexp with ⟨_, rfl⟩ | ⟨w, hnow⟩
      · exact absurd (h.entry_pos hthen) (Nat.lt_irrefl 0)
      · obtain ⟨_, rfl⟩ := h.entry_unique hthen hnow
        exact Or.inr ⟨v, v', rfl, hnow, hcopy⟩
  | _ => cases hf

/-- The key of what an editing task swaps in is the key it has read. -/
theorem key_of_found {m : Nat} {e : Ev} {expected : Nat} (hm : ls[m]? = some (.act i e))
    (hf : Ev.found e = some (key, cur, expected)) (v : Record) (hv : cur = some v) : v.key = key := by
  obtain ⟨op, rep⟩ := e
  cases op with
  | store op =>
    rcases found_entry (h.fits hm) hf with ⟨rfl, _, _⟩ | ⟨v0, v', rfl, hthen, hcopy⟩
    · cases hv
    · cases hv
      rw [hcopy.key_eq]
      exact ((Revisions.of_history (h.take m)).own _ _ _ hthen).1
  | _ => cases hf

/-- A change of something that was read, swapped in at the revision it was read with, is a change of
the version stored just before. -/
theorem change_applies {m n : Nat} {i i' : Who} {e : Ev} {u : Edit}
    (hn : ls[n]?.bind Lbl.swapped = some (i, d, expected, rev)) (hm : ls[m]? = some (.act i' e))
    (hf : Ev.found e = some (key, cur, expected)) (hp : t.performs key u) (ha : u.apply cur = some d) :
    t.performs d.key u ∧ (storeAt (ls.take (n + 1))).db.entry d.key =
      (u.apply (((storeAt (ls.take n)).db.entry d.key).map Prod.snd)).map
        (fun d' => (rev, d'.stamped rev)) := by
  obtain ⟨hexp, hnext⟩ := h.entry_of_swapped hn
  have hkey : d.key = key := key_of_apply hp (key_of_found h hm hf) ha
  subst hkey
  refine ⟨hp, ?_⟩
  rw [hnext]
  -- the version stored just before is the version that was read
  rcases found_at_swap h hm hf hexp with ⟨rfl, hnone⟩ | ⟨v, v', rfl, hnow, hcopy⟩
  · rw [hnone, Option.map_none, ha]
    rfl
  · have hsame := stamped_copy hp hcopy rev
    rw [ha] at hsame
    rw [hnow, Option.map_some]
    cases hu : u.apply (some v) with
    | none =>
      rw [hu] at hsame
      cases hsame
    | some d' =>
      rw [hu, Option.map_some, Option.map_some, Option.some.injEq] at hsame
      rw [Option.map_some, hsame]

end Chronicles

variable {cfg : Settings} {ls : List Lbl} {c : State}

/-- What an editing task swaps in is its change of the version stored just before, and a pinned task
swaps on top of the pinned revision. -/
theorem swap_applies (hr : Stocked cfg ls c) {n : Nat}
    (hn : ls[n]?.bind Lbl.swapped = some (i, d, expected, rev))
    (ht : tasksAfter (ls.take n) i = some t) (hed : t.edits = true) :
    ∃ u, t.performs d.key u ∧
      (storeAt (ls.take (n + 1))).db.entry d.key =
        (u.apply (((storeAt (ls.take n)).db.entry d.key).map Prod.snd)).map
          (fun d' => (rev, d'.stamped rev)) ∧
      (t.pin ≠ 0 → ∃ v, (storeAt (ls.take n)).db.entry d.key = some (t.pin, v)) := by
  obtain ⟨l, hl, hsw⟩ := Option.bind_eq_some_iff.1 hn
  obtain ⟨op, rep, rfl, hop, -⟩ := Lbl.swap_of_swapped hsw
  obtain ⟨es, next, hwork, hsteps⟩ := hr.work_at hl ht
  have hback : t.backs es (.store op) := (cfg.task_edits hed).of_steps hsteps rep
  obtain ⟨hpin, e, he, key, cur, u, hf, hp, ha⟩ := hback d expected hop
  -- an event of the task is a label of the run before this one
  obtain ⟨m, -, hm⟩ := before_of_work hwork he
  obtain ⟨hp', hnext⟩ := change_applies hr.history.1 hn hm hf hp ha
  refine ⟨u, hp', hnext, ?_⟩
  intro hpos
  rw [← hpin hpos]
  rcases (hr.history.1.entry_of_swapped hn).1 with ⟨_, hzero⟩ | hv
  · exact absurd ((hpin hpos).symm.trans hzero) hpos
  · exact hv

/-- A record that an editing task swaps in is made by one of its changes of the stored one. -/
theorem change_of_swapped (hr : Stocked cfg ls c) {n : Nat}
    (hn : ls[n]?.bind Lbl.swapped = some (i, d, expected, rev))
    (ht : tasksAfter (ls.take n) i = some t) (hed : t.edits = true) :
    ∃ u d', t.performs d.key u ∧
      u.apply (((storeAt (ls.take n)).db.entry d.key).map Prod.snd) = some d' ∧
      d'.stamped rev = d.stamped rev := by
  obtain ⟨u, hu, hafter, -⟩ := swap_applies hr hn ht hed
  rw [(hr.history.1.entry_of_swapped hn).2] at hafter
  obtain ⟨d', hd', heq⟩ := Option.map_eq_some_iff.1 hafter.symm
  exact ⟨u, d', hu, hd', (Prod.mk.inj heq).2⟩

end LostUpdates

/-- Concurrent changes of desired records are not lost. In every run of the control plane, a desired
record that an editing task swaps in is one of its changes applied to the version stored just before,
and a task that is pinned to a revision swaps only on top of that revision. The response to a call
that changes one record tells whether it has committed exactly one write or none, and so does the
result of the single changes of the provisioning reconciler. -/
theorem no_lost_update (cfg : Settings) {ls : List Lbl} {c : State} (hr : Reaches cfg ls c) :
    (∀ n i t d expected rev, ls[n]?.bind Lbl.swapped = some (i, d, expected, rev) →
      tasksAfter (ls.take n) i = some t → t.edits = true →
      ∃ u, t.performs d.key u ∧
        (storeAt (ls.take (n + 1))).db.entry d.key =
          (u.apply (((storeAt (ls.take n)).db.entry d.key).map Prod.snd)).map
            (fun d' => (rev, d'.stamped rev)) ∧
        (t.pin ≠ 0 → ∃ v, (storeAt (ls.take n)).db.entry d.key = some (t.pin, v))) ∧
    (∀ n i req result, ls[n]? = some (.act i ⟨.respond result, ()⟩) →
      tasksAfter (ls.take n) i = some (.request req) → req.single = true →
      ∃ es, work (ls.take n) i = some (.request req, es) ∧
        es.countP Ev.commits = returned result) ∧
    (∀ cluster pool mac addr es result,
      (ProvisionReconciler.removeMember cluster pool addr).Steps es (.done result) ∨
        (ProvisionReconciler.releaseHost cluster mac).Steps es (.done result) ∨
        (ProvisionReconciler.startProvisioning cluster mac).Steps es (.done result) →
      es.countP Ev.commits = returned result) := by
  refine ⟨?_, ?_, ?_⟩
  · intro n i t d expected rev hn ht hed
    exact LostUpdates.swap_applies hr.stocked hn ht hed
  · intro n i req result hn ht hone
    obtain ⟨es, next, hwork, hsteps⟩ := hr.stocked.work_at hn ht
    exact ⟨es, hwork, Server.handle_settled cfg.server hone hsteps⟩
  · intro cluster pool mac addr es result h
    rcases h with h | h | h
    · exact (removeMember_once cluster pool addr).of_steps h
    · exact (editHost_once cluster mac _).of_steps h
    · exact (startProvisioning_once cluster mac).of_steps h

/-- A pause falls between the read and the write of an edit of the same pool: the write conflicts, and
the second attempt keeps the pause. -/
def Script.raced : List Move :=
  armed ++ [.start (.client 1)
      (.request (.setNodePoolVersion "c" "controlplane" (some "v1.9.0") 0)),
    .step (.client 1) (.working "v1.7.0" [node])] ++
    request (.pauseRollout "c" "controlplane") ++
    List.replicate 20 (.step (.client 1) (.working "v1.7.0" [node]))

set_option maxRecDepth 100000 in
theorem raced_kept : ∃ np rev,
    (storeAt ((runScript Script.settings Script.raced State.initial).1.take 21)).db.entry
      (.nodepool, ckey "c" "controlplane") = some (rev, .nodePool np) ∧
    np.paused = true ∧ np.desired = some ⟨"v1.9.0"⟩ := by
  have hrun := (no_lost_update Script.settings (reaches_script Script.settings Script.raced)).1
  have hat : ((runScript Script.settings Script.raced State.initial).1[20]?.bind Lbl.swapped).map
      (fun w => (w.1, w.2.1.key)) = some (.client 1, (.nodepool, ckey "c" "controlplane")) := by
    decide +kernel
  obtain ⟨⟨i, d, expected, rev⟩, hswap, hwho⟩ := Option.map_eq_some_iff.1 hat
  obtain ⟨rfl, hkey⟩ : i = .client 1 ∧ d.key = (.nodepool, ckey "c" "controlplane") := by
    simpa using hwho
  obtain ⟨u, ⟨-, rfl⟩, hafter, -⟩ := hrun 20 (.client 1)
    (.request (.setNodePoolVersion "c" "controlplane" (some "v1.9.0") 0)) d expected rev hswap
    (by decide +kernel) rfl
  -- the version just before is the one that the pause has written
  have hbefore : ((storeAt ((runScript Script.settings Script.raced State.initial).1.take
      20)).db.nodePools[ckey "c" "controlplane"]?).map (·.paused) = some true := by decide +kernel
  obtain ⟨np, hnp, hpaused⟩ := Option.map_eq_some_iff.1 hbefore
  rw [hkey, DB.entry_of_nodePool hnp] at hafter
  exact ⟨_, rev, hafter, hpaused, rfl⟩

end Medea
