import Medea.ControlPlane.Places
import Medea.ControlPlane.Jobs

/-!
# Deleted clusters

Deleting a cluster removes all of its records in one transaction. The executor and the bootstrap
reconciler work on copies and write them back whatever the store holds by then: in
`deletedInFlight_returns` the cluster is deleted during a rollout, and the end of the rollout brings
its job back.

`deleted_stays` says when a deletion is final. If at the deletion no rollout pass has the cluster in
hand or ahead, and no other task in progress has read a record of it, then there is no record of the
cluster until a task that brings one of its own, from outside the store. A bootstrap pass may have
listed the cluster, because it reads each record again before it works on it.

The argument follows what is left of the programs. After the deletion no read returns a record of the
cluster, so the tasks follow the discipline of leaving it alone, and what follows this discipline and
reads no record of the cluster writes none.
-/

set_option autoImplicit false
set_option maxRecDepth 100000

namespace Medea

open Medea.Interaction Discipline

/-! ## Records of a cluster -/

/-- The cluster of the record that a call writes. -/
def StoreOp.writesFor : StoreOp → Option String
  | .putClusterDesired cl _ => some cl.name
  | .putNodePoolDesired np _ => some np.cluster
  | .putMachineDesired m _ => some m.cluster
  | .putHostDesired h _ => some h.cluster
  | .putMachineRollout r => some r.cluster
  | .putClusterRollout r => some r.cluster
  | .putClusterBootstrap cb => some cb.cluster
  | .putRolloutJob job => some job.cluster
  | _ => none

/-- The store has no record of the cluster. -/
structure Store.Lacks (c : String) (s : Store) : Prop where
  clusters : Bucket.Holds (fun _ cl => cl.name ≠ c) s.db.clusters
  nodePools : Bucket.Holds (fun _ np => np.cluster ≠ c) s.db.nodePools
  machines : Bucket.Holds (fun _ m => m.cluster ≠ c) s.db.machines
  hosts : Bucket.Holds (fun _ h => h.cluster ≠ c) s.db.hosts
  clusterRollouts : Bucket.Holds (fun _ r => r.cluster ≠ c) s.db.clusterRollouts
  machineRollouts : Bucket.Holds (fun _ r => r.cluster ≠ c) s.db.machineRollouts
  jobs : Bucket.Holds (fun _ job => job.cluster ≠ c) s.db.jobs
  bootstraps : Bucket.Holds (fun _ cb => cb.cluster ≠ c) s.db.bootstraps

/-- The event has returned a record of the cluster. -/
def Ev.shows (c : String) : Ev → Bool
  | ⟨.store (.getCluster _), .ok (some cl, _)⟩ => cl.name == c
  | ⟨.store .listClusters, .ok cls⟩ => cls.any (·.name == c)
  | ⟨.store (.getNodePool _ _), .ok (some np, _)⟩ => np.cluster == c
  | ⟨.store (.getMachine _ _), .ok (some m, _)⟩ => m.cluster == c
  | ⟨.store (.getHost _ _), .ok (some h, _)⟩ => h.cluster == c
  | ⟨.store (.getClusterBootstrap _), .ok (some cb)⟩ => cb.cluster == c
  | ⟨.store .listClusterBootstraps, .ok cbs⟩ => cbs.any (·.cluster == c)
  | _ => false

/-- The events of a task that commit it to a cluster: all of them, but for the listing that a
bootstrap pass begins with. -/
def Task.evidence (t : Task) (es : Trace medeaSig) : Trace medeaSig :=
  if t = .bootstrapPass then es.tail else es

/-- The process that a label starts. -/
def Lbl.starter : Lbl → Option Who
  | .start i _ => some i
  | _ => none

/-- The label is an operation of a task that brings records of the cluster of its own: a creation, a
seeding, or a job written by hand. -/
def Lbl.founds (c : String) (past : List Lbl) : Lbl → Bool
  | .act i _ => (tasksAfter past i).any fun t => t.founds.contains c
  | _ => false

/-- The discipline of leaving a cluster alone. -/
def Discipline.sparing (c : String) : Discipline where
  named a := a ≠ c
  guard := none
  plain h := nomatch h
  fresh := False

namespace Store

variable {c : String} {s : Store}

theorem lacks_iff : s.Lacks c ↔ s.Each fun _ v => v.clusterName ≠ c := by
  constructor
  · rintro h ⟨kind, k⟩ r v hv
    cases kind <;> obtain ⟨x, hx, heq⟩ := Option.map_eq_some_iff.1 hv <;> cases heq
    exacts [h.clusters k x hx, h.nodePools k x hx, h.machines k x hx, h.hosts k x hx,
      h.machineRollouts k x hx, h.clusterRollouts k x hx, h.jobs k x hx, h.bootstraps k x hx]
  · intro h
    exact
      { clusters := fun _ _ hv => h _ _ _ (DB.entry_of_cluster hv)
        nodePools := fun _ _ hv => h _ _ _ (DB.entry_of_nodePool hv)
        machines := fun _ _ hv => h _ _ _ (DB.entry_of_machine hv)
        hosts := fun _ _ hv => h _ _ _ (DB.entry_of_host hv)
        clusterRollouts := fun _ _ hv => h _ _ _ (DB.entry_of_clusterRollout hv)
        machineRollouts := fun _ _ hv => h _ _ _ (DB.entry_of_machineRollout hv)
        jobs := fun _ _ hv => h _ _ _ (DB.entry_of_job hv)
        bootstraps := fun _ _ hv => h _ _ _ (DB.entry_of_bootstrap hv) }

theorem Lacks.of_db {s' : Store} (h : s.Lacks c) (hdb : s'.db = s.db) : s'.Lacks c :=
  lacks_iff.2 ((lacks_iff.1 h).of_db hdb)

/-- A call that writes no record of the cluster. -/
theorem Lacks.exec (h : s.Lacks c) (op : StoreOp) (hop : op.writesFor ≠ some c) :
    (op.exec s).2.Lacks c := by
  refine lacks_iff.2 ((lacks_iff.1 h).exec op ?_)
  rintro _ key v - hmove rfl
  refine hop ?_
  cases op <;> cases hmove <;> rfl

/-- An access that writes no record of the cluster. -/
theorem Lacks.after (h : s.Lacks c) {op : StoreOp} {rep : Except StoreError op.Value}
    (hop : op.writesFor ≠ some c) : ((Access.call op rep).after s).Lacks c := by
  cases rep with
  | error e => exact h
  | ok v => exact h.exec op hop

/-- A deletion leaves no record of the cluster. -/
theorem Lacks.of_delete (hk : s.WellKeyed) {v : (StoreOp.deleteCluster c).Value}
    (hv : ((StoreOp.deleteCluster c).exec s).1 = .ok v) :
    ((StoreOp.deleteCluster c).exec s).2.Lacks c := by
  refine lacks_iff.2 ?_
  rintro key r x hentry rfl
  have hmoved : (if goesWith x.clusterName key then none else s.db.entry key) = some (r, x) := by
    rw [← hentry]
    exact congrArg (fun R => R.entry key) (StoreOp.registry_exec hv).symm
  obtain ⟨hnot, hold⟩ := Option.ite_none_left_eq_some.1 hmoved
  rw [← hk key r x hold] at hnot
  exact hnot (goesWith_key x)

end Store

namespace Deletion

variable {cfg : Settings} {c : String} {past : List Lbl} {l : Lbl}

/-! ## Reads -/

theorem clusterOk_sparing {cl : Cluster} (h : cl.name ≠ c) : (sparing c).ClusterOk cl where
  named := h
  down hD := nomatch hD

/-- A store in order without records of the cluster is in order for the discipline. -/
theorem storeOk_sparing {s : Store} (h : any.StoreOk s) (hl : s.Lacks c) :
    (sparing c).StoreOk s where
  keyed := h.keyed
  records := by
    intro key r v hv
    have hne := Store.lacks_iff.1 hl key r v hv
    cases v with
    | cluster cl => exact clusterOk_sparing hne
    | nodePool np => exact ⟨hne, False.elim⟩
    | host h' => exact ⟨hne, False.elim⟩
    | machine m => exact hne
    | clusterBootstrap cb => exact hne
    | _ => trivial

/-- What an access finds in a store in order. -/
theorem reads_of_fits {D : Discipline} {s : Store} {op : StoreOp} {rep : Except StoreError op.Value}
    (h : D.StoreOk s) (hf : (Access.call op rep).Fits s) : D.reads ⟨.store op, rep⟩ := by
  rcases hf with rfl | ⟨hw, msg, rfl⟩
  · exact h.reads op
  · cases op <;> trivial

/-- An event in order that shows no record of the cluster. -/
theorem reads_of_shows {e : Ev} (h : any.reads e) (hs : e.shows c = false) :
    (sparing c).reads e := by
  obtain ⟨op, rep⟩ := e
  cases op with
  | store op =>
    cases op with
    | getCluster name =>
      rcases rep with err | ⟨_ | cl, rev⟩
      · trivial
      · trivial
      · exact ⟨h.1, clusterOk_sparing (by simpa [Ev.shows] using hs)⟩
    | listClusters =>
      rcases rep with err | cls
      · trivial
      · intro cl hcl
        have hne : ∀ x ∈ cls, x.name ≠ c := by simpa [Ev.shows] using hs
        exact clusterOk_sparing (hne cl hcl)
    | getNodePool cluster name =>
      rcases rep with err | ⟨_ | np, rev⟩
      · trivial
      · trivial
      · have hne : np.cluster ≠ c := by simpa [Ev.shows] using hs
        exact ⟨h.1, hne, False.elim⟩
    | getMachine cluster addr =>
      rcases rep with err | ⟨_ | m, rev⟩
      · trivial
      · trivial
      · have hne : m.cluster ≠ c := by simpa [Ev.shows] using hs
        exact ⟨h.1, hne⟩
    | getHost cluster mac =>
      rcases rep with err | ⟨_ | h', rev⟩
      · trivial
      · trivial
      · have hne : h'.cluster ≠ c := by simpa [Ev.shows] using hs
        exact ⟨h.1, hne, False.elim⟩
    | getClusterBootstrap cluster =>
      rcases rep with err | (_ | cb)
      · trivial
      · trivial
      · have hne : cb.cluster ≠ c := by simpa [Ev.shows] using hs
        exact hne
    | listClusterBootstraps =>
      rcases rep with err | cbs
      · trivial
      · have hne : ∀ x ∈ cbs, x.cluster ≠ c := by simpa [Ev.shows] using hs
        exact hne
    | _ => trivial
  | _ => trivial

/-! ## The other tasks -/

/-- What is left of the tasks in progress leaves the cluster alone, as long as no record of it is
read. -/
def Spared (cfg : Settings) (c : String) (past : List Lbl) : Prop :=
  ∀ i t es, i ≠ .rollouts → work past i = some (t, es) → c ∉ t.founds →
    ∀ p, (cfg.task t).Steps es p → (Discipline.sparing c).Orderly t p

theorem task_spares {t : Task} (ht : t ≠ .rolloutPass) (hf : c ∉ t.founds) :
    (sparing c).Orderly t (cfg.task t) := by
  refine cfg.task_follows ht ?_
  rintro a ha rfl
  exact hf ha

/-- One more label; what a task reads with it is no record of the cluster. -/
theorem spared_snoc (h : Spared cfg c past) (hmay : ∀ i t, l = .start i t → i.may t = true)
    (hread : ∀ i e, l = .act i e → (sparing c).reads e) :
    Spared cfg c (past ++ [l]) := by
  intro i t es hi hw hf p hp
  rw [work_snoc] at hw
  cases l with
  | crash => cases hw
  | start j t' =>
    by_cases hj : i = j
    · -- the task begins now
      subst hj
      simp only [workNext, Function.update_self, Option.some.injEq, Prod.mk.injEq] at hw
      obtain ⟨rfl, rfl⟩ := hw
      rw [hp.of_nil]
      have hmay' := hmay i t' rfl
      exact task_spares (fun ht => hi ((Settings.may_rolloutPass hmay').1 ht)) hf
    · simp only [workNext, Function.update_of_ne hj] at hw
      exact h i t es hi hw hf p hp
  | act j e =>
    by_cases hj : i = j
    · subst hj
      simp only [workNext, Function.update_self, Option.map_eq_some_iff, Prod.mk.injEq] at hw
      obtain ⟨⟨t', es'⟩, hw, rfl, rfl⟩ := hw
      obtain ⟨next, hs, rfl⟩ := hp.snoc_inv
      exact (h i t' es' hi hw hf _ hs).2 e.reply (hread i e rfl)
    · simp only [workNext, Function.update_of_ne hj] at hw
      exact h i t es hi hw hf p hp

/-- What follows the discipline writes no record of the cluster. -/
theorem writesFor_of_writes {t : Task} {op : StoreOp}
    (h : (sparing c).writes t (.store op)) : op.writesFor ≠ some c := by
  intro hc
  cases op with
  | putClusterDesired cl expected =>
    rcases h with hok | ⟨hne, -⟩
    · exact hok.named (Option.some.inj hc)
    · exact hne (Option.some.inj hc)
  | putNodePoolDesired | putHostDesired => exact h.named (Option.some.inj hc)
  | putMachineDesired | putClusterBootstrap => exact h (Option.some.inj hc)
  | putRolloutJob job => exact h.1 (Option.some.inj hc)
  | putMachineRollout | putClusterRollout => exact h
  | _ => cases hc

/-! ## The executor -/

/-- A rollout pass has nothing of the cluster in hand or ahead. -/
structure Clear (c : String) (pos : ExecPos) : Prop where
  ahead : ∀ cl ∈ pos.pending, cl.name ≠ c
  inHand : ∀ f ∈ pos.started, f.cl.name ≠ c
  jobs : ∀ job ∈ pos.jobsHeld, job.cluster ≠ c

instance (c : String) (pos : ExecPos) : Decidable (Clear c pos) :=
  decidable_of_iff ((∀ cl ∈ pos.pending, cl.name ≠ c) ∧ (∀ f ∈ pos.started, f.cl.name ≠ c) ∧
    ∀ job ∈ pos.jobsHeld, job.cluster ≠ c)
    ⟨fun h => ⟨h.1, h.2.1, h.2.2⟩, fun h => ⟨h.ahead, h.inHand, h.jobs⟩⟩

theorem clear_idle : Clear c .idle where
  ahead _ h := absurd h List.not_mem_nil
  inHand _ h := by cases h
  jobs _ h := absurd h List.not_mem_nil

theorem clear_clusters : Clear c .clusters where
  ahead _ h := absurd h List.not_mem_nil
  inHand _ h := by cases h
  jobs _ h := absurd h List.not_mem_nil

section Executor

variable {x : RolloutExecutor} {pos : ExecPos} {e : Ev} {s : Store}

/-- The jobs that a store without records of the cluster lists. -/
theorem listed_jobs {a : String} {jobs : List Rollout} (hl : s.Lacks c)
    (hf : (Access.call (.listRolloutJobs a) (.ok jobs)).Fits s) : ∀ job ∈ jobs, job.cluster ≠ c := by
  intro job hjob
  have hval := hf.ok
  cases hval
  obtain ⟨k, hget, -⟩ := Bucket.mem_listByCluster hjob
  exact hl.jobs k job hget

/-- A step of the executor over a store without records of the cluster. -/
theorem clear_next (h : Clear c pos) (hop : x.issues pos = some e.op)
    (hread : (sparing c).reads e)
    (hjobs : ∀ a jobs, e = ev (.store (.listRolloutJobs a)) (.ok jobs) →
      ∀ job ∈ jobs, job.cluster ≠ c) : Clear c (x.next pos e) where
  ahead cl hcl := by
    rcases RolloutExecutor.pending_next hop hcl with hbefore | ⟨cls, rfl, hmem⟩
    · exact h.ahead cl hbefore
    · exact (hread cl hmem).named
  inHand f hf := by
    rcases RolloutExecutor.started_next hop hf with hbefore | ⟨rfl, -⟩
    · exact h.inHand f hbefore
    · exact h.ahead f.cl List.mem_cons_self
  jobs job hjob := by
    rcases RolloutExecutor.jobsHeld_next hop with hsuffix | ⟨a, jobs, he, hsuffix⟩
    · exact h.jobs job (hsuffix.subset hjob)
    · exact hjobs a jobs he job (hsuffix.subset hjob)

/-- What the executor writes belongs to its job in hand, or to the cluster of it. -/
theorem writesFor_of_clear {op : StoreOp} (h : Clear c pos) (hcoh : pos.Coherent)
    (hop : x.issues pos = some (.store op)) : op.writesFor ≠ some c := by
  intro hc
  cases pos with
  | markRunning f | markRunningK8s f | reject f msg =>
    cases hop
    exact h.jobs f.job List.mem_cons_self (Option.some.inj hc)
  | pool f pos =>
    cases pos with
    | returned result =>
      cases hop
      refine h.jobs f.job List.mem_cons_self ?_
      cases result <;> exact Option.some.inj hc
    | member view visited addr todo stage =>
      have hview : view.cluster = f.cl.name := hcoh.2.2.1.cluster
      have hne : view.cluster ≠ c := hview ▸ h.inHand f rfl
      cases stage with
      | markDraining | markUpgrading | markWaiting | markDone | markFailed =>
        cases hop
        exact hne (Option.some.inj hc)
      | _ => cases hop <;> cases hc
    | _ => cases hop <;> cases hc
  | k8s f pos =>
    cases pos with
    | returned result =>
      cases hop
      refine h.jobs f.job List.mem_cons_self ?_
      cases result <;> exact Option.some.inj hc
    | start | settle =>
      cases hop
      exact h.inHand f rfl (Option.some.inj hc)
    | _ => cases hop
  | _ => cases hop <;> cases hc

end Executor

/-! ## Runs -/

/-- When the deletion of the cluster commits, no rollout pass has it in hand or ahead, and no other
task in progress has read a record of it. -/
structure Quiet (cfg : Settings) (c : String) (past : List Lbl) : Prop where
  rollouts : Clear c (cfg.place past)
  others : ∀ i t es, i ≠ .rollouts → work past i = some (t, es) →
    ¬(cfg.task t).Steps es (.done ()) → ∀ e ∈ t.evidence es, Ev.shows c e = false

/-- The steps of the runs considered. -/
def Assumed (cfg : Settings) (c : String) (past : List Lbl) (l : Lbl) : Prop :=
  l.removesCluster = some c → Quiet cfg c past

/-- A run is quiet if the processes that have been started are. -/
theorem quiet_of_started (hclear : Clear c (cfg.place past))
    (h : ∀ i ∈ past.filterMap Lbl.starter, i ≠ .rollouts → ∀ w ∈ work past i,
      ∀ e ∈ w.1.evidence w.2, Ev.shows c e = false) : Quiet cfg c past where
  rollouts := hclear
  others i t es hi hw _ := by
    have hstart : i ∈ past.filterMap Lbl.starter :=
      List.mem_filterMap.2 ⟨.start i t, start_of_work hw, rfl⟩
    exact h i hstart hi (t, es) hw

variable {ls : List Lbl} {s : State}

/-- The reads of a run are in order. -/
theorem reads_of_run (hr : Reaches cfg ls s) {n : Nat} {i : Who} {e : Ev}
    (hn : ls[n]? = some (.act i e)) : any.reads e := by
  obtain ⟨op, rep⟩ := e
  cases op with
  | store op => exact reads_of_fits (storeOk_any (storeAt_wellKeyed _)) (hr.fits hn)
  | _ => trivial

/-- From then on what the tasks have in progress spares the cluster. -/
theorem spared_of_quiet (hr : Reaches cfg ls s) {n : Nat} (h : Quiet cfg c (ls.take n)) :
    Spared cfg c (ls.take n) := by
  intro i t es hi hw hf p hp
  by_cases hdone : (cfg.task t).Steps es (.done ())
  · -- nothing is left of a task that has ended
    rw [hp.unique hdone]
    trivial
  have hreads : ∀ e ∈ t.evidence es, (sparing c).reads e := by
    intro e he
    have hmem : e ∈ es := by
      rw [Task.evidence] at he
      split at he
      · exact List.mem_of_mem_tail he
      · exact he
    obtain ⟨m, hm⟩ := List.getElem?_of_mem (List.mem_of_mem_take (mem_of_work hw hmem))
    exact reads_of_shows (reads_of_run hr hm) (h.others i t es hi hw hdone e he)
  have ht : t ≠ .rolloutPass := by
    intro ht
    obtain ⟨m, hm⟩ := List.getElem?_of_mem (List.mem_of_mem_take (start_of_work hw))
    exact hi ((Settings.may_rolloutPass (hr.may hm)).1 ht)
  rw [Task.evidence] at hreads
  split at hreads
  next hboot =>
    subst hboot
    cases es with
    | nil =>
      rw [hp.of_nil]
      exact task_spares ht hf
    | cons e es => exact cfg.bootstrapPass_listed hp hreads
  next => exact hp.within (task_spares ht hf) hreads

/-- The store, the tasks and the executor are free of the cluster. -/
structure Gone (cfg : Settings) (c : String) (past : List Lbl) : Prop where
  store : (storeAt past).Lacks c
  tasks : Spared cfg c past
  rollouts : Clear c (cfg.place past)

/-- The deletion takes effect. -/
theorem gone_of_removed (hr : Reaches cfg ls s) {n : Nat} {l : Lbl} (hn : ls[n]? = some l)
    (hl : l.removesCluster = some c) (hq : Quiet cfg c (ls.take n)) :
    Gone cfg c (ls.take (n + 1)) := by
  obtain ⟨i, v, rfl⟩ : ∃ i v, l = .act i ⟨.store (.deleteCluster c), .ok v⟩ := by
    unfold Lbl.removesCluster at hl
    split at hl
    · cases hl
      exact ⟨_, _, rfl⟩
    · cases hl
  have hi : i ≠ .rollouts := by
    rintro rfl
    have hof := RolloutExecutor.issues_ofRollouts (hr.driven.steps hn).issues
    cases hof
  refine ⟨?_, ?_, ?_⟩
  · rw [storeAt_succ hn]
    exact Store.Lacks.of_delete (storeAt_wellKeyed _) (hr.fits hn).ok
  · rw [take_succ_eq hn]
    refine spared_snoc (spared_of_quiet hr hq) (fun i' t he => ?_) ?_
    · cases he
    · rintro i' e ⟨⟩
      trivial
  · rw [place_succ_other hn (Lbl.ofExecutor_act hi)]
    exact hq.rollouts

section Step

variable (hr : Reaches cfg ls s) {n : Nat} {l : Lbl} (hn : ls[n]? = some l)
  (h : Gone cfg c (ls.take n))
include hr hn h

/-- While the cluster is away, no answer shows it. -/
theorem reads_of_gone {i : Who} {e : Ev} (hl : l = .act i e) : (sparing c).reads e := by
  subst hl
  obtain ⟨op, rep⟩ := e
  have hstore := storeOk_sparing (storeOk_any (storeAt_wellKeyed _)) h.store
  cases op with
  | store op => exact reads_of_fits hstore (hr.fits hn)
  | _ => trivial

theorem lacks_succ (hl : l.founds c (ls.take n) = false) : (storeAt (ls.take (n + 1))).Lacks c := by
  rw [storeAt_succ hn]
  cases l with
  | crash => exact h.store.of_db rfl
  | start i t => exact h.store
  | act i e =>
    obtain ⟨op, rep⟩ := e
    cases op with
    | store op =>
      refine h.store.after ?_
      by_cases hi : i = .rollouts
      · subst hi
        have hfrom := hr.driven.steps hn
        exact writesFor_of_clear h.rollouts hfrom.coherent hfrom.issues
      · -- another task, which leaves the cluster alone unless it is to found it
        obtain ⟨t, es, next, hw, hs⟩ := System.work_of_run hr hn
        have htask : tasksAfter (ls.take n) i = some t := by
          rw [tasksAfter_eq_work, hw]
          rfl
        have hf : c ∉ t.founds := by
          have hany : (tasksAfter (ls.take n) i).any (fun t => t.founds.contains c) = false := hl
          rw [htask] at hany
          simpa using hany
        exact writesFor_of_writes (h.tasks i t es hi hw hf _ hs).1.writes
    | _ => exact h.store

theorem clear_succ : Clear c (cfg.place (ls.take (n + 1))) := by
  have hmove := place_moves cfg hn
  generalize cfg.place (ls.take (n + 1)) = pos at hmove
  cases hmove with
  | crash => exact clear_idle
  | start t => exact clear_clusters
  | other hl => exact h.rollouts
  | exec e =>
    refine clear_next h.rollouts (hr.driven.steps hn).issues (reads_of_gone hr hn h rfl) ?_
    rintro a jobs rfl
    exact listed_jobs h.store (hr.fits hn)

/-- One more step that founds nothing keeps the cluster away. -/
theorem gone_succ (hl : l.founds c (ls.take n) = false) : Gone cfg c (ls.take (n + 1)) := by
  refine ⟨lacks_succ hr hn h hl, ?_, clear_succ hr hn h⟩
  rw [take_succ_eq hn]
  refine spared_snoc h.tasks ?_ fun i e => reads_of_gone hr hn h
  rintro i t rfl
  exact hr.may hn

end Step

end Deletion

/-- A deleted cluster stays deleted. In every run in which every deletion of the cluster commits
while no rollout pass has the cluster in hand or ahead and no other task in progress has read a record
of it: after a deletion there is no record of the cluster in the store, until an operation of a task
that brings records of the cluster of its own. -/
theorem deleted_stays {cfg : Settings} {c : String} {ls : List Lbl} {s : State}
    (hr : Reaches cfg ls s) (ha : Throughout (Deletion.Assumed cfg c) ls) {n q : Nat}
    (hn : ls[n]?.bind Lbl.removesCluster = some c) (hnq : n < q) (hq : q ≤ ls.length)
    (hno : ∀ m l, n < m → m < q → ls[m]? = some l → l.founds c (ls.take m) = false) :
    (storeAt (ls.take q)).Lacks c := by
  obtain ⟨l, hget, hl⟩ := Option.bind_eq_some_iff.1 hn
  suffices hgone : Deletion.Gone cfg c (ls.take q) from hgone.store
  induction q, hnq using Nat.le_induction with
  | base => exact Deletion.gone_of_removed hr hget hl (ha n l hget hl)
  | succ q hnq ih =>
    have hget' : ls[q]? = some ls[q] := List.getElem?_eq_getElem hq
    have hbefore := ih (Nat.le_of_lt hq) fun m l' hm hmq => hno m l' hm (Nat.lt_succ_of_lt hmq)
    exact Deletion.gone_succ hr hget' hbefore (hno q _ hnq (Nat.lt_succ_self q) hget')

/-- A cluster is deleted when a bootstrap pass has listed it and not yet taken it up. Then the pass
goes on, a rollout is ordered, and a rollout pass runs. -/
def Script.deletedAhead : List Move :=
  request (.createCluster
      { name := "c", cpEndpoint := "https://10.0.0.1:6443", cpMac := "m", cpIp := "10.0.0.1"
        talosVersion := "v1.7.0", kubernetesVersion := "v1.30.0", confirm := true }) ++
    run .bootstrap .bootstrapPass 1 (.working "v1.7.0" [node]) ++ request (.deleteCluster "c") ++
    List.replicate 5 (.step .bootstrap (.working "v1.7.0" [node])) ++ order ++
    pass 5 (.working "v1.7.0" [node])

/-- Nothing of the cluster is left at the end. -/
theorem deletedAhead_gone : (storeAt
    ((runScript Script.settings Script.deletedAhead State.initial).1.take 17)).Lacks "c" := by
  have hdelete : (runScript Script.settings Script.deletedAhead State.initial).1[9]?.bind
      Lbl.removesCluster = some "c" := by decide +kernel
  have hlength : 17 ≤ (runScript Script.settings Script.deletedAhead State.initial).1.length := by
    decide +kernel
  have hassumed : Throughout (Deletion.Assumed Script.settings "c")
      (runScript Script.settings Script.deletedAhead State.initial).1 := by
    have hcheck : Throughout (fun past l => l.removesCluster = some "c" →
        Deletion.Clear "c" (Script.settings.place past) ∧
          ∀ i ∈ past.filterMap Lbl.starter, i ≠ .rollouts → ∀ w ∈ work past i,
            ∀ e ∈ w.1.evidence w.2, Ev.shows "c" e = false)
        (runScript Script.settings Script.deletedAhead State.initial).1 := by decide +kernel
    intro n l hget hl
    obtain ⟨hclear, hothers⟩ := hcheck n l hget hl
    exact Deletion.quiet_of_started hclear hothers
  have hfounds : ∀ m ∈ List.range 17, 9 < m →
      ∀ l ∈ (runScript Script.settings Script.deletedAhead State.initial).1[m]?,
        l.founds "c" ((runScript Script.settings Script.deletedAhead State.initial).1.take m) =
          false := by decide +kernel
  exact deleted_stays (reaches_script Script.settings Script.deletedAhead) hassumed hdelete
    (by decide) hlength fun m l hm hmq hget => hfounds m (List.mem_range.2 hmq) hm l hget

/-- A cluster is deleted while its node is being upgraded. -/
def Script.deletedInFlight : List Move :=
  armed ++ order ++ pass 12 (.working "v1.7.0" [node]) ++ request (.deleteCluster "c") ++
    List.replicate 14 (.step .rollouts (.working "v1.8.0" [node]))

/-- The pass goes on, and writes its records back: the record of the node and the job. -/
theorem deletedInFlight_returns : ∃ (ls : List Lbl) (s : State) (n : Nat),
    Reaches Script.settings ls s ∧ ls[n]?.bind Lbl.removesCluster = some "c" ∧
    (∀ m ∈ List.range ls.length, n < m → ∀ l ∈ ls[m]?, l.founds "c" (ls.take m) = false) ∧
    ((storeAt ls).getMachineRollout "c" "10.0.0.1").map (·.cluster) = some "c" ∧
    ((storeAt ls).getRolloutJob "c" "controlplane").map (·.cluster) = some "c" := by
  refine ⟨_, _, 35, reaches_script Script.settings Script.deletedInFlight, ?_, ?_, ?_, ?_⟩
  · decide +kernel
  · decide +kernel
  · decide +kernel
  · decide +kernel

end Medea
