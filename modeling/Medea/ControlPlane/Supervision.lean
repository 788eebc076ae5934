import Medea.ControlPlane.Tasks
import Medea.Rollout.Coherence
import Medea.Rollout.Conformance

/-!
# Supervision of the control plane

The contracts of all processes put together. The rollout executor is bound to its control machine,
every other process to the discipline of the task it runs, and the records of the store stay in
order. `Settings.supervision` is the instance of the general rule. Properties of runs are proved with
`RunInvariant.along`: one obligation for a step of the executor at a coherent place, one for a step of
another process, and one each for starts and crashes. No program is looked into again.
-/

set_option autoImplicit false

namespace Medea

open Medea.Interaction Settings

/-! ## Records in order -/

/-- The record is in order. -/
def Discipline.Sound (D : Discipline) : Record → Prop
  | .cluster cl => D.ClusterOk cl
  | .nodePool np => D.PoolOk np
  | .machine m => D.named m.cluster
  | .host h => D.HostOk h
  | .clusterBootstrap cb => D.named cb.cluster
  | _ => True

/-- The records of the store are in order. -/
structure Discipline.StoreOk (D : Discipline) (s : Store) : Prop where
  keyed : s.WellKeyed
  records : s.Each fun _ v => D.Sound v

namespace Discipline

variable {D : Discipline} {s : Store}

theorem storeOk_empty : D.StoreOk {} := ⟨Store.each_empty, Store.each_empty⟩

theorem StoreOk.of_db {s' : Store} (h : D.StoreOk s) (hdb : s'.db = s.db) : D.StoreOk s' :=
  ⟨h.keyed.of_db hdb, h.records.of_db hdb⟩

/-- A record that a call writes is in order. -/
def writesOk (D : Discipline) : StoreOp → Prop
  | .putClusterDesired cl _ => D.ClusterOk cl
  | .putNodePoolDesired np _ => D.PoolOk np
  | .putMachineDesired m _ => D.named m.cluster
  | .putHostDesired h _ => D.HostOk h
  | .putClusterBootstrap cb => D.named cb.cluster
  | _ => True

/-- A committed write of a record in order keeps the store in order. -/
theorem StoreOk.exec (h : D.StoreOk s) (op : StoreOp)
    (hw : ∀ v, (op.exec s).1 = .ok v → D.writesOk op) : D.StoreOk (op.exec s).2 := by
  refine ⟨h.keyed.exec op, h.records.exec op fun {u key v} hu hmove => ?_⟩
  have hok := hw u hu
  cases op with
  | putClusterDesired =>
    cases hmove
    exact hok.of_same rfl fun g => by cases g <;> rfl
  | putNodePoolDesired =>
    cases hmove
    exact hok.of_same rfl rfl rfl
  | putHostDesired =>
    cases hmove
    exact ⟨hok.named, hok.unused⟩
  | putMachineDesired | putClusterBootstrap | putMachineRollout | putClusterRollout | putRolloutJob =>
    cases hmove
    exact hok
  | _ => cases hmove

/-- What an orderly store returns. -/
theorem StoreOk.reads (h : D.StoreOk s) (op : StoreOp) :
    D.reads ⟨.store op, (op.exec s).1⟩ := by
  cases op with
  | getCluster name =>
    simp only [StoreOp.exec, Store.getCluster]
    split
    next => trivial
    next c hc =>
      have hentry := DB.entry_of_cluster hc
      have hok : D.ClusterOk c := h.records _ _ _ hentry
      exact ⟨congrArg Prod.snd (h.keyed _ _ _ hentry), hok.of_same rfl fun g => by cases g <;> rfl⟩
  | listClusters =>
    intro cl hcl
    obtain ⟨⟨k, c⟩, hm, rfl⟩ := List.mem_map.1 hcl
    have hc := Std.ExtTreeMap.mem_toList_iff_getElem?_eq_some.1 hm
    have hok : D.ClusterOk c := h.records _ _ _ (DB.entry_of_cluster hc)
    exact hok.of_same rfl fun g => by cases g <;> rfl
  | getNodePool cluster name =>
    simp only [StoreOp.exec, Store.getNodePool]
    split
    next => trivial
    next np hnp =>
      have hentry := DB.entry_of_nodePool hnp
      exact ⟨congrArg Prod.snd (h.keyed _ _ _ hentry), h.records _ _ _ hentry⟩
  | getMachine cluster addr =>
    simp only [StoreOp.exec, Store.getMachine]
    split
    next => trivial
    next m hm =>
      have hentry := DB.entry_of_machine hm
      exact ⟨congrArg Prod.snd (h.keyed _ _ _ hentry), h.records _ _ _ hentry⟩
  | getHost cluster mac =>
    simp only [StoreOp.exec, Store.getHost]
    split
    next => trivial
    next h' hh =>
      have hentry := DB.entry_of_host hh
      exact ⟨congrArg Prod.snd (h.keyed _ _ _ hentry), h.records _ _ _ hentry⟩
  | getClusterBootstrap cluster =>
    simp only [StoreOp.exec, Store.getClusterBootstrap]
    cases hcb : s.db.bootstraps[cluster]? with
    | none => trivial
    | some cb => exact h.records _ _ _ (DB.entry_of_bootstrap hcb)
  | listClusterBootstraps =>
    intro cb hcb
    obtain ⟨⟨k, cb'⟩, hm, rfl⟩ := List.mem_map.1 hcb
    have hcb' := Std.ExtTreeMap.mem_toList_iff_getElem?_eq_some.1 hm
    exact h.records _ _ _ (DB.entry_of_bootstrap hcb')
  | _ => trivial

/-- Whatever the world answers, a read returns records in order. -/
theorem StoreOk.handles_reads {w w' : World} {e : Ev} (h : D.StoreOk w.store)
    (hw : w.handles e w') : D.reads e := by
  obtain ⟨op, rep⟩ := e
  cases op with
  | store op =>
    rcases hw with ⟨hrep, _⟩ | ⟨hwr, ⟨msg, hrep⟩, _⟩
    · subst hrep
      exact h.reads op
    · subst hrep
      cases op <;> trivial
  | _ => trivial

/-- A step of the world keeps the store in order, when what it commits is in order. -/
theorem StoreOk.handles {w w' : World} {e : Ev} (h : D.StoreOk w.store) (hw : w.handles e w')
    (hok : ∀ op v, e = ev (.store op) (.ok v) → D.writesOk op) : D.StoreOk w'.store := by
  obtain ⟨op, rep⟩ := e
  cases op with
  | store op =>
    rcases hw with ⟨hrep, rfl⟩ | ⟨_, _, rfl⟩
    · subst hrep
      refine h.exec op fun v hv => hok op v ?_
      rw [← hv]
    · exact h
  | _ =>
    cases hw
    exact h

end Discipline

/-! ## The executor and the store -/

/-- The store calls of the executor. -/
def StoreOp.ofRollouts : StoreOp → Bool
  | .listClusters | .listRolloutJobs _ | .getNodePool _ _ | .getCluster _ | .getMachineRollout _ _
  | .putRolloutJob _ | .putMachineRollout _ | .putClusterRollout _ => true
  | _ => false

theorem RolloutReconciler.stageIssues_ofRollouts {r : RolloutReconciler} {view : PoolView}
    {addr : String} {stage : Stage} {op : StoreOp}
    (h : r.stageIssues view addr stage = .store op) : op.ofRollouts = true := by
  cases stage <;> cases h <;> rfl

theorem RolloutExecutor.issues_ofRollouts {e : RolloutExecutor} {pos : ExecPos} {op : StoreOp}
    (h : e.issues pos = some (.store op)) : op.ofRollouts = true := by
  cases pos with
  | pool f pos =>
    cases pos with
    | member view visited addr todo stage =>
      exact RolloutReconciler.stageIssues_ofRollouts (Option.some.inj h)
    | _ => cases h <;> rfl
  | k8s f pos => cases pos <;> cases h <;> rfl
  | _ => cases h <;> rfl

/-! ## The instance -/

/-- The supervised state: the place of the executor and the task every process was last given. -/
structure Ghost where
  pos : ExecPos
  task : Who → Option Task

/-- Nothing has been started. -/
def Ghost.initial : Ghost := ⟨.idle, fun _ => none⟩

namespace Settings

variable (cfg : Settings) (D : Discipline)

/-- The contract of the executor: its control machine. -/
def executorContract : Contract medeaSig Ghost where
  drift m m' := m'.pos = m.pos
  admits _ _ := True
  allows m e := cfg.rollouts.issues m.pos = some e.op
  next m e := { m with pos := cfg.rollouts.next m.pos e }
  drift_refl _ := rfl
  drift_trans h h' := h'.trans h

/-- The contract of any other process: the discipline of its task. -/
def taskContract (i : Who) : Contract medeaSig Ghost where
  drift m m' := m'.task i = m.task i
  admits _ e := D.reads e
  allows m e := ∃ t, m.task i = some t ∧ t ≠ .rolloutPass ∧ D.Allows t e.op
  next m _ := m
  drift_refl _ := rfl
  drift_trans h h' := h'.trans h

def contract (i : Who) : Contract medeaSig Ghost :=
  if i = .rollouts then cfg.executorContract else taskContract D i

/-- Starting a task and crashing, as they move the supervised state. -/
def mark (m : Ghost) : Lbl → Ghost
  | .start i t =>
    { pos := if i = .rollouts then .clusters else m.pos
      task := Function.update m.task i (some t) }
  | .act _ _ => m
  | .crash => Ghost.initial

/-- The runs considered: tasks bring names in use, and the watched guard is never raised. -/
def assumes (m : Ghost) : Lbl → Prop
  | .start _ t => ∀ c ∈ t.clusters, D.named c
  | .act i e => ∀ cl expected v t, m.task i = some t → D.Raises t cl →
      e ≠ ev (.store (.putClusterDesired cl expected)) (.ok v)
  | .crash => True

/-- A pass of the executor conforms to its machine. -/
theorem rolloutPass_conforms : (cfg.task .rolloutPass).Keeps cfg.rollouts.control
    (fun _ pos => pos = .idle) .clusters :=
  cfg.rollouts.runOnce_conforms.bind fun _ _ h => cfg.rollouts.conforms_done h

/-- The executor keeps its contract, as it conforms to its machine. -/
theorem rolloutPass_keeps {m : Ghost} (hm : m.pos = .clusters) :
    (cfg.task .rolloutPass).Keeps cfg.executorContract (fun _ m => m.pos = .idle) m := by
  have hstart : (cfg.task .rolloutPass).Keeps cfg.rollouts.control (fun _ pos => pos = .idle)
      m.pos := hm ▸ cfg.rolloutPass_conforms
  refine Program.Keeps.of_part Ghost.pos ?_ ?_ ?_ ?_ hstart
  · exact fun h => h.symm
  · exact fun _ => trivial
  · exact id
  · exact fun _ _ => rfl

/-- Every other task keeps the contract of its process. -/
theorem task_keeps {i : Who} {t : Task} (ht : t ≠ .rolloutPass) (hn : ∀ c ∈ t.clusters, D.named c)
    {m : Ghost} (hm : m.task i = some t) :
    (cfg.task t).Keeps (taskContract D i) (fun _ _ => True) m := by
  have hfollows := cfg.task_follows ht fun c hc => hn c (t.founds_subset_clusters hc)
  refine (hfollows.steady (J := fun m => m.task i = some t) ?_ ?_ hm).mono fun _ _ _ => trivial
  · exact fun hm h => h.trans hm
  · exact fun hm h hread => ⟨hread, ⟨t, hm, ht, h⟩, hm⟩

theorem contract_rollouts : cfg.contract D .rollouts = cfg.executorContract := if_pos rfl

theorem contract_other {i : Who} (hi : i ≠ .rollouts) : cfg.contract D i = taskContract D i :=
  if_neg hi

/-- Only the executor runs rollout passes. -/
theorem may_rolloutPass {i : Who} {t : Task} (h : i.may t = true) :
    t = .rolloutPass ↔ i = .rollouts := by
  cases i <;> cases t <;> simp_all [Who.may]

variable {cfg D}

/-- What an obedient process commits is in order. -/
theorem writesOk_of_allows {i : Who} {m : Ghost} {e : Ev}
    (ha : assumes D m (.act i e)) (hall : (cfg.contract D i).allows m e) (op : StoreOp)
    (v : op.Value) (he : e = ev (.store op) (.ok v)) : D.writesOk op := by
  subst he
  by_cases hi : i = .rollouts
  · subst hi
    rw [contract_rollouts] at hall
    have hof := RolloutExecutor.issues_ofRollouts hall
    cases op <;> trivial
  · rw [contract_other cfg D hi] at hall
    obtain ⟨t, ht, _, hal⟩ := hall
    have hw := hal.writes
    cases op with
    | putClusterDesired cl expected =>
      rcases hw with hok | ⟨_, hr⟩
      · exact hok
      · exact absurd rfl (ha cl expected v t ht hr)
    | putNodePoolDesired | putMachineDesired | putHostDesired | putClusterBootstrap => exact hw
    | _ => trivial

/-- An event of one process is a drift for the others. -/
theorem contract_drift {i j : Who} (hij : j ≠ i) (m : Ghost) (e : Ev) :
    (cfg.contract D j).drift m ((cfg.contract D i).next m e) := by
  by_cases hi : i = .rollouts
  · subst hi
    rw [contract_other cfg D hij, contract_rollouts]
    rfl
  · rw [contract_other cfg D hi]
    exact (cfg.contract D j).drift_refl m

/-- A start of one process is a drift for the others. -/
theorem mark_drift {i j : Who} (hij : j ≠ i) (m : Ghost) (t : Task) :
    (cfg.contract D j).drift m (mark m (.start i t)) := by
  by_cases hj : j = .rollouts
  · subst hj
    rw [contract_rollouts]
    exact if_neg hij.symm
  · rw [contract_other cfg D hj]
    exact Function.update_of_ne hij _ _

/-- Where a process may be idle: the executor is out of its machine. -/
def idleAt (i : Who) (m : Ghost) : Prop := i = .rollouts → m.pos = .idle

variable (cfg D)

/-- The contracts of all processes fit together. -/
def supervision : Supervision (controlPlane cfg) Ghost where
  contract := cfg.contract D
  mark := mark
  assumes := assumes D
  rel w _ := D.StoreOk w.store
  idle := idleAt
  idle_drift {i m m'} h hd hi := by
    subst hi
    rw [contract_rollouts] at hd
    exact hd.trans (h rfl)
  admits {i e w w' m} _ hrel hw := by
    by_cases hi : i = .rollouts
    · subst hi
      rw [contract_rollouts]
      trivial
    · rw [contract_other cfg D hi]
      exact hrel.handles_reads hw
  act {i e w w' m} ha hrel hw hall :=
    ⟨hrel.handles hw (writesOk_of_allows ha hall), fun _ hj => contract_drift hj m e⟩
  start {i t w m} hmay ha hrel hidle := by
    refine ⟨hrel, ?_, fun _ hj => mark_drift hj m t⟩
    by_cases hi : i = .rollouts
    · have ht := (may_rolloutPass hmay).2 hi
      subst hi
      subst ht
      rw [contract_rollouts]
      exact (cfg.rolloutPass_keeps rfl).mono fun _ _ h _ => h
    · have ht : t ≠ .rolloutPass := fun h => hi ((may_rolloutPass hmay).1 h)
      rw [contract_other cfg D hi]
      exact (cfg.task_keeps D ht ha (Function.update_self i (some t) m.task)).mono
        fun _ _ _ h => absurd h hi
  crash _ hrel := ⟨hrel.of_db rfl, fun _ _ => rfl⟩

end Settings

/-- All names, no guard that is watched, and whatever other tools have written. -/
def Discipline.any : Discipline where
  named _ := True
  guard := none
  plain h := nomatch h
  fresh := False

/-- All names, no guard that is watched, and no records but those of the server. -/
def Discipline.own : Discipline := { Discipline.any with fresh := True }

/-- Where nothing else is asked of records, they are in order if they have their own keys. -/
theorem Discipline.storeOk_any {s : Store} (h : s.WellKeyed) : Discipline.any.StoreOk s where
  keyed := h
  records := by
    intro key r v _
    cases v with
    | cluster c => exact ⟨trivial, fun hg => (nomatch hg)⟩
    | nodePool np => exact ⟨trivial, fun hf => hf.elim⟩
    | host h' => exact ⟨trivial, fun hf => hf.elim⟩
    | _ => trivial

theorem Settings.assumes_any (m : Ghost) (l : Lbl) : assumes .any m l := by
  cases l with
  | start i t => exact fun _ _ => trivial
  | act i e =>
    rintro cl expected v t _ ⟨g, c, hg, _⟩
    cases hg
  | crash => trivial

/-! ## The rule for runs -/

/-- The place of the executor after one more label. -/
def Settings.placeNext (cfg : Settings) (pos : ExecPos) : Lbl → ExecPos
  | .start i _ => if i = .rollouts then .clusters else pos
  | .act i e => if i = .rollouts then cfg.rollouts.next pos e else pos
  | .crash => .idle

/-- The place of the executor after a run, as its machine moves with what the run shows. -/
def Settings.place (cfg : Settings) (ls : List Lbl) : ExecPos := ls.foldl cfg.placeNext .idle

/-- The tasks of the processes after one more label. -/
def tasksNext (tasks : Who → Option Task) : Lbl → Who → Option Task
  | .start i t => Function.update tasks i (some t)
  | .act _ _ => tasks
  | .crash => fun _ => none

/-- The task that every process was last given in a run, since the last crash. -/
def tasksAfter (ls : List Lbl) : Who → Option Task := ls.foldl tasksNext fun _ => none

/-- Every label of a run is as `P` says, given the labels before it. -/
def Throughout (P : List Lbl → Lbl → Prop) (ls : List Lbl) : Prop :=
  ∀ n l, ls[n]? = some l → P (ls.take n) l

instance (P : List Lbl → Lbl → Prop) [∀ past l, Decidable (P past l)] (ls : List Lbl) :
    Decidable (Throughout P ls) :=
  decidable_of_iff (∀ n ∈ List.range ls.length, ∀ l ∈ ls[n]?.toList, P (ls.take n) l) <| by
    constructor
    · intro h n l hn
      exact h n (List.mem_range.2 (List.getElem?_eq_some_iff.1 hn).1) l (by simp [hn])
    · intro h n _ l hl
      exact h n l (by simpa using hl)

/-- The supervised state is the one the run shows. -/
structure Tracked (cfg : Settings) (m : Ghost) (ls : List Lbl) : Prop where
  coherent : m.pos.Coherent
  place : m.pos = cfg.place ls
  tasks : m.task = tasksAfter ls

/-- An invariant `I` of the store, the supervised state and the run so far. In the runs considered
every label is as `assume` says, and then every label is as `ok` says. -/
structure RunInvariant (cfg : Settings) (D : Discipline) (assume ok : List Lbl → Lbl → Prop)
    (I : World → Ghost → List Lbl → Prop) : Prop where
  initial : I {} Ghost.initial []
  assumes : ∀ {w m ls l}, I w m ls → Tracked cfg m ls → assume ls l → Settings.assumes D m l := by
    exact fun _ _ _ => Settings.assumes_any _ _
  start : ∀ {w m ls i t}, i.may t = true → I w m ls → assume ls (.start i t) →
    ok ls (.start i t) ∧ I w (Settings.mark m (.start i t)) (ls ++ [.start i t])
  crash : ∀ {w m ls}, I w m ls → assume ls .crash →
    ok ls .crash ∧ I ⟨w.store.open⟩ Ghost.initial (ls ++ [.crash])
  exec : ∀ {w m ls e w'}, I w m ls → D.StoreOk w.store → Tracked cfg m ls →
    assume ls (.act .rollouts e) → cfg.rollouts.issues m.pos = some e.op → w.handles e w' →
    ok ls (.act .rollouts e) ∧
      I w' { m with pos := cfg.rollouts.next m.pos e } (ls ++ [.act .rollouts e])
  other : ∀ {w m ls i t e w'}, i ≠ .rollouts → I w m ls → D.StoreOk w.store →
    Tracked cfg m ls → assume ls (.act i e) → m.task i = some t → D.Allows t e.op →
    w.handles e w' → ok ls (.act i e) ∧ I w' m (ls ++ [.act i e])

namespace RunInvariant

variable {cfg : Settings} {D : Discipline} {assume ok : List Lbl → Lbl → Prop}
  {I : World → Ghost → List Lbl → Prop}

/-- What is known at every point of a run. -/
structure At (cfg : Settings) (I : World → Ghost → List Lbl → Prop) (w : World) (m : Ghost)
    (ls : List Lbl) : Prop extends Tracked cfg m ls where
  holds : I w m ls

theorem step (J : RunInvariant cfg D assume ok I) {w w' : World} {m : Ghost} {ls : List Lbl}
    {l : Lbl} (h : At cfg I w m ls) (hrel : D.StoreOk w.store) (ha : assume ls l)
    (hob : (cfg.supervision D).Obeys m l) (hw : Supervision.Moves (controlPlane cfg) w l w') :
    ok ls l ∧ At cfg I w' ((cfg.supervision D).track m l) (ls ++ [l]) := by
  obtain ⟨ht, hI⟩ := h
  obtain ⟨hcoh, hpos, htasks⟩ := ht
  have htask : tasksAfter (ls ++ [l]) = tasksNext m.task l := by
    rw [htasks, tasksAfter, List.foldl_append]
    rfl
  have hplace : cfg.place (ls ++ [l]) = cfg.placeNext m.pos l := by
    rw [hpos, place, List.foldl_append]
    rfl
  cases l with
  | start i t =>
    obtain ⟨hmay, rfl⟩ := hw
    obtain ⟨h1, h2⟩ := J.start hmay hI ha
    refine ⟨h1, ⟨?_, hplace.symm, htask.symm⟩, h2⟩
    show (if i = Who.rollouts then ExecPos.clusters else m.pos).Coherent
    split
    · trivial
    · exact hcoh
  | crash =>
    cases hw
    obtain ⟨h1, h2⟩ := J.crash hI ha
    exact ⟨h1, ⟨trivial, hplace.symm, htask.symm⟩, h2⟩
  | act i e =>
    by_cases hi : i = .rollouts
    · subst hi
      have hop : cfg.rollouts.issues m.pos = some e.op := by
        have h : (cfg.contract D .rollouts).allows m e := hob
        rw [contract_rollouts] at h
        exact h
      have htrack : (cfg.supervision D).track m (.act .rollouts e) =
          { m with pos := cfg.rollouts.next m.pos e } := by
        show (cfg.contract D .rollouts).next m e = _
        rw [contract_rollouts]
        rfl
      obtain ⟨h1, h2⟩ := J.exec hI hrel ⟨hcoh, hpos, htasks⟩ ha hop hw
      rw [htrack]
      refine ⟨h1, ⟨RolloutExecutor.next_coherent hcoh hop, ?_, htask.symm⟩, h2⟩
      rw [hplace]
      simp only [placeNext, if_true]
    · have hall : (cfg.contract D i).allows m e := hob
      have htrack : (cfg.supervision D).track m (.act i e) = m := by
        show (cfg.contract D i).next m e = m
        rw [contract_other cfg D hi]
        rfl
      rw [contract_other cfg D hi] at hall
      obtain ⟨t, htask', _, hal⟩ := hall
      obtain ⟨h1, h2⟩ := J.other hi hI hrel ⟨hcoh, hpos, htasks⟩ ha htask' hal hw
      rw [htrack]
      refine ⟨h1, ⟨hcoh, ?_, htask.symm⟩, h2⟩
      rw [hplace]
      exact (if_neg hi).symm

/-- The whole run, on a store that was written before: every label is as it should be, and the
invariant holds at the end. -/
theorem along_from (J : RunInvariant cfg D assume ok I) {w : World} {past ls : List Lbl} {c : State}
    (hrel : D.StoreOk w.store) (hat : At cfg I w Ghost.initial past)
    (hr : (controlPlane cfg).Runs (Config.idle medeaSig Who w) ls c)
    (ha : ∀ n l, ls[n]? = some l → assume (past ++ ls.take n) l) :
    (∀ n l, ls[n]? = some l → ok (past ++ ls.take n) l) ∧
      ∃ m, (cfg.supervision D).Inv c m ∧ At cfg I c.world m (past ++ ls) := by
  obtain ⟨hok, m, hinv, hend⟩ :=
    (cfg.supervision D).along_run (I := At cfg I) (fun h ha => J.assumes h.holds h.toTracked ha)
      (fun h hrel ha hob hw => J.step h hrel ha hob hw)
      hr (Supervision.inv_idle _ hrel fun _ _ => rfl) hat (along_snoc.2 ha)
  rw [foldl_snoc] at hend
  exact ⟨along_snoc.1 hok, m, hinv, hend⟩

/-- The whole run. -/
theorem along (J : RunInvariant cfg D assume ok I) {ls : List Lbl} {c : State}
    (hr : Reaches cfg ls c) (ha : Throughout assume ls) :
    Throughout ok ls ∧ ∃ m, (cfg.supervision D).Inv c m ∧ At cfg I c.world m ls := by
  have hat : At cfg I {} Ghost.initial [] := ⟨⟨trivial, rfl, rfl⟩, J.initial⟩
  exact J.along_from Discipline.storeOk_empty hat hr ha

end RunInvariant

end Medea
