import Medea.ControlPlane.Origins

/-!
# The control plane among other tools

No call of the server sets the number of replicas of a pool or its selector, so a pool is provisioned
only after another tool has edited its record. `toolPlane` is the control plane with such tools: a
client may also run one call on the store, of any kind but a record of a cluster. The clusters are then
recorded by seeding and by the bootstrap executor, and changed by requests
(`ToolRuns.cluster_origin`).
-/

set_option autoImplicit false

namespace Medea

open Medea.Interaction

/-- What a process is given to do: a task of the server, or one call of another tool. -/
inductive Duty where
  | task (t : Task)
  | edit (op : StoreOp)
  deriving DecidableEq

/-- The call records a cluster. -/
def StoreOp.recordsCluster : StoreOp → Bool
  | .putClusterDesired _ _ => true
  | _ => false

def Who.mayServe : Who → Duty → Bool
  | i, .task t => i.may t
  | .client _, .edit op => !op.recordsCluster
  | _, .edit _ => false

def Settings.duty (cfg : Settings) : Duty → Prog Unit
  | .task t => cfg.task t
  | .edit op => discard (callStore op)

def toolPlane (cfg : Settings) : System medeaSig World Who Duty where
  task := cfg.duty
  may i a := i.mayServe a = true
  handle := World.handles
  restart w := ⟨w.store.open⟩

abbrev ToolLbl := Label medeaSig Who Duty

/-- `ls` is a run of the control plane and the tools from the start, and ends in `c`. -/
def ToolRuns (cfg : Settings) (ls : List ToolLbl) (c : State) : Prop :=
  (toolPlane cfg).Runs State.initial ls c

/-- Runs of scripts: the store answers itself, and its writes do not fail. -/
def toolPlayer (cfg : Settings) : Player (toolPlane cfg) Oracle where
  allowed := Who.mayServe
  answer w oracle op := w.answer oracle op
  may h := h
  handles w oracle op := w.answer_handles oracle op

/-- The label as one of the control plane; which task is started makes no difference to the store. -/
def ToolLbl.plain : ToolLbl → Lbl
  | .start i (.task t) => .start i t
  | .start i (.edit _) => .start i .refresh
  | .act i e => .act i e
  | .crash => .crash

/-- The store after the labels of a run. -/
def toolStore (ls : List ToolLbl) : Store := storeAt (ls.map ToolLbl.plain)

section Runs

variable {cfg : Settings} {ls : List ToolLbl} {c : State}

theorem plain_reading : Reading ToolLbl.plain where
  start i a := by cases a <;> rfl
  act i e := ⟨i, rfl⟩
  crash := rfl

theorem ToolRuns.chronicle (hr : ToolRuns cfg ls c) : Chronicle (ls.map ToolLbl.plain) :=
  (OnStore.chronicle (A := toolPlane cfg) ⟨rfl, fun _ => rfl⟩ plain_reading
    (show Chronicle [] from trivial) hr).1

theorem plain_act {n : Nat} {i : Who} {e : Ev} (hn : ls[n]? = some (.act i e)) :
    (ls.map ToolLbl.plain)[n]? = some (.act i e) := by
  rw [List.getElem?_map, hn]
  rfl

/-- A process is started on what it may do. -/
theorem ToolRuns.may (hr : ToolRuns cfg ls c) {i : Who} {a : Duty} (h : Label.start i a ∈ ls) :
    i.mayServe a = true := by
  obtain ⟨pre, post, rfl⟩ := List.append_of_mem h
  obtain ⟨d, -, d', hs, -⟩ := System.runs_append.1 hr
  cases hs with
  | start _ hmay => exact hmay

/-- The duty of a process that has issued an operation. -/
theorem ToolRuns.duty_of_act (hr : ToolRuns cfg ls c) {n : Nat} {i : Who} {e : Ev}
    (hn : ls[n]? = some (.act i e)) :
    ∃ a es next, work (ls.take n) i = some (a, es) ∧ i.mayServe a = true ∧
      (cfg.duty a).Steps es (.request e.op next) := by
  obtain ⟨a, es, next, hwork, hsteps⟩ := System.work_of_run hr hn
  refine ⟨a, es, next, hwork, hr.may ?_, hsteps⟩
  exact List.mem_of_mem_take (start_of_work hwork)

/-- A tool makes the call it was given. -/
theorem edit_of_steps {op : StoreOp} {es : Trace medeaSig} {o : Op} {next : o.Reply → Prog Unit}
    (hs : (cfg.duty (.edit op)).Steps es (.request o next)) (rep : o.Reply) : o = .store op := by
  have hone : (cfg.duty (.edit op)).Justified fun _ o => o = Op.store op :=
    Program.justified_of_within fun _ => does_discard (does_last rfl)
  exact hone.of_steps hs rep

end Runs

/-! ## Clusters -/

/-- A change of a cluster keeps its name and its endpoints. -/
theorem Task.performs_cluster {t : Task} {k : String} {u : Edit} (h : t.performs (.cluster, k) u) :
    ∃ f, u = .cluster f ∧ ∀ c, (f c).endpoints = c.endpoints := by
  cases t with
  | request req =>
    cases req with
    | createRollout req =>
      rcases h with ⟨hkey, -⟩ | ⟨-, rfl⟩
      · cases hkey
      · exact ⟨_, rfl, fun _ => rfl⟩
    | setClusterVersions | enableRollouts | disableRollouts | enableProvisioning
    | disableProvisioning =>
      obtain ⟨-, rfl⟩ := h
      exact ⟨_, rfl, fun _ => rfl⟩
    | setNodePoolVersion | pauseRollout | resumeRollout | registerHost =>
      obtain ⟨hkey, -⟩ := h
      cases hkey
    | _ => cases h
  | provisionPass => cases h
  | _ => cases h

section Clusters

variable {cfg : Settings} {ls : List ToolLbl} {c : State}

/-- Where a cluster that is put comes from: seeding, a bootstrap, or the cluster it replaces. -/
theorem ToolRuns.cluster_origin (hr : ToolRuns cfg ls c) {n : Nat} {i : Who} {cl : Cluster}
    {expected rev : Nat}
    (hn : ls[n]? = some (.act i (ev (.store (.putClusterDesired cl expected)) (.ok rev)))) :
    ∃ t es, work (ls.take n) i = some (.task t, es) ∧
      ((∃ input scan, t = .seed input ∧ cl = SeedInputs.clusterRecord input scan) ∨
        (t = .bootstrapPass ∧ ∃ name cb, ev (.store (.getClusterBootstrap name)) (.ok (some cb)) ∈ es ∧
          cl = BootstrapReconciler.clusterRecord cb) ∨
        (t.edits = true ∧ ∃ r c0, (toolStore (ls.take n)).db.entry (.cluster, cl.name) =
          some (r, .cluster c0) ∧ c0.endpoints = cl.endpoints)) := by
  obtain ⟨a, es, next, hwork, hmay, hsteps⟩ := hr.duty_of_act hn
  cases a with
  | edit op =>
    cases edit_of_steps hsteps (.ok rev)
    cases i <;> cases hmay
  | task t =>
    refine ⟨t, es, hwork, ?_⟩
    cases hed : t.edits with
    | false =>
      have hrec : t.records es (.cluster cl) := cfg.records_of_steps hed hsteps (.ok rev) rfl
      cases t with
      | request req =>
        cases req with
        | createCluster req => cases hrec
        | _ => cases hrec
      | seed input =>
        obtain ⟨scan, rfl⟩ := hrec
        exact Or.inl ⟨input, scan, rfl, rfl⟩
      | bootstrapPass =>
        obtain ⟨name, cb, hread, hd | hd | hd⟩ := hrec
        · cases hd
          exact Or.inr (Or.inl ⟨rfl, name, cb, hread, rfl⟩)
        · cases hd
        · cases hd
      | _ => cases hrec
    | true =>
      -- the cluster was read, and is what is stored just before
      have hback : t.backs es (.store (.putClusterDesired cl expected)) :=
        (cfg.task_edits hed).of_steps hsteps (.ok rev)
      obtain ⟨-, e, he, key, cur, u, hf, hp, ha⟩ := hback _ _ rfl
      obtain ⟨m, -, hm⟩ := before_of_work hwork he
      have hswap : (ls.map ToolLbl.plain)[n]?.bind Lbl.swapped =
          some (i, .cluster cl, expected, rev) := by
        rw [plain_act hn]
        rfl
      obtain ⟨hp', hnext⟩ :=
        LostUpdates.change_applies hr.chronicle hswap (plain_act hm) hf hp ha
      rw [(hr.chronicle.entry_of_swapped hswap).2] at hnext
      obtain ⟨d', hd', hstamp⟩ := Option.map_eq_some_iff.1 hnext.symm
      obtain ⟨f, rfl, hkeep⟩ := Task.performs_cluster hp'
      obtain ⟨c0, hcur, rfl⟩ := Edit.makes_of_apply hd'
      obtain ⟨⟨r, v⟩, hentry, rfl⟩ := Option.map_eq_some_iff.1 hcur
      refine Or.inr (Or.inr ⟨rfl, r, c0, ?_, ?_⟩)
      · rw [toolStore, List.map_take]
        exact hentry
      · have hrecord : Store.clusterTable.stamp (f c0) rev = Store.clusterTable.stamp cl rev :=
          Record.cluster.inj (Prod.mk.inj hstamp).2
        have hend := congrArg Cluster.endpoints hrecord
        exact (hkeep c0).symm.trans hend

end Clusters

end Medea
