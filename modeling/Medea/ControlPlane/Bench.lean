import Medea.ControlPlane.Provisioning
import Medea.Interaction.Outcome

/-!
# Programs alone at the store

One program runs alone over a store. A `Bench` is that store together with a log: every operation that
reaches a machine (staging, unstaging, draining), with the store at its time. The store answers itself;
an `Outside` says which answers others may give and which writes may fail.

The rules are for single operations, and for reading a record and swapping it in. `Bench.run` computes an
execution in which all goes well.
-/

set_option autoImplicit false

namespace Medea

open Medea.Interaction

/-- The operations that reach a machine. -/
def Op.acts : Op → Bool
  | .provisioner _ _ | .kube _ _ (.drain _ _) => true
  | _ => false

/-- A store that some history leads to, and the operations on machines so far. -/
structure Bench where
  store : Store
  reachable : store.Reachable
  log : List (Op × Store)

/-- The answers that others may give, some answer to every operation among them. On the store the
answers are the writes that may fail. -/
structure Outside where
  allows : Ev → Prop
  answers : ∀ op : Op, (∀ sop, op ≠ .store sop) → ∃ rep, allows ⟨op, rep⟩

/-- Writes may fail. -/
def Outside.Fails (o : Outside) : Prop := ∃ op rep, o.allows ⟨.store op, rep⟩

/-- Something a pass asks for may go wrong: a write, a drain, or a call on the provisioner. -/
def Outside.Refuses (o : Outside) : Prop :=
  o.Fails ∨ (∃ client member name limit e, o.allows ⟨.kube client member (.drain name limit), .error e⟩) ∨
    ∃ cluster call e, o.allows ⟨.provisioner cluster call, .error e⟩

/-- Everything is possible, but only the given nodes are ever listed. -/
def Outside.showing (nodes : List NodeInfo) : Outside where
  allows
    | ⟨.kube _ _ .listNodes, .ok listed⟩ => listed = nodes
    | _ => True
  answers op hop := by
    cases op with
    | store sop => exact absurd rfl (hop sop)
    | wait => exact ⟨true, trivial⟩
    | now => exact ⟨(0 : Nat), trivial⟩
    | respond => exact ⟨(), trivial⟩
    | kube client member call => cases call <;> exact ⟨.error default, trivial⟩
    | _ => exact ⟨.error default, trivial⟩

theorem Outside.showing_working (version : String) (nodes : List NodeInfo) (op : Op) :
    (Outside.showing nodes).allows ⟨op, Oracle.working version nodes op⟩ := by
  cases op with
  | kube client member call => cases call <;> first | rfl | trivial
  | _ => trivial

/-- No write fails, every call of a pass on the outside succeeds, and the nodes are the given ones. -/
def Outside.Succeeds (nodes : List NodeInfo) : Ev → Prop
  | ⟨.store _, _⟩ => False
  | ⟨.kube _ _ .listNodes, rep⟩ => rep = .ok nodes
  | ⟨.kube _ _ (.drain _ _), rep⟩ => rep = .ok ()
  | ⟨.provisioner _ _, rep⟩ => rep = .ok ()
  | ⟨.resolve _, rep⟩ => ∃ id, rep = .ok id
  | ⟨.creds _, rep⟩ => ∃ v, rep = .ok v
  | ⟨.machinery _, rep⟩ => ∃ v, rep = .ok v
  | _ => True

theorem Outside.succeeds_working (version : String) (nodes : List NodeInfo) {op : Op}
    (hop : ∀ sop, op ≠ .store sop) : Succeeds nodes ⟨op, Oracle.working version nodes op⟩ := by
  cases op with
  | store sop => exact absurd rfl (hop sop)
  | kube client member call => cases call <;> first | rfl | trivial
  | provisioner => rfl
  | resolve => exact ⟨_, rfl⟩
  | creds call => cases call <;> exact ⟨_, rfl⟩
  | machinery => exact ⟨_, rfl⟩
  | _ => trivial

/-- All goes well, at any time. -/
def Outside.steady (nodes : List NodeInfo) : Outside where
  allows := Succeeds nodes
  answers _ hop := ⟨_, succeeds_working "" nodes hop⟩

theorem Outside.not_refuses_steady (nodes : List NodeInfo) : ¬(Outside.steady nodes).Refuses := by
  rintro (⟨op, rep, h⟩ | ⟨client, member, name, limit, e, h⟩ | ⟨cluster, call, e, h⟩)
  · exact h
  · cases h
  · cases h

theorem Outside.not_fails_steady (nodes : List NodeInfo) : ¬(Outside.steady nodes).Fails :=
  fun h => not_refuses_steady nodes (Or.inl h)

namespace Bench

variable {o : Outside} {I : Bench → Prop} {α : Type} {Q : α → Bench → Prop} {b : Bench}

def db (b : Bench) : DB := b.store.db

/-- The log after an operation. -/
def noted (b : Bench) (op : Op) : Bench :=
  { b with log := b.log ++ if op.acts then [(op, b.store)] else [] }

theorem noted_of_idle {op : Op} (h : op.acts = false) : b.noted op = b := by
  simp [noted, h]

def handles (o : Outside) (b : Bench) : Ev → Bench → Prop
  | ⟨.store op, rep⟩, b' => b'.log = b.log ∧
      ((rep = (op.exec b.store).1 ∧ b'.store = (op.exec b.store).2) ∨
        (o.allows ⟨.store op, rep⟩ ∧ op.writes = true ∧ (∃ msg, rep = .error (.other msg)) ∧
          b'.store = b.store))
  | e, b' => o.allows e ∧ b' = b.noted e.op

theorem ext_store {b' : Bench} (hstore : b'.store = b.store) (hlog : b'.log = b.log) : b' = b := by
  cases b
  cases b'
  cases hstore
  cases hlog
  rfl

theorem reachable_exec (b : Bench) (op : StoreOp) : (op.exec b.store).2.Reachable := by
  cases hrep : (op.exec b.store).1 with
  | error e =>
    rw [StoreOp.exec_of_error hrep]
    exact b.reachable
  | ok v => exact b.reachable.after_access (a := .call op (.ok v)) (Or.inl hrep.symm)

/-- The bench after a call on the store. -/
def exec (b : Bench) (op : StoreOp) : Bench where
  store := (op.exec b.store).2
  reachable := b.reachable_exec op
  log := b.log

/-- The bench after some calls on an empty store. -/
def after (ops : List StoreOp) : Bench := ops.foldl exec ⟨{}, ⟨[], trivial, rfl⟩, []⟩

/-! ## Rules for single operations -/

section Rules

variable {op : StoreOp} {next : Except StoreError op.Value → Prog α}

/-- A read is answered by the store. -/
theorem stays_read (hop : op.writes = false) (hstay : (op.exec b.store).2 = b.store) (hI : I b)
    (h : (next (op.exec b.store).1).Stays (handles o) I Q b) :
    (callStore op >>= next).Stays (handles o) I Q b := by
  refine ⟨hI, ⟨_, b.exec op, rfl, Or.inl ⟨rfl, rfl⟩⟩, ?_⟩
  rintro rep b' ⟨hlog, ⟨rfl, hstore⟩ | ⟨-, hwrites, -⟩⟩
  · obtain rfl := ext_store (hstore.trans hstay) hlog
    exact h
  · rw [hop] at hwrites
    cases hwrites

/-- A write that the store accepts is committed, unless it fails. -/
theorem stays_write {v : op.Value} (hok : (op.exec b.store).1 = .ok v) (hI : I b)
    (hdone : ∀ b' : Bench, b'.db = (op.exec b.store).2.db → b'.log = b.log →
      (next (.ok v)).Stays (handles o) I Q b')
    (hfail : o.Fails → ∀ e, (next (.error e)).Stays (handles o) I Q b) :
    (callStore op >>= next).Stays (handles o) I Q b := by
  refine ⟨hI, ⟨_, b.exec op, rfl, Or.inl ⟨rfl, rfl⟩⟩, ?_⟩
  rintro rep b' ⟨hlog, ⟨rfl, hstore⟩ | ⟨hallows, -, ⟨msg, rfl⟩, hstore⟩⟩
  · rw [hok]
    exact hdone b' (congrArg Store.db hstore) hlog
  · obtain rfl := ext_store hstore hlog
    exact hfail ⟨_, _, hallows⟩ _

/-- An operation of the outside. -/
theorem stays_outside {op : Op} {next : op.Reply → Prog α} (hop : ∀ sop, op ≠ .store sop) (hI : I b)
    (h : ∀ rep, o.allows ⟨op, rep⟩ → (next rep).Stays (handles o) I Q (b.noted op)) :
    (call op >>= next).Stays (handles o) I Q b := by
  have hiff : ∀ rep b', handles o b ⟨op, rep⟩ b' ↔ o.allows ⟨op, rep⟩ ∧ b' = b.noted op := by
    intro rep b'
    cases op with
    | store sop => exact absurd rfl (hop sop)
    | _ => exact Iff.rfl
  obtain ⟨rep, hrep⟩ := o.answers op hop
  refine ⟨hI, ⟨rep, b.noted op, (hiff _ _).2 ⟨hrep, rfl⟩⟩, ?_⟩
  intro rep b' hb
  obtain ⟨hallows, rfl⟩ := (hiff rep b').1 hb
  exact h rep hallows

end Rules

/-! ## Executions that are computed -/

/-- The answer of the store, or else of the oracle. -/
def answer (oracle : Oracle) (b : Bench) : (op : Op) → op.Reply × Bench
  | .store op => ((op.exec b.store).1, b.exec op)
  | op => (oracle op, b.noted op)

theorem answer_handles {oracle : Oracle}
    (h : ∀ op, (∀ sop, op ≠ .store sop) → o.allows ⟨op, oracle op⟩) (b : Bench) (op : Op) :
    handles o b ⟨op, (b.answer oracle op).1⟩ (b.answer oracle op).2 := by
  cases op with
  | store op => exact ⟨rfl, Or.inl ⟨rfl, rfl⟩⟩
  | _ => exact ⟨h _ (by simp), rfl⟩

/-- A program that runs to its end while all goes well. -/
def run {α : Type} (nodes : List NodeInfo) (p : Prog α) (b : Bench) : α × Bench :=
  p.runAlone (answer (.working "v1.7.0" nodes)) b

theorem run_yields {α : Type} (nodes : List NodeInfo) (p : Prog α) (b : Bench) :
    p.Yields (handles (.steady nodes)) b (run nodes p b).1 (run nodes p b).2 :=
  Program.runAlone_yields (answer_handles fun _ => Outside.succeeds_working _ nodes) p b

/-- A program that is cut off after some operations. -/
def cut {α : Type} (nodes : List NodeInfo) (n : Nat) (p : Prog α) (b : Bench) : Prog α × Bench :=
  Program.runFor (answer (.working "v1.7.0" nodes)) n p b

theorem cut_steps {α : Type} (nodes : List NodeInfo) (n : Nat) (p : Prog α) (b : Bench) :
    ∃ tr, p.Steps tr (cut nodes n p b).1 ∧ Answered (handles (.showing nodes)) b tr (cut nodes n p b).2 :=
  Program.runFor_steps (answer_handles fun _ _ => Outside.showing_working _ nodes _) n p b

/-- The reconciler of a pool, as the executor makes it. -/
def reconciler (cluster pool : String) : ProvisionReconciler :=
  Script.settings.provisioning.reconciler { name := cluster } { cluster, name := pool }

end Bench

/-! ## What the writes of a pass leave -/

namespace DB

def putHost (db : DB) (h : Host) : DB :=
  { db with
    hosts := db.hosts.insert (ckey h.cluster h.mac) { h with revision := db.revision + 1 }
    revision := db.revision + 1 }

def putMachine (db : DB) (m : Machine) : DB :=
  { db with
    machines := db.machines.insert (ckey m.cluster m.talosEndpoint)
      { m with revision := db.revision + 1, observed := none }
    revision := db.revision + 1 }

def putPool (db : DB) (np : NodePool) : DB :=
  { db with
    nodePools := db.nodePools.insert (ckey np.cluster np.name) { np with revision := db.revision + 1 }
    revision := db.revision + 1 }

def dropMachine (db : DB) (cluster addr : String) : DB :=
  { db with machines := db.machines.erase (ckey cluster addr), revision := db.revision + 1 }

def put (db : DB) : Desired → DB
  | .cluster c =>
    { db with
      clusters := db.clusters.insert c.name { c with revision := db.revision + 1, observed := none }
      revision := db.revision + 1 }
  | .nodePool np => db.putPool np
  | .machine m => db.putMachine m
  | .host h => db.putHost h

end DB

section Writes

variable {s : Store}

/-- A write that returns a value has committed. -/
theorem db_of_ok {o : StoreOp} {v : o.Value} (hw : o.writes = true)
    (hok : (o.exec s).1 = .ok v) : ∃ db, o.committed s = some db ∧
      (o.exec s).2.db = { db with revision := s.db.revision + 1 } := by
  rcases StoreOp.exec_db s o with ⟨-, herr⟩ | ⟨db, _, hc, -, hdb⟩
  · obtain ⟨e, he⟩ := herr hw
    rw [he] at hok
    cases hok
  · exact ⟨db, hc, hdb⟩

/-- A desired record with its names, at the revision that is stored, is put. -/
theorem exec_desired {d : Desired} {rev : Nat} (hid : d.Identified) (hexp : s.Expects d.key rev) :
    (d.put s rev).1 = .ok (s.db.revision + 1) ∧ (d.put s rev).2.db = s.db.put d := by
  rcases CompareAndSwap.put_cases s rev d with ⟨-, -, hok⟩ | ⟨-, hne, -⟩ | ⟨hno, -⟩
  · refine ⟨hok, ?_⟩
    cases d with
    | cluster c =>
      obtain ⟨db, hc, hdb⟩ := db_of_ok (o := .putClusterDesired c rev) rfl hok
      cases hc
      exact hdb
    | nodePool np =>
      obtain ⟨db, hc, hdb⟩ := db_of_ok (o := .putNodePoolDesired np rev) rfl hok
      cases hc
      exact hdb
    | machine m =>
      obtain ⟨db, hc, hdb⟩ := db_of_ok (o := .putMachineDesired m rev) rfl hok
      cases hc
      exact hdb
    | host h =>
      obtain ⟨db, hc, hdb⟩ := db_of_ok (o := .putHostDesired h rev) rfl hok
      cases hc
      exact hdb
  · exact absurd hexp hne
  · exact absurd hid hno

theorem exec_deleteMachine {cluster addr : String} (hcluster : cluster ≠ "") (haddr : addr ≠ "") :
    ((StoreOp.deleteMachine cluster addr).exec s).1 = .ok () ∧
      ((StoreOp.deleteMachine cluster addr).exec s).2.db = s.db.dropMachine cluster addr := by
  have hok : ((StoreOp.deleteMachine cluster addr).exec s).1 = .ok () := by
    simp [StoreOp.exec, Store.deleteMachine, hcluster, haddr]
  obtain ⟨db, hc, hdb⟩ := db_of_ok rfl hok
  cases hc
  exact ⟨hok, hdb⟩

theorem getHost_of_get {cluster mac : String} {h : Host}
    (hk : s.db.hosts[ckey cluster mac]? = some h) : s.getHost cluster mac = (some h, h.revision) := by
  rw [Store.getHost, hk]

theorem getNodePool_of_get {cluster pool : String} {np : NodePool}
    (hk : s.db.nodePools[ckey cluster pool]? = some np) :
    s.getNodePool cluster pool = (some np, np.revision) := by
  rw [Store.getNodePool, hk]

end Writes

namespace ProvisionReconciler

open Bench

variable {o : Outside} {I : Bench → Prop} {b : Bench} {E : Bench → Prop} {D : Bench → Prop}
  {cluster mac pool : String}

/-! ## Reading and swapping -/

theorem editHost_stays {edit : Host → Host} {h : Host}
    (hk : b.db.hosts[ckey cluster mac]? = some h)
    (hedit : (edit h).cluster = h.cluster ∧ (edit h).mac = h.mac) (hI : I b) (hE : o.Fails → E b)
    (hD : ∀ b' : Bench, b'.db = b.db.putHost (edit h) → b'.log = b.log → D b') :
    (editHost cluster mac edit).Stays (handles o) I (Ends E fun _ => D) b := by
  apply stays_read rfl rfl hI
  have hread : (StoreOp.exec b.store (.getHost cluster mac)).1 = .ok (some h, h.revision) :=
    congrArg Except.ok (getHost_of_get hk)
  rw [hread]
  have hid : (edit h).cluster ≠ "" ∧ (edit h).mac ≠ "" := by
    rw [hedit.1, hedit.2]
    exact b.reachable.named (DB.entry_of_host hk)
  have hexp : b.store.Expects (.host, ckey (edit h).cluster (edit h).mac) h.revision := by
    rw [hedit.1, hedit.2, b.reachable.host_key hk]
    exact Or.inr ⟨_, DB.entry_of_host hk⟩
  obtain ⟨hok, hdb⟩ := exec_desired (d := .host (edit h)) hid hexp
  refine stays_write hok hI ?_ ?_
  · exact fun b' hb' hlog => hD b' (hb'.trans hdb) hlog
  · exact fun hf _ => hE hf

theorem editPool_stays {edit : NodePool → Option NodePool} {np : NodePool}
    (hk : b.db.nodePools[ckey cluster pool]? = some np)
    (hedit : ∀ np', edit np = some np' → np'.cluster = np.cluster ∧ np'.name = np.name) (hI : I b)
    (hE : o.Fails → E b) (hsame : edit np = none → D b)
    (hD : ∀ (np' : NodePool) (b' : Bench), edit np = some np' → b'.db = b.db.putPool np' →
      b'.log = b.log → D b') :
    (editPool cluster pool edit).Stays (handles o) I (Ends E fun _ => D) b := by
  apply stays_read rfl rfl hI
  have hread : (StoreOp.exec b.store (.getNodePool cluster pool)).1 = .ok (some np, np.revision) :=
    congrArg Except.ok (getNodePool_of_get hk)
  rw [hread]
  dsimp only
  cases hnp : edit np with
  | none => exact hsame hnp
  | some np' =>
    obtain ⟨hcluster, hname⟩ := hedit np' hnp
    have hid : np'.cluster ≠ "" ∧ np'.name ≠ "" := by
      rw [hcluster, hname]
      exact b.reachable.named (DB.entry_of_nodePool hk)
    have hexp : b.store.Expects (.nodepool, ckey np'.cluster np'.name) np.revision := by
      rw [hcluster, hname, b.reachable.nodePool_key hk]
      exact Or.inr ⟨_, DB.entry_of_nodePool hk⟩
    obtain ⟨hok, hdb⟩ := exec_desired (d := .nodePool np') hid hexp
    refine stays_write hok hI ?_ ?_
    · exact fun b' hb' hlog => hD np' b' hnp (hb'.trans hdb) hlog
    · exact fun hf _ => hE hf

end ProvisionReconciler

end Medea
