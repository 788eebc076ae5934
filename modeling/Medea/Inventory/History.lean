import Medea.Inventory.Effects
import Medea.Versioned.Registry

/-!
# Histories of the store

The eight buckets of the file are one registry with a revision counter: a record is found by its
bucket and its key, and carries the revision it was written at. `registry_exec` says that every call
on the store is a move of this registry, so what `Medea.Versioned.Registry` proves about revisions
holds of the store. Records are only ever stored under the key built from their own names
(`Store.WellKeyed`).

A history is a sequence of calls with their answers, and of restarts, from the empty store on. A call
is answered by the store, or fails in the file system and changes nothing.
-/

set_option autoImplicit false

namespace Medea

open Medea.Interaction Medea.Versioned

/-! ## The buckets as one registry -/

/-- A stored record of any kind. -/
inductive Record where
  | cluster (c : Cluster)
  | nodePool (np : NodePool)
  | machine (m : Machine)
  | host (h : Host)
  | machineRollout (r : MachineRollout)
  | clusterRollout (r : ClusterRollout)
  | rolloutJob (r : Rollout)
  | clusterBootstrap (r : ClusterBootstrap)
  deriving DecidableEq

namespace Record

/-- The bucket and the key built from the names in the record. -/
def key : Record → EventKind × String
  | .cluster c => (.cluster, c.name)
  | .nodePool np => (.nodepool, ckey np.cluster np.name)
  | .machine m => (.machine, ckey m.cluster m.talosEndpoint)
  | .host h => (.host, ckey h.cluster h.mac)
  | .machineRollout r => (.machineRollout, ckey r.cluster r.addr)
  | .clusterRollout r => (.clusterRollout, r.cluster)
  | .rolloutJob r => (.rolloutJob, ckey r.cluster r.pool)
  | .clusterBootstrap r => (.clusterBootstrap, r.cluster)

/-- The cluster a record belongs to. -/
def clusterName : Record → String
  | .cluster c => c.name
  | .nodePool np => np.cluster
  | .machine m => m.cluster
  | .host h => h.cluster
  | .machineRollout r => r.cluster
  | .clusterRollout r => r.cluster
  | .rolloutJob r => r.cluster
  | .clusterBootstrap r => r.cluster

/-- The revision the record carries. -/
def revision : Record → Nat
  | .cluster c => c.revision
  | .nodePool np => np.revision
  | .machine m => m.revision
  | .host h => h.revision
  | .machineRollout r => r.revision
  | .clusterRollout r => r.revision
  | .rolloutJob r => r.revision
  | .clusterBootstrap r => r.revision

/-- The names in the key of a desired record are not empty. -/
def Named : Record → Prop
  | .cluster c => c.name ≠ ""
  | .nodePool np => np.cluster ≠ "" ∧ np.name ≠ ""
  | .machine m => m.cluster ≠ "" ∧ m.talosEndpoint ≠ ""
  | .host h => h.cluster ≠ "" ∧ h.mac ≠ ""
  | _ => True

/-- The record carries no observed field. -/
def Unobserved : Record → Prop
  | .cluster c => c.observed = none
  | .machine m => m.observed = none
  | _ => True

end Record

/-- The record in a bucket under a key, with its revision. -/
def DB.entry (db : DB) : EventKind × String → Option (Nat × Record)
  | (.cluster, k) => db.clusters[k]?.map fun c => (c.revision, .cluster c)
  | (.nodepool, k) => db.nodePools[k]?.map fun np => (np.revision, .nodePool np)
  | (.machine, k) => db.machines[k]?.map fun m => (m.revision, .machine m)
  | (.host, k) => db.hosts[k]?.map fun h => (h.revision, .host h)
  | (.machineRollout, k) => db.machineRollouts[k]?.map fun r => (r.revision, .machineRollout r)
  | (.clusterRollout, k) => db.clusterRollouts[k]?.map fun r => (r.revision, .clusterRollout r)
  | (.rolloutJob, k) => db.jobs[k]?.map fun r => (r.revision, .rolloutJob r)
  | (.clusterBootstrap, k) => db.bootstraps[k]?.map fun r => (r.revision, .clusterBootstrap r)

def Store.registry (s : Store) : Registry (EventKind × String) Record := ⟨s.db.revision, s.db.entry⟩

theorem DB.entry_revision (db : DB) (rev : Nat) : { db with revision := rev }.entry = db.entry := by
  funext ⟨kind, k⟩
  cases kind <;> rfl

namespace DB

variable {db : DB} {k : String}

theorem entry_of_cluster {v : Cluster} (h : db.clusters[k]? = some v) :
    db.entry (.cluster, k) = some (v.revision, .cluster v) := by
  simp [entry, h]

theorem entry_of_nodePool {v : NodePool} (h : db.nodePools[k]? = some v) :
    db.entry (.nodepool, k) = some (v.revision, .nodePool v) := by
  simp [entry, h]

theorem entry_of_machine {v : Machine} (h : db.machines[k]? = some v) :
    db.entry (.machine, k) = some (v.revision, .machine v) := by
  simp [entry, h]

theorem entry_of_host {v : Host} (h : db.hosts[k]? = some v) :
    db.entry (.host, k) = some (v.revision, .host v) := by
  simp [entry, h]

theorem host_of_entry {r : Nat} {v : Host} (h : db.entry (.host, k) = some (r, .host v)) :
    db.hosts[k]? = some v := by
  obtain ⟨v', hk, heq⟩ := Option.map_eq_some_iff.1 h
  cases heq
  exact hk

theorem entry_of_machineRollout {v : MachineRollout} (h : db.machineRollouts[k]? = some v) :
    db.entry (.machineRollout, k) = some (v.revision, .machineRollout v) := by
  simp [entry, h]

theorem entry_of_clusterRollout {v : ClusterRollout} (h : db.clusterRollouts[k]? = some v) :
    db.entry (.clusterRollout, k) = some (v.revision, .clusterRollout v) := by
  simp [entry, h]

theorem entry_of_job {v : Rollout} (h : db.jobs[k]? = some v) :
    db.entry (.rolloutJob, k) = some (v.revision, .rolloutJob v) := by
  simp [entry, h]

theorem entry_of_bootstrap {v : ClusterBootstrap} (h : db.bootstraps[k]? = some v) :
    db.entry (.clusterBootstrap, k) = some (v.revision, .clusterBootstrap v) := by
  simp [entry, h]

end DB

namespace Store

variable {V : Type} {T : Table V} {kind : EventKind} {wrap : V → Record}

/-- The table of a record kind shows up in the registry under that kind, and nowhere else. -/
structure Table.Lawful (T : Table V) (kind : EventKind) (wrap : V → Record) : Prop where
  own : ∀ db k, db.entry (kind, k) = (T.bucket db)[k]?.map fun v => (T.revisionOf v, wrap v) := by
    intros; rfl
  bucket_update : ∀ db b, T.bucket (T.update db b) = b := by intros; rfl
  other : ∀ db b kind' k, kind' ≠ kind →
      (T.update db b).entry (kind', k) = db.entry (kind', k) := by
    intro _ _ kind _ h; cases kind <;> first | rfl | exact absurd rfl h
  stamp : ∀ v r, T.revisionOf (T.stamp v r) = r := by intros; rfl

/-- The write of a record is seen at its key, with the next revision. -/
theorem Table.Lawful.entry_write (hT : T.Lawful kind wrap) (s : Store) (key : String) (msg : V) :
    (write T s key msg).entry = Function.update s.db.entry (kind, key)
      (some (s.db.revision + 1, wrap (T.stamp msg (s.db.revision + 1)))) := by
  funext ⟨kind', k⟩
  by_cases hk : kind' = kind
  · subst hk
    rw [hT.own, write, hT.bucket_update, Bucket.get_insert]
    by_cases hkey : key = k
    · subst hkey
      rw [if_pos rfl, Function.update_self, Option.map_some, hT.stamp]
    · have hne : (kind', k) ≠ (kind', key) := fun h => hkey (Prod.mk.inj h).2.symm
      rw [if_neg hkey, Function.update_of_ne hne, hT.own]
  · have hne : (kind', k) ≠ (kind, key) := fun h => hk (Prod.mk.inj h).1
    rw [write, hT.other _ _ _ _ hk, Function.update_of_ne hne]

/-- Without the key in its bucket everything else is there. -/
theorem Table.Lawful.entry_erase (hT : T.Lawful kind wrap) (db : DB) (key : String) :
    (T.update db ((T.bucket db).erase key)).entry =
      fun k => if (kind, key) == k then none else db.entry k := by
  funext ⟨kind', k⟩
  by_cases hk : kind' = kind
  · subst hk
    rw [hT.own, hT.bucket_update, Bucket.get_erase, hT.own]
    by_cases hkey : key = k
    · simp [hkey]
    · simp [hkey]
  · simp [hT.other _ _ _ _ hk, Ne.symm hk]

theorem clusterTable_lawful : clusterTable.Lawful .cluster .cluster := {}

theorem nodePoolTable_lawful : nodePoolTable.Lawful .nodepool .nodePool := {}

theorem machineTable_lawful : machineTable.Lawful .machine .machine := {}

theorem hostTable_lawful : hostTable.Lawful .host .host := {}

theorem machineRolloutTable_lawful : machineRolloutTable.Lawful .machineRollout .machineRollout := {}

theorem clusterRolloutTable_lawful : clusterRolloutTable.Lawful .clusterRollout .clusterRollout := {}

theorem jobTable_lawful : jobTable.Lawful .rolloutJob .rolloutJob := {}

theorem clusterBootstrapTable_lawful :
    clusterBootstrapTable.Lawful .clusterBootstrap .clusterBootstrap := {}

end Store

/-! ## Calls as moves -/

/-- The keys that go with a cluster. -/
def goesWith (cluster : String) : EventKind × String → Bool
  | (.cluster, k) | (.clusterRollout, k) | (.clusterBootstrap, k) => cluster == k
  | (_, k) => hasPrefix k (cluster ++ "\x00")

/-- A record lies under a key of its cluster. -/
theorem goesWith_key (v : Record) : goesWith v.clusterName v.key = true := by
  cases v with
  | cluster | clusterRollout | clusterBootstrap => exact beq_self_eq_true _
  | nodePool | machine | host | machineRollout | rolloutJob => exact hasPrefix_ckey_self _ _

namespace StoreOp

variable {op : StoreOp} {s : Store}

/-- What a call that returns a value does to the registry. -/
def move (s : Store) : StoreOp → Versioned.Move (EventKind × String) Record
  | .putClusterDesired c _ =>
    .put (.cluster, c.name) (.cluster (Store.clusterTable.stamp c (s.db.revision + 1)))
  | .putNodePoolDesired np _ =>
    .put (.nodepool, ckey np.cluster np.name)
      (.nodePool (Store.nodePoolTable.stamp np (s.db.revision + 1)))
  | .putMachineDesired m _ =>
    .put (.machine, ckey m.cluster m.talosEndpoint)
      (.machine (Store.machineTable.stamp m (s.db.revision + 1)))
  | .putHostDesired h _ =>
    .put (.host, ckey h.cluster h.mac) (.host (Store.hostTable.stamp h (s.db.revision + 1)))
  | .putMachineRollout r =>
    .put (.machineRollout, ckey r.cluster r.addr)
      (.machineRollout (Store.machineRolloutTable.stamp r (s.db.revision + 1)))
  | .putClusterRollout r =>
    .put (.clusterRollout, r.cluster)
      (.clusterRollout (Store.clusterRolloutTable.stamp r (s.db.revision + 1)))
  | .putRolloutJob r =>
    .put (.rolloutJob, ckey r.cluster r.pool)
      (.rolloutJob (Store.jobTable.stamp r (s.db.revision + 1)))
  | .putClusterBootstrap r =>
    .put (.clusterBootstrap, r.cluster)
      (.clusterBootstrap (Store.clusterBootstrapTable.stamp r (s.db.revision + 1)))
  | .deleteMachine cluster addr => .drop fun k => (.machine, ckey cluster addr) == k
  | .deleteHost cluster mac => .drop fun k => (.host, ckey cluster mac) == k
  | .deleteCluster cluster => .drop (goesWith cluster)
  | _ => .skip

theorem move_of_read (h : op.writes = false) : op.move s = .skip := by
  cases op <;> first | rfl | cases h

/-- A write moves the counter. -/
theorem counter_move (h : op.writes = true) (R : Registry (EventKind × String) Record) :
    (R.apply (op.move s)).counter = R.counter + 1 := by
  cases op <;> first | rfl | cases h

/-- What is put is a record under its own key, stamped and without observed fields. -/
theorem move_put {key : EventKind × String} {v : Record} (h : op.move s = .put key v) :
    v.key = key ∧ v.revision = s.db.revision + 1 ∧ v.Unobserved := by
  cases op <;> cases h <;> exact ⟨rfl, rfl, by trivial⟩

/-- Everything of a cluster goes. -/
theorem entry_deleteCluster (s : Store) (cluster : String) {db : DB}
    (hc : (StoreOp.deleteCluster cluster).committed s = some db) :
    db.entry = fun k => if goesWith cluster k then none else s.db.entry k := by
  cases hc
  funext ⟨kind, k⟩
  cases kind with
  | cluster | clusterRollout | clusterBootstrap =>
    show Option.map _ (Std.ExtTreeMap.erase _ cluster)[k]? = _
    rw [Bucket.get_erase]
    by_cases hk : cluster = k
    · simp [goesWith, hk]
    · simp [goesWith, hk, DB.entry]
  | nodepool | machine | host | machineRollout | rolloutJob =>
    show Option.map _ (Store.deleteByClusterPrefix _ cluster)[k]? = _
    rw [Bucket.get_deleteByClusterPrefix]
    by_cases hk : hasPrefix k (cluster ++ "\x00") = true
    · simp [goesWith, hk]
    · simp [goesWith, hk, DB.entry]

/-- What a call commits is its move. -/
theorem registry_commit {db : DB} (hc : op.committed s = some db) :
    (⟨s.db.revision + 1, db.entry⟩ : Registry (EventKind × String) Record) =
      s.registry.apply (op.move s) := by
  cases op with
  | putClusterDesired c _ =>
    cases hc
    rw [Store.clusterTable_lawful.entry_write]
    rfl
  | putNodePoolDesired np _ =>
    cases hc
    rw [Store.nodePoolTable_lawful.entry_write]
    rfl
  | putMachineDesired m _ =>
    cases hc
    rw [Store.machineTable_lawful.entry_write]
    rfl
  | putHostDesired h _ =>
    cases hc
    rw [Store.hostTable_lawful.entry_write]
    rfl
  | putMachineRollout r =>
    cases hc
    rw [Store.machineRolloutTable_lawful.entry_write]
    rfl
  | putClusterRollout r =>
    cases hc
    rw [Store.clusterRolloutTable_lawful.entry_write]
    rfl
  | putRolloutJob r =>
    cases hc
    rw [Store.jobTable_lawful.entry_write]
    rfl
  | putClusterBootstrap r =>
    cases hc
    rw [Store.clusterBootstrapTable_lawful.entry_write]
    rfl
  | deleteMachine cluster addr =>
    cases hc
    exact congrArg _ (Store.machineTable_lawful.entry_erase _ _)
  | deleteHost cluster mac =>
    cases hc
    exact congrArg _ (Store.hostTable_lawful.entry_erase _ _)
  | deleteCluster cluster =>
    rw [entry_deleteCluster s cluster hc]
    rfl
  | _ => cases hc

/-- A call that returns a value moves the registry. -/
theorem registry_exec {v : op.Value} (h : (op.exec s).1 = .ok v) :
    (op.exec s).2.registry = s.registry.apply (op.move s) := by
  rcases exec_db s op with ⟨hdb, herr⟩ | ⟨db, _, hc, _, hdb⟩
  · have hread : op.writes = false := by
      by_contra hw
      obtain ⟨e, he⟩ := herr (Bool.eq_true_of_not_eq_false hw)
      rw [he] at h
      cases h
    rw [move_of_read hread, Store.registry, hdb]
    rfl
  · rw [← registry_commit hc, Store.registry, hdb, DB.entry_revision]

end StoreOp

/-! ## What holds of all records -/

namespace Store

variable {s s' : Store} {P : EventKind × String → Record → Prop}

/-- Every record has the property, at the key it is stored under. -/
def Each (P : EventKind × String → Record → Prop) (s : Store) : Prop :=
  ∀ key r v, s.db.entry key = some (r, v) → P key v

theorem entry_empty (key : EventKind × String) : ({} : Store).db.entry key = none := by
  obtain ⟨kind, k⟩ := key
  cases kind <;> simp [DB.entry]

theorem each_empty : Each P {} := by
  intro key r v h
  rw [entry_empty] at h
  cases h

theorem Each.of_db (h : s.Each P) (hdb : s'.db = s.db) : s'.Each P := by
  intro key r v hv
  rw [hdb] at hv
  exact h key r v hv

/-- A call keeps what holds of the record it puts. -/
theorem Each.exec (h : s.Each P) (op : StoreOp)
    (hput : ∀ {u key v}, (op.exec s).1 = .ok u → op.move s = .put key v → P key v) :
    (op.exec s).2.Each P := by
  cases hu : (op.exec s).1 with
  | error e =>
    rw [StoreOp.exec_of_error hu]
    exact h
  | ok u =>
    intro key r v hv
    have hmoved : (s.registry.apply (op.move s)).entry key = some (r, v) := by
      rw [← StoreOp.registry_exec hu]
      exact hv
    rcases Registry.entry_apply hmoved with hold | ⟨hput', rfl⟩
    · exact h key r v hold
    · exact hput hu hput'

/-- Every record is stored under the key built from its own names. -/
def WellKeyed (s : Store) : Prop := s.Each fun key v => v.key = key

theorem wellKeyed_empty : WellKeyed {} := each_empty

/-- Every call keeps the records under their own keys. -/
theorem WellKeyed.exec (h : s.WellKeyed) (op : StoreOp) : (op.exec s).2.WellKeyed :=
  Each.exec h op fun _ hmove => (StoreOp.move_put hmove).1

end Store

/-! ## Histories -/

/-- A call with its answer, or a restart. -/
inductive Access where
  | call (op : StoreOp) (rep : Except StoreError op.Value)
  | reopen

namespace Access

/-- The store after an access; a call that fails has changed nothing. -/
def after (s : Store) : Access → Store
  | .call op (.ok _) => (op.exec s).2
  | .call _ (.error _) => s
  | .reopen => s.open

/-- The answer is that of the store, or a write has failed in the file system. -/
def Fits (s : Store) : Access → Prop
  | .call op rep => rep = (op.exec s).1 ∨ op.writes = true ∧ ∃ msg, rep = .error (.other msg)
  | .reopen => True

def move (s : Store) : Access → Versioned.Move (EventKind × String) Record
  | .call op (.ok _) => op.move s
  | _ => .skip

/-- The access is a put or a delete that succeeded. -/
def commits : Access → Bool
  | .call op (.ok _) => op.writes
  | _ => false

variable {s : Store} {a : Access}

/-- A value is an answer of the store. -/
theorem Fits.ok {op : StoreOp} {v : op.Value} (h : Fits s (.call op (.ok v))) :
    (op.exec s).1 = .ok v := by
  rcases h with h | ⟨_, msg, hmsg⟩
  · exact h.symm
  · cases hmsg

theorem registry_after (h : a.Fits s) : (a.after s).registry = s.registry.apply (a.move s) := by
  cases a with
  | reopen => rfl
  | call op rep =>
    cases rep with
    | error e => rfl
    | ok v => exact StoreOp.registry_exec h.ok

theorem revision_after (h : a.Fits s) :
    (a.after s).db.revision = s.db.revision + if a.commits then 1 else 0 := by
  have hreg : (a.after s).registry.counter = (s.registry.apply (a.move s)).counter := by
    rw [registry_after h]
  cases a with
  | reopen => rfl
  | call op rep =>
    cases rep with
    | error e => rfl
    | ok v =>
      refine hreg.trans ?_
      by_cases hw : op.writes = true
      · rw [commits, if_pos hw]
        exact StoreOp.counter_move hw s.registry
      · rw [commits, if_neg hw]
        rw [move, StoreOp.move_of_read (Bool.eq_false_of_not_eq_true hw)]
        rfl

end Access

/-- A sequence of accesses to a store that was empty before. -/
def History (h : List Access) : Prop := Along Access.after Access.Fits {} h

/-- The store after a history. -/
def storeAfter (h : List Access) : Store := h.foldl Access.after {}

namespace History

variable {h : List Access} {a : Access}

theorem storeAfter_snoc : storeAfter (h ++ [a]) = a.after (storeAfter h) := by
  rw [storeAfter, List.foldl_append]
  rfl

/-- What the empty store satisfies and every access keeps holds after every history. -/
theorem invariant {P : Store → Prop} (hempty : P {})
    (hstep : ∀ {s : Store} {a : Access}, a.Fits s → P s → P (a.after s)) (hh : History h) : P (storeAfter h) := by
  have hall : ∀ {s}, P s → Along Access.after Access.Fits s h → P (h.foldl Access.after s) := by
    clear hh
    induction h with
    | nil => exact fun hs _ => hs
    | cons a h ih => exact fun hs hh => ih (hstep hh.1 hs) hh.2
  exact hall hempty hh

/-- A history is a run of the registry. -/
theorem run (hh : History h) :
    Run (fun n => (storeAfter (h.take n)).registry) fun n =>
      match h[n]? with
      | some a => a.move (storeAfter (h.take n))
      | none => .skip where
  start := by
    have hempty : ({} : Store).registry = {} := by
      show (⟨0, DB.entry {}⟩ : Registry (EventKind × String) Record) = ⟨0, fun _ => none⟩
      congr 1
      exact funext Store.entry_empty
    exact hempty
  step n := by
    cases hn : h[n]? with
    | none =>
      have hlen : h.length ≤ n := List.getElem?_eq_none_iff.1 hn
      rw [List.take_of_length_le hlen, List.take_of_length_le (Nat.le_succ_of_le hlen)]
      rfl
    | some a =>
      have hsucc : h.take (n + 1) = h.take n ++ [a] := by
        rw [List.take_add_one, hn]
        rfl
      have hfit : a.Fits (storeAfter (h.take n)) := Along.at_index hh hn
      rw [hsucc, storeAfter_snoc]
      exact Access.registry_after hfit

/-- The counter counts the puts and deletes that succeeded. -/
theorem revision_foldl {s : Store} (hh : Along Access.after Access.Fits s h) :
    (h.foldl Access.after s).db.revision = s.db.revision + h.countP Access.commits := by
  induction h generalizing s with
  | nil => rfl
  | cons a h ih =>
    rw [List.foldl_cons, ih hh.2, Access.revision_after hh.1, List.countP_cons]
    omega

end History

end Medea
