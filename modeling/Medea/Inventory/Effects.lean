import Medea.Inventory.Operations

/-!
# What store calls change

For each record kind, the calls that can change its bucket and what they leave there.
-/

set_option autoImplicit false

namespace Medea

/-! ## Buckets -/

namespace Bucket

variable {V : Type} {b : Bucket V} {P : String → V → Prop}

theorem get_insert (k k' : String) (v : V) :
    (b.insert k v)[k']? = if k = k' then some v else b[k']? := by
  rw [Std.ExtTreeMap.getElem?_insert]
  simp only [Std.compare_eq_iff_eq]

theorem get_erase (k k' : String) : (b.erase k)[k']? = if k = k' then none else b[k']? := by
  rw [Std.ExtTreeMap.getElem?_erase]
  simp only [Std.compare_eq_iff_eq]

theorem insert_eq_update (b : Bucket V) (key : String) (v : V) :
    (fun k => (b.insert key v)[k]?) = Function.update (fun k => b[k]?) key (some v) := by
  funext k
  rw [Function.update_apply, get_insert]
  simp only [eq_comm]

theorem erase_eq_update (b : Bucket V) (key : String) :
    (fun k => (b.erase key)[k]?) = Function.update (fun k => b[k]?) key none := by
  funext k
  rw [Function.update_apply, get_erase]
  simp only [eq_comm]

theorem get_deleteByClusterPrefix (cluster k : String) :
    (Store.deleteByClusterPrefix b cluster)[k]? =
      if hasPrefix k (cluster ++ "\x00") then none else b[k]? := by
  rw [Store.deleteByClusterPrefix, Std.ExtTreeMap.getElem?_filter']
  cases hasPrefix k (cluster ++ "\x00") <;> cases b[k]? <;> simp

/-- Every stored record satisfies `P` together with its key. -/
def Holds (P : String → V → Prop) (b : Bucket V) : Prop := ∀ k v, b[k]? = some v → P k v

theorem holds_empty : Holds P (∅ : Bucket V) := by
  intro k v h
  rw [Std.ExtTreeMap.getElem?_empty] at h
  cases h

theorem Holds.insert (h : Holds P b) {k : String} {v : V} (hv : P k v) :
    Holds P (b.insert k v) := by
  intro k' v' hk
  rw [get_insert] at hk
  split at hk
  next heq =>
    cases hk
    exact heq ▸ hv
  next => exact h k' v' hk

/-- The records of a listing are stored records. -/
theorem mem_listByCluster {cluster : String} {v : V} (h : v ∈ Store.listByCluster b cluster) :
    ∃ k, b[k]? = some v ∧ hasPrefix k (cluster ++ "\x00") = true := by
  rw [Store.listByCluster, List.mem_map] at h
  obtain ⟨⟨k, v'⟩, hm, rfl⟩ := h
  obtain ⟨hm, hp⟩ := List.mem_filter.1 hm
  exact ⟨k, Std.ExtTreeMap.mem_toList_iff_getElem?_eq_some.1 hm, hp⟩

theorem mem_listByCluster_of_get {cluster k : String} {v : V} (h : b[k]? = some v)
    (hlead : hasPrefix k (cluster ++ "\x00") = true) : v ∈ Store.listByCluster b cluster := by
  rw [Store.listByCluster, List.mem_map]
  refine ⟨(k, v), List.mem_filter.2 ⟨?_, hlead⟩, rfl⟩
  exact Std.ExtTreeMap.mem_toList_iff_getElem?_eq_some.2 h

end Bucket

namespace Store

variable {s : Store} {cluster : String}

theorem mem_listMachines {pool : String} {m : Machine} (h : m ∈ s.listMachines cluster pool) :
    ∃ (k : String) (m' : Machine), s.db.machines[k]? = some m' ∧
      hasPrefix k (cluster ++ "\x00") = true ∧ m = { m' with observed := s.obsMachine[k]? } := by
  obtain ⟨⟨k, m'⟩, hmem, rfl⟩ := List.mem_map.1 h
  obtain ⟨hmem, hlead⟩ := List.mem_filter.1 hmem
  exact ⟨k, m', Std.ExtTreeMap.mem_toList_iff_getElem?_eq_some.1 hmem,
    (Bool.and_eq_true_iff.1 hlead).1, rfl⟩

/-- The hosts of a listing are stored, under the keys of the cluster. -/
theorem mem_listHosts {pool : String} {h : Host} : h ∈ s.listHosts cluster pool ↔
    (∃ k, s.db.hosts[k]? = some h ∧ hasPrefix k (cluster ++ "\x00") = true) ∧
      (pool = "" ∨ h.pool = pool) := by
  rw [listHosts, List.mem_filter]
  constructor
  · rintro ⟨hm, hp⟩
    exact ⟨Bucket.mem_listByCluster hm, by simpa using hp⟩
  · rintro ⟨⟨k, hk, hlead⟩, hp⟩
    exact ⟨Bucket.mem_listByCluster_of_get hk hlead, by simpa using hp⟩

/-- The machine under a key of the cluster is listed, whatever its pool. -/
theorem mem_listMachines_of_get {k : String} {m : Machine} (h : s.db.machines[k]? = some m)
    (hlead : hasPrefix k (cluster ++ "\x00") = true) :
    ({ m with observed := s.obsMachine[k]? } : Machine) ∈ s.listMachines cluster "" := by
  refine List.mem_map.2 ⟨(k, m), List.mem_filter.2 ⟨?_, ?_⟩, rfl⟩
  · exact Std.ExtTreeMap.mem_toList_iff_getElem?_eq_some.2 h
  · simp [hlead]

end Store

/-! ## Commits -/

namespace StoreOp

variable (s : Store)

/-- The buckets a call writes when it commits, before the counter is bumped. -/
def committed : StoreOp → Option DB
  | .putClusterDesired c _ => some (Store.write Store.clusterTable s c.name c)
  | .putNodePoolDesired np _ =>
    some (Store.write Store.nodePoolTable s (ckey np.cluster np.name) np)
  | .putMachineDesired m _ =>
    some (Store.write Store.machineTable s (ckey m.cluster m.talosEndpoint) m)
  | .deleteMachine cluster addr =>
    some { s.db with machines := s.db.machines.erase (ckey cluster addr) }
  | .putHostDesired h _ => some (Store.write Store.hostTable s (ckey h.cluster h.mac) h)
  | .deleteHost cluster mac => some { s.db with hosts := s.db.hosts.erase (ckey cluster mac) }
  | .deleteCluster cluster => some
      { s.db with
        clusters := s.db.clusters.erase cluster
        clusterRollouts := s.db.clusterRollouts.erase cluster
        bootstraps := s.db.bootstraps.erase cluster
        nodePools := Store.deleteByClusterPrefix s.db.nodePools cluster
        machines := Store.deleteByClusterPrefix s.db.machines cluster
        hosts := Store.deleteByClusterPrefix s.db.hosts cluster
        machineRollouts := Store.deleteByClusterPrefix s.db.machineRollouts cluster
        jobs := Store.deleteByClusterPrefix s.db.jobs cluster }
  | .putMachineRollout r =>
    some (Store.write Store.machineRolloutTable s (ckey r.cluster r.addr) r)
  | .putClusterRollout r => some (Store.write Store.clusterRolloutTable s r.cluster r)
  | .putClusterBootstrap r => some (Store.write Store.clusterBootstrapTable s r.cluster r)
  | .putRolloutJob r => some (Store.write Store.jobTable s (ckey r.cluster r.pool) r)
  | _ => none

/-- What becomes of a write at two stores: it is refused at both and changes nothing, or it commits the
same and returns the same at both, after forgetting something observed perhaps. -/
def Settles {α : Type} (s s' : Store) (committed : Option DB) (r r' : Except StoreError α × Store) :
    Prop :=
  (∃ e, r = (.error e, s) ∧ r' = (.error e, s')) ∨
    ∃ db v kind key t t', committed = some db ∧
      (t.db = s.db ∧ t.subs = s.subs ∧ r = (.ok v, Store.commit t db kind key)) ∧
      (t'.db = s.db ∧ t'.subs = s'.subs ∧ r' = (.ok v, Store.commit t' db kind key))

section Settles

variable {s} {s' : Store} {α V : Type} {T : Store.Table V} {kind : EventKind} {key eventKey : String}

/-- A check of the names in front of a write. -/
theorem guarded_settles {c : Prop} [Decidable c] {msg : StoreError} {committed : Option DB}
    {rest rest' : Except StoreError α × Store} (h : Settles s s' committed rest rest') :
    Settles s s' committed (if c then (.error msg, s) else rest)
      (if c then (.error msg, s') else rest') := by
  split_ifs
  · exact Or.inl ⟨msg, rfl, rfl⟩
  · exact h

theorem commit_settles {t t' : Store} (ht : t.db = s.db ∧ t.subs = s.subs)
    (ht' : t'.db = s.db ∧ t'.subs = s'.subs) {db : DB} {v : α} :
    Settles s s' (some db) (.ok v, t.commit db kind eventKey) (.ok v, t'.commit db kind eventKey) :=
  Or.inr ⟨db, v, kind, eventKey, t, t', rfl, ⟨ht.1, ht.2, rfl⟩, ht'.1, ht'.2, rfl⟩

theorem putCAS_settles (hdb : s.db = s'.db) {expected : Nat} {msg : V} :
    Settles s s' (some (Store.write T s key msg)) (Store.putCAS T kind key eventKey expected msg s)
      (Store.putCAS T kind key eventKey expected msg s') := by
  have hmatch : Store.matches? T s' key expected = Store.matches? T s key expected := by
    rw [Store.matches?, Store.matches?, hdb]
  have hwrite : Store.write T s' key msg = Store.write T s key msg := by
    rw [Store.write, Store.write, hdb]
  rw [Store.putCAS, Store.putCAS, hmatch, hwrite, ← hdb]
  split_ifs
  · exact commit_settles ⟨rfl, rfl⟩ ⟨hdb.symm, rfl⟩
  · exact Or.inl ⟨_, rfl, rfl⟩

/-- The outcome of a write depends on the file alone. -/
theorem exec_settles {op : StoreOp} (hw : op.writes = true) (hdb : s.db = s'.db) :
    Settles s s' (op.committed s) (op.exec s) (op.exec s') := by
  obtain ⟨db, _, _, _, _⟩ := s
  obtain ⟨db', _, _, _, _⟩ := s'
  obtain rfl : db = db' := hdb
  cases op with
  | putClusterDesired | putNodePoolDesired | putMachineDesired | putHostDesired =>
    exact guarded_settles (putCAS_settles (by rfl))
  | deleteMachine | deleteHost | deleteCluster | putMachineRollout | putClusterRollout
  | putClusterBootstrap | putRolloutJob =>
    exact guarded_settles (commit_settles ⟨by rfl, by rfl⟩ ⟨by rfl, by rfl⟩)
  | _ => cases hw

end Settles

/-- A call commits what it writes and returns a value, or it leaves the buckets alone; a write that
leaves them alone returns an error. -/
theorem exec_db (op : StoreOp) :
    ((op.exec s).2.db = s.db ∧ (op.writes = true → ∃ e, (op.exec s).1 = .error e)) ∨
      ∃ db v, op.committed s = some db ∧ (op.exec s).1 = .ok v ∧
        (op.exec s).2.db = { db with revision := s.db.revision + 1 } := by
  cases hw : op.writes with
  | false => cases op <;> first | exact Or.inl ⟨rfl, nofun⟩ | cases hw
  | true =>
    rcases exec_settles hw (rfl : s.db = s.db) with ⟨e, he, -⟩ | ⟨db, v, _, _, t, _, hc, ⟨ht, -, hr⟩, -⟩
    · exact Or.inl ⟨by rw [he], fun _ => ⟨e, by rw [he]⟩⟩
    · refine Or.inr ⟨db, v, hc, by rw [hr], ?_⟩
      rw [hr, ← ht]
      rfl

theorem exec_same {op : StoreOp} (hw : op.writes = true) {s s' : Store} (hdb : s.db = s'.db) :
    (op.exec s).1 = (op.exec s').1 ∧ (op.exec s).2.db = (op.exec s').2.db := by
  rcases exec_settles hw hdb with
    ⟨e, he, he'⟩ | ⟨db, v, kind, key, t, t', -, ⟨ht, -, hr⟩, ht', -, hr'⟩
  · rw [he, he']
    exact ⟨rfl, hdb⟩
  · rw [hr, hr']
    refine ⟨rfl, ?_⟩
    show { db with revision := t.db.revision + 1 } = { db with revision := t'.db.revision + 1 }
    rw [ht, ht']

/-- A call that returns an error changes nothing, in the file or in memory. -/
theorem exec_of_error {s : Store} {op : StoreOp} {e : StoreError} (h : (op.exec s).1 = .error e) :
    (op.exec s).2 = s := by
  cases hw : op.writes with
  | false => cases op <;> first | cases h | cases hw
  | true =>
    rcases exec_settles hw (rfl : s.db = s.db) with ⟨e', he, -⟩ | ⟨_, _, _, _, _, _, -, ⟨-, -, hr⟩, -⟩
    · rw [he]
    · rw [hr] at h
      cases h

end StoreOp

end Medea
