import Medea.Inventory.Records
import Std.Data.ExtTreeMap

/-!
# The embedded store

The buckets of the bbolt file, the in-memory parts of `BoltStore`, and its operations as functions
on that state. A bucket is an ordered map from key strings to records, iterated in key order; the
compound keys are the strings the code builds, so two different pairs of names can share a key when
a name contains the separator byte.

Desired records are written by compare-and-swap (`putCAS`), rollout records by last-writer-wins
(`putLWW`). Both stamp the record with the next revision, drop the observed fields and publish one
event. `Open` gives the state after a restart: the buckets stay and the caches are gone.
-/

set_option autoImplicit false

namespace Medea

/-- A bucket: records by key, in key order. -/
abbrev Bucket (V : Type) := Std.ExtTreeMap String V

inductive StoreError where
  | conflict
  | other (msg : String)
  deriving DecidableEq

/-- `err.Error()`. -/
def StoreError.text : StoreError → String
  | .conflict => "store: revision conflict"
  | .other msg => msg

inductive EventKind where
  | cluster
  | nodepool
  | machine
  | host
  | machineRollout
  | clusterRollout
  | rolloutJob
  | clusterBootstrap
  deriving DecidableEq

/-- A change published to the watchers. -/
structure Change where
  kind : EventKind
  key : String
  revision : Nat
  deriving DecidableEq

/-- Capacity of a subscriber's buffer. -/
def subBuffer : Nat := 256

/-- The persisted buckets. -/
structure DB where
  revision : Nat := 0
  clusters : Bucket Cluster := ∅
  nodePools : Bucket NodePool := ∅
  machines : Bucket Machine := ∅
  hosts : Bucket Host := ∅
  clusterRollouts : Bucket ClusterRollout := ∅
  machineRollouts : Bucket MachineRollout := ∅
  jobs : Bucket Rollout := ∅
  bootstraps : Bucket ClusterBootstrap := ∅

/-- The store: the file, the revision last published, the observed caches and the subscribers. -/
structure Store where
  db : DB := {}
  lastRev : Nat := 0
  obsCluster : Bucket ClusterObserved := ∅
  obsMachine : Bucket MachineObserved := ∅
  subs : List (Nat × List Change) := []

/-- Opening the file: everything that was only in memory is gone. -/
def Store.open (s : Store) : Store := { db := s.db, lastRev := s.db.revision }

/-! ## Keys -/

/-- Compound key `<a>\x00<b>`. -/
def ckey (a b : String) : String := a ++ "\x00" ++ b

def hasPrefix (s lead : String) : Bool := lead.toList.isPrefixOf s.toList

/-- A name free of the key separator. -/
def PlainName (s : String) : Prop := '\x00' ∉ s.toList

instance (s : String) : Decidable (PlainName s) := inferInstanceAs (Decidable (_ ∉ _))

@[simp] theorem ckey_toList (a b : String) : (ckey a b).toList = a.toList ++ '\x00' :: b.toList := by
  simp [ckey, String.toList_append, List.append_assoc]

theorem split_at_separator {a a' b b' : List Char} (ha : '\x00' ∉ a) (ha' : '\x00' ∉ a')
    (h : a ++ '\x00' :: b = a' ++ '\x00' :: b') : a = a' ∧ b = b' := by
  -- on the first name; the separator is in neither of the two
  induction a generalizing a' with
  | nil =>
    cases a' with
    | nil =>
      simp only [List.nil_append, List.cons.injEq, true_and] at h
      exact ⟨rfl, h⟩
    | cons x xs =>
      simp only [List.nil_append, List.cons_append, List.cons.injEq] at h
      exact absurd (h.1 ▸ List.mem_cons_self) ha'
  | cons x xs ih =>
    cases a' with
    | nil =>
      simp only [List.nil_append, List.cons_append, List.cons.injEq] at h
      exact absurd (h.1.symm ▸ List.mem_cons_self) ha
    | cons y ys =>
      simp only [List.cons_append, List.cons.injEq] at h
      obtain ⟨rfl, h⟩ := h
      obtain ⟨rfl, rfl⟩ := ih (fun m => ha (List.mem_cons_of_mem _ m))
        (fun m => ha' (List.mem_cons_of_mem _ m)) h
      exact ⟨rfl, rfl⟩

/-- Compound keys of plain first names determine both names. -/
theorem ckey_inj {a a' b b' : String} (ha : PlainName a) (ha' : PlainName a')
    (h : ckey a b = ckey a' b') : a = a' ∧ b = b' := by
  have hl : a.toList ++ '\x00' :: b.toList = a'.toList ++ '\x00' :: b'.toList := by
    rw [← ckey_toList, ← ckey_toList, h]
  obtain ⟨h1, h2⟩ := split_at_separator ha ha' hl
  exact ⟨String.toList_inj.1 h1, String.toList_inj.1 h2⟩

/-- Within one cluster a key determines the name, whatever the cluster is called. -/
theorem ckey_right {a b b' : String} (h : ckey a b = ckey a b') : b = b' := by
  have hl : a.toList ++ '\x00' :: b.toList = a.toList ++ '\x00' :: b'.toList := by
    rw [← ckey_toList, ← ckey_toList, h]
  exact String.toList_inj.1 (List.cons.inj (List.append_cancel_left hl)).2

/-- For one name a key determines the cluster. -/
theorem ckey_left {a a' b : String} (h : ckey a b = ckey a' b) : a = a' := by
  have hl : a.toList ++ '\x00' :: b.toList = a'.toList ++ '\x00' :: b.toList := by
    rw [← ckey_toList, ← ckey_toList, h]
  exact String.toList_inj.1 (List.append_cancel_right hl)

/-- A key has the lead of the cluster it was built from, whatever the cluster is called. -/
theorem hasPrefix_ckey_self (c b : String) : hasPrefix (ckey c b) (c ++ "\x00") = true := by
  rw [hasPrefix, List.isPrefixOf_iff_prefix, ckey_toList]
  exact ⟨b.toList, by simp⟩

/-- A key has the lead of exactly the cluster it was built from. -/
theorem hasPrefix_ckey {a b c : String} (ha : PlainName a) (hc : PlainName c) :
    hasPrefix (ckey a b) (c ++ "\x00") = true ↔ a = c := by
  have hlead : (c ++ "\x00").toList = c.toList ++ ['\x00'] := by simp [String.toList_append]
  constructor
  · intro hlead'
    rw [hasPrefix, List.isPrefixOf_iff_prefix, hlead, ckey_toList] at hlead'
    obtain ⟨rest, h⟩ := hlead'
    have h' : c.toList ++ '\x00' :: rest = a.toList ++ '\x00' :: b.toList := by
      rw [← h]
      simp
    exact (String.toList_inj.1 (split_at_separator hc ha h').1).symm
  · rintro rfl
    exact hasPrefix_ckey_self a b

/-! ## Writes -/

namespace Store

variable {V : Type}

/-- A record kind: its bucket, the stamp put on a written record, and the revision read back. -/
structure Table (V : Type) where
  bucket : DB → Bucket V
  update : DB → Bucket V → DB
  stamp : V → Nat → V
  revisionOf : V → Nat

def clusterTable : Table Cluster where
  bucket := DB.clusters
  update db b := { db with clusters := b }
  -- observed values are never persisted
  stamp c rev := { c with revision := rev, observed := none }
  revisionOf := Cluster.revision

def nodePoolTable : Table NodePool where
  bucket := DB.nodePools
  update db b := { db with nodePools := b }
  stamp np rev := { np with revision := rev }
  revisionOf := NodePool.revision

def machineTable : Table Machine where
  bucket := DB.machines
  update db b := { db with machines := b }
  stamp m rev := { m with revision := rev, observed := none }
  revisionOf := Machine.revision

def hostTable : Table Host where
  bucket := DB.hosts
  update db b := { db with hosts := b }
  stamp h rev := { h with revision := rev }
  revisionOf := Host.revision

def machineRolloutTable : Table MachineRollout where
  bucket := DB.machineRollouts
  update db b := { db with machineRollouts := b }
  stamp r rev := { r with revision := rev }
  revisionOf := MachineRollout.revision

def clusterRolloutTable : Table ClusterRollout where
  bucket := DB.clusterRollouts
  update db b := { db with clusterRollouts := b }
  stamp r rev := { r with revision := rev }
  revisionOf := ClusterRollout.revision

def clusterBootstrapTable : Table ClusterBootstrap where
  bucket := DB.bootstraps
  update db b := { db with bootstraps := b }
  stamp r rev := { r with revision := rev }
  revisionOf := ClusterBootstrap.revision

def jobTable : Table Rollout where
  bucket := DB.jobs
  update db b := { db with jobs := b }
  stamp r rev := { r with revision := rev }
  revisionOf := Rollout.revision

/-- Fan an event out, dropping it where the buffer is full. -/
def publish (s : Store) (ev : Change) : Store :=
  { s with subs := s.subs.map fun sub =>
      -- a slow watcher loses events; the write does not wait for it
      if sub.2.length < subBuffer then (sub.1, sub.2 ++ [ev]) else sub }

/-- The state after a committed write of `db`: counter bumped, event published. -/
def commit (s : Store) (db : DB) (kind : EventKind) (eventKey : String) : Store :=
  -- one counter for all buckets
  let newRev := s.db.revision + 1
  publish { s with db := { db with revision := newRev }, lastRev := newRev }
    ⟨kind, eventKey, newRev⟩

/-- The write of one stamped record. -/
def write (T : Table V) (s : Store) (key : String) (msg : V) : DB :=
  T.update s.db ((T.bucket s.db).insert key (T.stamp msg (s.db.revision + 1)))

/-- The compare part of a compare-and-swap: the revision last seen is the stored one. -/
def matches? (T : Table V) (s : Store) (key : String) (expected : Nat) : Bool :=
  match (T.bucket s.db)[key]? with
  | some cur => T.revisionOf cur == expected
  -- zero expects that there is no record, so it only creates
  | none => expected == 0

/-- Compare-and-swap write. -/
def putCAS (T : Table V) (kind : EventKind) (key eventKey : String) (expected : Nat) (msg : V)
    (s : Store) : Except StoreError Nat × Store :=
  if matches? T s key expected then
    (.ok (s.db.revision + 1), s.commit (write T s key msg) kind eventKey)
  else (.error .conflict, s)

/-- Last-writer-wins write. -/
def putLWW (T : Table V) (kind : EventKind) (key eventKey : String) (msg : V) (s : Store) :
    Except StoreError Unit × Store :=
  (.ok (), s.commit (write T s key msg) kind eventKey)

/-- Every entry whose key leads with the cluster is removed. -/
def deleteByClusterPrefix (b : Bucket V) (cluster : String) : Bucket V :=
  b.filter fun k _ => !hasPrefix k (cluster ++ "\x00")

/-- The records whose key leads with the cluster, in key order. -/
def listByCluster (b : Bucket V) (cluster : String) : List V :=
  (b.toList.filter fun kv => hasPrefix kv.1 (cluster ++ "\x00")).map Prod.snd

/-! ## Typed operations -/

def getCluster (s : Store) (cluster : String) : Option Cluster × Nat :=
  match s.db.clusters[cluster]? with
  | none => (none, 0)
  -- the cache is joined in on every read
  | some c => (some { c with observed := s.obsCluster[cluster]? }, c.revision)

def listClusters (s : Store) : List Cluster :=
  s.db.clusters.toList.map fun kv => { kv.2 with observed := s.obsCluster[kv.1]? }

def putClusterDesired (c : Cluster) (expected : Nat) (s : Store) : Except StoreError Nat × Store :=
  if c.name = "" then (.error (.other "store: cluster name required"), s)
  else putCAS clusterTable .cluster c.name c.name expected c s

def getNodePool (s : Store) (cluster name : String) : Option NodePool × Nat :=
  match s.db.nodePools[ckey cluster name]? with
  | none => (none, 0)
  | some np => (some np, np.revision)

def listNodePools (s : Store) (cluster : String) : List NodePool :=
  listByCluster s.db.nodePools cluster

def putNodePoolDesired (np : NodePool) (expected : Nat) (s : Store) :
    Except StoreError Nat × Store :=
  if np.cluster = "" ∨ np.name = "" then
    (.error (.other "store: nodepool cluster and name required"), s)
  else putCAS nodePoolTable .nodepool (ckey np.cluster np.name) (np.cluster ++ "/" ++ np.name)
    expected np s

def getMachine (s : Store) (cluster addr : String) : Option Machine × Nat :=
  match s.db.machines[ckey cluster addr]? with
  | none => (none, 0)
  | some m => (some { m with observed := s.obsMachine[cluster ++ "\x00" ++ addr]? }, m.revision)

def listMachines (s : Store) (cluster pool : String) : List Machine :=
  (s.db.machines.toList.filter fun kv =>
    hasPrefix kv.1 (cluster ++ "\x00") && (pool == "" || kv.2.pool == pool)).map
      fun kv => { kv.2 with observed := s.obsMachine[kv.1]? }

def putMachineDesired (m : Machine) (expected : Nat) (s : Store) : Except StoreError Nat × Store :=
  if m.cluster = "" ∨ m.talosEndpoint = "" then
    (.error (.other "store: machine cluster and talos_endpoint required"), s)
  else putCAS machineTable .machine (ckey m.cluster m.talosEndpoint)
    (m.cluster ++ "/" ++ m.talosEndpoint) expected m s

def deleteMachine (cluster addr : String) (s : Store) : Except StoreError Unit × Store :=
  if cluster = "" ∨ addr = "" then
    (.error (.other "store: machine cluster and addr required"), s)
  else
    -- the counter moves also when there was no such machine
    (.ok (), commit { s with obsMachine := s.obsMachine.erase (cluster ++ "\x00" ++ addr) }
      { s.db with machines := s.db.machines.erase (ckey cluster addr) } .machine
      (cluster ++ "/" ++ addr))

def getHost (s : Store) (cluster mac : String) : Option Host × Nat :=
  match s.db.hosts[ckey cluster mac]? with
  | none => (none, 0)
  | some h => (some h, h.revision)

def listHosts (s : Store) (cluster pool : String) : List Host :=
  (listByCluster s.db.hosts cluster).filter fun h => pool == "" || h.pool == pool

def putHostDesired (h : Host) (expected : Nat) (s : Store) : Except StoreError Nat × Store :=
  if h.cluster = "" ∨ h.mac = "" then
    (.error (.other "store: host cluster and mac required"), s)
  else putCAS hostTable .host (ckey h.cluster h.mac) (h.cluster ++ "/" ++ h.mac) expected h s

def deleteHost (cluster mac : String) (s : Store) : Except StoreError Unit × Store :=
  if cluster = "" ∨ mac = "" then (.error (.other "store: host cluster and mac required"), s)
  else
    (.ok (), commit s { s.db with hosts := s.db.hosts.erase (ckey cluster mac) } .host
      (cluster ++ "/" ++ mac))

/-- All records of a cluster and its observed entries go in one transaction. -/
def deleteCluster (cluster : String) (s : Store) : Except StoreError Unit × Store :=
  if cluster = "" then (.error (.other "store: cluster required"), s)
  else
    (.ok (), commit
      { s with
        obsCluster := s.obsCluster.erase cluster
        obsMachine := deleteByClusterPrefix s.obsMachine cluster }
      { s.db with
        clusters := s.db.clusters.erase cluster
        clusterRollouts := s.db.clusterRollouts.erase cluster
        bootstraps := s.db.bootstraps.erase cluster
        nodePools := deleteByClusterPrefix s.db.nodePools cluster
        machines := deleteByClusterPrefix s.db.machines cluster
        hosts := deleteByClusterPrefix s.db.hosts cluster
        machineRollouts := deleteByClusterPrefix s.db.machineRollouts cluster
        jobs := deleteByClusterPrefix s.db.jobs cluster }
      .cluster cluster)

def getMachineRollout (s : Store) (cluster addr : String) : Option MachineRollout :=
  s.db.machineRollouts[ckey cluster addr]?

def putMachineRollout (r : MachineRollout) (s : Store) : Except StoreError Unit × Store :=
  if r.cluster = "" ∨ r.addr = "" then
    (.error (.other "store: machine rollout cluster and addr required"), s)
  else putLWW machineRolloutTable .machineRollout (ckey r.cluster r.addr)
    (r.cluster ++ "/" ++ r.addr) r s

def getClusterRollout (s : Store) (cluster : String) : Option ClusterRollout :=
  s.db.clusterRollouts[cluster]?

def putClusterRollout (r : ClusterRollout) (s : Store) : Except StoreError Unit × Store :=
  if r.cluster = "" then (.error (.other "store: cluster rollout cluster required"), s)
  else putLWW clusterRolloutTable .clusterRollout r.cluster r.cluster r s

def getClusterBootstrap (s : Store) (cluster : String) : Option ClusterBootstrap :=
  s.db.bootstraps[cluster]?

def putClusterBootstrap (r : ClusterBootstrap) (s : Store) : Except StoreError Unit × Store :=
  if r.cluster = "" then (.error (.other "store: cluster bootstrap cluster required"), s)
  else putLWW clusterBootstrapTable .clusterBootstrap r.cluster r.cluster r s

def listClusterBootstraps (s : Store) : List ClusterBootstrap :=
  s.db.bootstraps.toList.map Prod.snd

def getRolloutJob (s : Store) (cluster pool : String) : Option Rollout :=
  s.db.jobs[ckey cluster pool]?

def listRolloutJobs (s : Store) (cluster : String) : List Rollout :=
  listByCluster s.db.jobs cluster

def putRolloutJob (r : Rollout) (s : Store) : Except StoreError Unit × Store :=
  if r.cluster = "" then (.error (.other "store: rollout cluster required"), s)
  else putLWW jobTable .rolloutJob (ckey r.cluster r.pool) (r.cluster ++ "/" ++ r.pool) r s

def setClusterObserved (cluster : String) (o : ClusterObserved) (s : Store) : Store :=
  { s with obsCluster := s.obsCluster.insert cluster o }

def setMachineObserved (cluster addr : String) (o : MachineObserved) (s : Store) : Store :=
  { s with obsMachine := s.obsMachine.insert (cluster ++ "\x00" ++ addr) o }

end Store

end Medea
