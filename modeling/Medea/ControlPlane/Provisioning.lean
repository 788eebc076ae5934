import Medea.ControlPlane.History
import Medea.Interaction.Script
import Medea.Properties.Revisions
import Medea.Provision.Outline

/-!
# The provisioning executor among its neighbours

Passes of the provisioning executor, interleaved one operation at a time with API calls, with edits of
single records by other tools, and with crashes. There is no call that sets the number of replicas of a
pool or its selector, so the edits are part of the system: an edit is any one call on the store.

A run starts from any inventory: any store that some history of calls leads to (`Store.Reachable`). The
second part says what the events of a pass do to the hosts, the machines and the members of the pools,
which are all a pass works on (`Inventory`).
-/

set_option autoImplicit false

namespace Medea

open Medea.Interaction Medea.Versioned CompareAndSwap

/-! ## The system -/

/-- The executor and its neighbours. -/
inductive Actor where
  | executor
  | client (n : Nat)
  deriving DecidableEq

inductive Activity where
  | pass
  | request (req : Request)
  | edit (op : StoreOp)
  deriving DecidableEq

def Settings.activity (cfg : Settings) : Activity → Prog Unit
  | .pass => discard cfg.provisioning.runOnce
  | .request req => cfg.server.handle req
  | .edit op => discard (callStore op)

def Actor.may : Actor → Activity → Bool
  | .executor, .pass => true
  | .client _, .request _ | .client _, .edit _ => true
  | _, _ => false

def provisioningPlane (cfg : Settings) : System medeaSig World Actor Activity where
  task := cfg.activity
  may i a := i.may a = true
  handle := World.handles
  restart w := ⟨w.store.open⟩

/-- Labels of the runs, and the configurations between them. -/
abbrev Act := Label medeaSig Actor Activity

abbrev Scene := Config medeaSig World Actor

/-- Nobody is at work. -/
def Scene.idle (s : Store) : Scene := Config.idle medeaSig Actor ⟨s⟩

/-- Runs of scripts: the store answers itself, and its writes do not fail. -/
def Scene.player (cfg : Settings) : Player (provisioningPlane cfg) Oracle where
  allowed := Actor.may
  answer w oracle op := w.answer oracle op
  may h := h
  handles w oracle op := w.answer_handles oracle op

/-! ## Events and the store -/

namespace Ev

/-- The store after an event. -/
def after (s : Store) : Ev → Store
  | ⟨.store op, rep⟩ => (Access.call op rep).after s
  | _ => s

/-- The store answers as it does, or fails a write. -/
def Fits (s : Store) : Ev → Prop
  | ⟨.store op, rep⟩ => (Access.call op rep).Fits s
  | _ => True

/-- A value is an answer of the store. -/
theorem Fits.ok {s : Store} {op : StoreOp} {v : op.Value} (h : Fits s (ev (.store op) (.ok v))) :
    (op.exec s).1 = .ok v := Access.Fits.ok (show (Access.call op (.ok v)).Fits s from h)

end Ev

theorem World.handles_event {w w' : World} {e : Ev} (h : w.handles e w') :
    Ev.Fits w.store e ∧ w'.store = Ev.after w.store e := by
  obtain ⟨op, rep⟩ := e
  cases op with
  | store op => exact World.handles_call h
  | _ => exact ⟨trivial, congrArg World.store h⟩

/-- The store after a label. -/
def Act.after (s : Store) : Act → Store
  | .start _ _ => s
  | .act _ e => Ev.after s e
  | .crash => s.open

/-- The host that a label has swapped in, and by whom. -/
def Act.host : Act → Option (Actor × Host)
  | .act i ⟨.store (.putHostDesired h _), .ok _⟩ => some (i, h)
  | _ => none

/-- Some history of calls leads to the store. -/
def Store.Reachable (s : Store) : Prop := ∃ h, History h ∧ storeAfter h = s

namespace Store.Reachable

variable {s : Store} {k : String}

section

variable (hs : s.Reachable)
include hs

theorem after_access {a : Access} (hfit : a.Fits s) : (a.after s).Reachable := by
  obtain ⟨h, hh, rfl⟩ := hs
  exact ⟨h ++ [a], along_append.2 ⟨hh, hfit, trivial⟩, History.storeAfter_snoc⟩

theorem after {e : Ev} (hfit : Ev.Fits s e) : (Ev.after s e).Reachable := by
  obtain ⟨op, rep⟩ := e
  cases op with
  | store op => exact hs.after_access hfit
  | _ => exact hs

theorem along {t : Trace medeaSig} (ht : Along Ev.after Ev.Fits s t) :
    (t.foldl Ev.after s).Reachable := by
  induction t generalizing s with
  | nil => exact hs
  | cons e t ih => exact ih (hs.after ht.1) ht.2

theorem reopen : s.open.Reachable := hs.after_access (a := .reopen) trivial

theorem revisions : s.Revisions := by
  obtain ⟨h, hh, rfl⟩ := hs
  exact Revisions.of_history hh

theorem host_key {h : Host} (hk : s.db.hosts[k]? = some h) :
    ckey h.cluster h.mac = k := hs.revisions.host_key hk

theorem machine_key {mc : Machine} (hk : s.db.machines[k]? = some mc) :
    ckey mc.cluster mc.talosEndpoint = k := hs.revisions.machine_key hk

theorem nodePool_key {np : NodePool} (hk : s.db.nodePools[k]? = some np) :
    ckey np.cluster np.name = k := hs.revisions.nodePool_key hk

theorem cluster_key {cl : Cluster} (hk : s.db.clusters[k]? = some cl) :
    cl.name = k := hs.revisions.cluster_key hk

/-- A stored record was written by a call that has checked its names. -/
theorem named {key : EventKind × String} {r : Nat} {v : Record} (he : s.db.entry key = some (r, v)) :
    v.Named := by
  obtain ⟨h, hh, rfl⟩ := hs
  refine hh.invariant (P := Store.Each fun _ v => v.Named) Store.each_empty ?_ key r v he
  intro s a hfit hs
  cases a with
  | reopen => exact hs
  | call op rep =>
    cases rep with
    | error e => exact hs
    | ok w =>
      refine hs.exec op fun {u key v} hu hmove => ?_
      cases op with
      | putClusterDesired c =>
        cases hmove
        exact (put_value (d := .cluster c) hu).1
      | putNodePoolDesired np =>
        cases hmove
        exact (put_value (d := .nodePool np) hu).1
      | putMachineDesired m =>
        cases hmove
        exact (put_value (d := .machine m) hu).1
      | putHostDesired h' =>
        cases hmove
        exact (put_value (d := .host h') hu).1
      | putMachineRollout | putClusterRollout | putRolloutJob | putClusterBootstrap =>
        cases hmove
        trivial
      | _ => cases hmove

end

end Store.Reachable

/-- The names of the clusters contain no key separator. -/
structure Store.Plain (s : Store) : Prop where
  clusters : ∀ {k : String} {cl : Cluster}, s.db.clusters[k]? = some cl → PlainName cl.name
  nodePools : ∀ {k : String} {np : NodePool}, s.db.nodePools[k]? = some np → PlainName np.cluster
  machines : ∀ {k : String} {mc : Machine}, s.db.machines[k]? = some mc → PlainName mc.cluster
  hosts : ∀ {k : String} {h : Host}, s.db.hosts[k]? = some h → PlainName h.cluster

/-- The same, record by record, so that it can be decided. -/
def Store.PlainRecords (s : Store) : Prop :=
  (∀ kv ∈ s.db.clusters.toList, PlainName kv.2.name) ∧
    (∀ kv ∈ s.db.nodePools.toList, PlainName kv.2.cluster) ∧
    (∀ kv ∈ s.db.machines.toList, PlainName kv.2.cluster) ∧
    ∀ kv ∈ s.db.hosts.toList, PlainName kv.2.cluster

instance (s : Store) : Decidable s.PlainRecords := inferInstanceAs (Decidable (_ ∧ _))

theorem Store.PlainRecords.plain {s : Store} (h : s.PlainRecords) : s.Plain := by
  obtain ⟨hc, hn, hm, hh⟩ := h
  refine ⟨?_, ?_, ?_, ?_⟩
  · exact fun hk => hc _ (Std.ExtTreeMap.mem_toList_iff_getElem?_eq_some.2 hk)
  · exact fun hk => hn _ (Std.ExtTreeMap.mem_toList_iff_getElem?_eq_some.2 hk)
  · exact fun hk => hm _ (Std.ExtTreeMap.mem_toList_iff_getElem?_eq_some.2 hk)
  · exact fun hk => hh _ (Std.ExtTreeMap.mem_toList_iff_getElem?_eq_some.2 hk)

/-! ## Reads -/

section Reads

variable {s : Store} {cluster : String} {rev : Nat}

theorem fits_getCluster {cl : Cluster}
    (h : Ev.Fits s (ev (.store (.getCluster cluster)) (.ok (some cl, rev)))) :
    ∃ cl0, s.db.clusters[cluster]? = some cl0 ∧ cl.name = cl0.name := by
  have hread : s.getCluster cluster = (some cl, rev) := Except.ok.inj (Ev.Fits.ok h)
  rw [Store.getCluster] at hread
  split at hread <;> cases hread
  next cl0 hk => exact ⟨cl0, hk, rfl⟩

theorem fits_getNodePool {pool : String} {np : NodePool}
    (h : Ev.Fits s (ev (.store (.getNodePool cluster pool)) (.ok (some np, rev)))) :
    s.db.nodePools[ckey cluster pool]? = some np := by
  have hread : s.getNodePool cluster pool = (some np, rev) := Except.ok.inj (Ev.Fits.ok h)
  rw [Store.getNodePool] at hread
  split at hread <;> cases hread
  assumption

theorem fits_getHost {mac : String} {h : Host}
    (hfit : Ev.Fits s (ev (.store (.getHost cluster mac)) (.ok (some h, rev)))) :
    s.db.hosts[ckey cluster mac]? = some h ∧ rev = h.revision := by
  have hread : s.getHost cluster mac = (some h, rev) := Except.ok.inj (Ev.Fits.ok hfit)
  rw [Store.getHost] at hread
  split at hread <;> cases hread
  next hk => exact ⟨hk, rfl⟩

theorem fits_getMachine {addr : String} {mc : Option Machine}
    (h : Ev.Fits s (ev (.store (.getMachine cluster addr)) (.ok (mc, rev)))) :
    mc = s.db.machines[ckey cluster addr]?.map
      fun m => { m with observed := s.obsMachine[cluster ++ "\x00" ++ addr]? } := by
  have hread : s.getMachine cluster addr = (mc, rev) := Except.ok.inj (Ev.Fits.ok h)
  rw [Store.getMachine] at hread
  cases hk : s.db.machines[ckey cluster addr]? with
  | none | some =>
    rw [hk] at hread
    cases hread
    rfl

/-- Reads do not fail. -/
theorem ok_of_read {op : StoreOp} (h : op.writes = false) {rep : (Op.store op).Reply}
    (hfit : Ev.Fits s (ev (.store op) rep)) : ∃ v, rep = .ok v := by
  rcases hfit with hrep | ⟨hw, -⟩
  · rw [hrep]
    cases op <;> first | exact ⟨_, rfl⟩ | cases h
  · rw [hw] at h
    cases h

/-- The hosts of a listing are stored, under the keys of the cluster. -/
theorem mem_of_listHosts {pool : String} {hosts : List Host}
    (hfit : Ev.Fits s (ev (.store (.listHosts cluster pool)) (.ok hosts))) {h : Host} :
    h ∈ hosts ↔ (∃ k, s.db.hosts[k]? = some h ∧ hasPrefix k (cluster ++ "\x00") = true) ∧
      (pool = "" ∨ h.pool = pool) := by
  have hread : s.listHosts cluster pool = hosts := Except.ok.inj (Ev.Fits.ok hfit)
  rw [← hread]
  exact Store.mem_listHosts

theorem nodup_listHosts {pool : String} (hs : s.Reachable) : (s.listHosts cluster pool).Nodup := by
  rw [Store.listHosts, Store.listByCluster]
  refine List.Pairwise.filter _ ?_
  rw [List.pairwise_map]
  have hkeys := List.Pairwise.filter (fun kv => hasPrefix kv.1 (cluster ++ "\x00"))
    (Std.ExtTreeMap.distinct_keys_toList (t := s.db.hosts))
  refine hkeys.imp_of_mem ?_
  rintro ⟨k, h⟩ ⟨k', h'⟩ hm hm' hne heq
  have hk := Std.ExtTreeMap.mem_toList_iff_getElem?_eq_some.1 (List.mem_filter.1 hm).1
  have hk' := Std.ExtTreeMap.mem_toList_iff_getElem?_eq_some.1 (List.mem_filter.1 hm').1
  -- a host lies under the key that its names make
  have hkey : k = k' := by
    rw [← hs.host_key hk, ← hs.host_key hk', show h = h' from heq]
  exact hne (Std.compare_eq_iff_eq.2 hkey)

/-- A host of a listing belongs to the cluster. -/
theorem cluster_of_listed {k : String} {h : Host} (hs : s.Reachable) (hplain : s.Plain)
    (hcluster : PlainName cluster) (hk : s.db.hosts[k]? = some h)
    (hlead : hasPrefix k (cluster ++ "\x00") = true) : h.cluster = cluster := by
  rw [← hs.host_key hk, hasPrefix_ckey (hplain.hosts hk) hcluster] at hlead
  simpa using hlead

/-- The machine under a key of the cluster has its address in the listing. -/
theorem endpoint_of_key {ms : List Machine} {addr : String} {mc : Machine} (hs : s.Reachable)
    (hplain : s.Plain) (hcluster : PlainName cluster)
    (hfit : Ev.Fits s (ev (.store (.listMachines cluster "")) (.ok ms)))
    (hk : s.db.machines[ckey cluster addr]? = some mc) : addr ∈ ms.map (·.talosEndpoint) := by
  obtain ⟨-, haddr⟩ := ckey_inj (hplain.machines hk) hcluster (hs.machine_key hk)
  have hread : s.listMachines cluster "" = ms := Except.ok.inj (Ev.Fits.ok hfit)
  rw [← haddr, ← hread]
  exact List.mem_map.2 ⟨_, Store.mem_listMachines_of_get hk (hasPrefix_ckey_self cluster addr), rfl⟩

theorem newJoinedNode_some {nodes : List NodeInfo} {claimed : List String} {role : Role}
    {n : NodeInfo} (h : newJoinedNode nodes claimed role = some n) :
    n ∈ nodes ∧ n.internalIP ≠ "" ∧ n.internalIP ∉ claimed := by
  have hp := List.find?_some h
  simp only [Bool.and_eq_true, bne_iff_ne, Bool.not_eq_true', List.contains_eq_mem,
    decide_eq_false_iff_not] at hp
  exact ⟨List.mem_of_find?_eq_some h, hp.1.1.2, hp.1.2⟩

end Reads

/-! ## Writes -/

section Writes

variable {s : Store}

theorem db_after_read {op : StoreOp} (h : op.writes = false) (rep : (Op.store op).Reply) :
    (Ev.after s (ev (.store op) rep)).db = s.db := by
  cases rep with
  | error e => rfl
  | ok v => cases op <;> first | rfl | cases h

/-- Looking around changes nothing in the file. -/
theorem db_after_quiet {op : Op} (h : op.quiet = true) (rep : op.Reply) :
    (Ev.after s ⟨op, rep⟩).db = s.db := by
  cases op with
  | store op =>
    refine db_after_read ?_ rep
    cases op <;> first | rfl | cases h
  | _ => rfl

/-- A write that succeeds has committed what it writes. -/
theorem db_after_write {op : StoreOp} {v : op.Value} (hw : op.writes = true)
    (hfit : Ev.Fits s (ev (.store op) (.ok v))) :
    ∃ db, op.committed s = some db ∧
      (Ev.after s (ev (.store op) (.ok v))).db = { db with revision := s.db.revision + 1 } := by
  rcases StoreOp.exec_db s op with ⟨-, herr⟩ | ⟨db, _, hc, -, hdb⟩
  · obtain ⟨e, he⟩ := herr hw
    have hok := Ev.Fits.ok hfit
    rw [he] at hok
    cases hok
  · exact ⟨db, hc, hdb⟩

/-- A host that is stored after an event was stored before, or the event has put it. -/
theorem host_after {e : Ev} {k : String} {h : Host} (hfit : Ev.Fits s e)
    (hk : (Ev.after s e).db.hosts[k]? = some h) :
    s.db.hosts[k]? = some h ∨ ∃ h' rev r, e = ev (.store (.putHostDesired h' rev)) (.ok r) ∧
      k = ckey h'.cluster h'.mac ∧ h = { h' with revision := s.db.revision + 1 } := by
  obtain ⟨op, rep⟩ := e
  cases op with
  | store op =>
    have hcall : (Access.call op rep).Fits s := hfit
    have hreg := congrArg Registry.entry (Access.registry_after hcall)
    have hentry : ((s.registry.apply ((Access.call op rep).move s)).entry (.host, k)) =
        some (h.revision, .host h) := by
      rw [← hreg]
      exact DB.entry_of_host hk
    rcases Registry.entry_apply hentry with hold | ⟨hput, -⟩
    · exact Or.inl (DB.host_of_entry hold)
    · right
      cases rep with
      | error e => cases hput
      | ok v =>
        cases op with
        | putHostDesired h' rev =>
          injection hput with hkey hv
          exact ⟨h', rev, v, rfl, ((Prod.mk.inj hkey).2).symm, (Record.host.inj hv).symm⟩
        | putClusterDesired | putNodePoolDesired | putMachineDesired | putMachineRollout
        | putClusterRollout | putRolloutJob | putClusterBootstrap =>
          -- these go to other buckets
          injection hput with hkey
          cases (Prod.mk.inj hkey).1
        | _ => cases hput
  | _ => exact Or.inl hk

end Writes

/-! ## The inventory -/

/-- What a pass works on: the hosts, the machines, and the members of the pools. -/
structure Inventory where
  hosts : String → Option Host
  machines : String → Option Machine
  members : String → Option (List String)

def Store.inventory (s : Store) : Inventory where
  hosts k := s.db.hosts[k]?
  machines k := s.db.machines[k]?
  members k := s.db.nodePools[k]?.map (·.members)

namespace Inventory

variable (v : Inventory)

def withHost (h : Host) : Inventory :=
  { v with hosts := Function.update v.hosts (ckey h.cluster h.mac) (some h) }

def withMachine (mc : Machine) : Inventory :=
  { v with machines := Function.update v.machines (ckey mc.cluster mc.talosEndpoint) (some mc) }

def withoutMachine (cluster addr : String) : Inventory :=
  { v with machines := Function.update v.machines (ckey cluster addr) none }

def withMembers (cluster pool : String) (members : List String) : Inventory :=
  { v with members := Function.update v.members (ckey cluster pool) (some members) }

variable {v}

theorem hosts_withHost {h h' : Host} {k : String} (hk : (v.withHost h).hosts k = some h') :
    k = ckey h.cluster h.mac ∧ h' = h ∨ k ≠ ckey h.cluster h.mac ∧ v.hosts k = some h' := by
  rw [withHost] at hk
  dsimp only at hk
  by_cases heq : k = ckey h.cluster h.mac
  · subst heq
    rw [Function.update_self] at hk
    exact Or.inl ⟨rfl, (Option.some.inj hk).symm⟩
  · rw [Function.update_of_ne heq] at hk
    exact Or.inr ⟨heq, hk⟩

theorem withMembers_same {cluster pool : String} {members : List String}
    (h : v.members (ckey cluster pool) = some members) : v.withMembers cluster pool members = v := by
  rw [withMembers, ← h, Function.update_eq_self]

end Inventory

section Inventory

variable {s s' : Store}

theorem inventory_of_db (h : s'.db = s.db) : s'.inventory = s.inventory := by
  rw [Store.inventory, Store.inventory, h]

theorem inventory_read {op : StoreOp} (h : op.writes = false) (rep : (Op.store op).Reply) :
    (Ev.after s (ev (.store op) rep)).inventory = s.inventory := inventory_of_db (db_after_read h rep)

theorem inventory_putHost {h : Host} {rev r : Nat}
    (hfit : Ev.Fits s (ev (.store (.putHostDesired h rev)) (.ok r))) :
    (Ev.after s (ev (.store (.putHostDesired h rev)) (.ok r))).inventory =
      s.inventory.withHost { h with revision := s.db.revision + 1 } := by
  obtain ⟨db, hc, hdb⟩ := db_after_write rfl hfit
  cases hc
  rw [Store.inventory, hdb]
  exact congrArg (fun f => { s.inventory with hosts := f }) (Bucket.insert_eq_update ..)

theorem inventory_putMachine {mc : Machine} {rev r : Nat}
    (hfit : Ev.Fits s (ev (.store (.putMachineDesired mc rev)) (.ok r))) :
    (Ev.after s (ev (.store (.putMachineDesired mc rev)) (.ok r))).inventory =
      s.inventory.withMachine { mc with revision := s.db.revision + 1, observed := none } := by
  obtain ⟨db, hc, hdb⟩ := db_after_write rfl hfit
  cases hc
  rw [Store.inventory, hdb]
  exact congrArg (fun f => { s.inventory with machines := f }) (Bucket.insert_eq_update ..)

theorem inventory_deleteMachine {cluster addr : String} {v : Unit}
    (hfit : Ev.Fits s (ev (.store (.deleteMachine cluster addr)) (.ok v))) :
    (Ev.after s (ev (.store (.deleteMachine cluster addr)) (.ok v))).inventory =
      s.inventory.withoutMachine cluster addr := by
  obtain ⟨db, hc, hdb⟩ := db_after_write rfl hfit
  cases hc
  rw [Store.inventory, hdb]
  exact congrArg (fun f => { s.inventory with machines := f }) (Bucket.erase_eq_update ..)

theorem inventory_putNodePool {np : NodePool} {rev r : Nat}
    (hfit : Ev.Fits s (ev (.store (.putNodePoolDesired np rev)) (.ok r))) :
    (Ev.after s (ev (.store (.putNodePoolDesired np rev)) (.ok r))).inventory =
      s.inventory.withMembers np.cluster np.name np.members := by
  obtain ⟨db, hc, hdb⟩ := db_after_write rfl hfit
  cases hc
  rw [Store.inventory, hdb]
  have hpools := Bucket.insert_eq_update s.db.nodePools (ckey np.cluster np.name)
    (Store.nodePoolTable.stamp np (s.db.revision + 1))
  refine congrArg (fun f => { s.inventory with members := f }) ?_
  refine (congrArg (fun g k => (g k).map NodePool.members) hpools).trans ?_
  exact funext fun k => Function.apply_update (fun _ np => Option.map NodePool.members np) ..

/-- A machine stays stored, unless it is deleted, by itself or with its cluster. -/
theorem machine_after {e : Ev} {k : String} {mc : Machine} (hfit : Ev.Fits s e)
    (hk : s.db.machines[k]? = some mc) :
    (∃ mc', (Ev.after s e).db.machines[k]? = some mc') ∨
      (∃ cluster addr v, e = ev (.store (.deleteMachine cluster addr)) (.ok v) ∧
        k = ckey cluster addr) ∨
      ∃ cluster v, e = ev (.store (.deleteCluster cluster)) (.ok v) := by
  obtain ⟨op, rep⟩ := e
  cases op with
  | store op =>
    have hcall : (Access.call op rep).Fits s := hfit
    by_cases htouch : ((Access.call op rep).move s).Touches (.machine, k)
    · cases rep with
      | error e => exact absurd htouch id
      | ok v =>
        cases op with
        | putMachineDesired m rev =>
          obtain rfl : ckey m.cluster m.talosEndpoint = k := (Prod.mk.inj htouch).2
          have hput := congrFun (congrArg Inventory.machines (inventory_putMachine hfit))
            (ckey m.cluster m.talosEndpoint)
          exact Or.inl ⟨_, hput.trans (Function.update_self ..)⟩
        | deleteMachine cluster addr =>
          have hkey : ((EventKind.machine, ckey cluster addr) == (.machine, k)) = true := htouch
          have hsame := (Prod.mk.inj (beq_iff_eq.1 hkey)).2
          exact Or.inr (Or.inl ⟨cluster, addr, v, rfl, hsame.symm⟩)
        | deleteCluster cluster => exact Or.inr (Or.inr ⟨cluster, v, rfl⟩)
        | deleteHost cluster mac =>
          have hkey : ((EventKind.host, ckey cluster mac) == (.machine, k)) = true := htouch
          cases (Prod.mk.inj (beq_iff_eq.1 hkey)).1
        | putClusterDesired | putNodePoolDesired | putHostDesired | putMachineRollout
        | putClusterRollout | putRolloutJob | putClusterBootstrap =>
          -- these go to other buckets
          cases (Prod.mk.inj htouch).1
        | _ => exact absurd htouch id
    · have hreg := congrFun (congrArg Registry.entry (Access.registry_after hcall)) (.machine, k)
      have hentry : ((Ev.after s ⟨.store op, rep⟩).db.machines[k]?.map
          fun m => (m.revision, Record.machine m)) = some (mc.revision, .machine mc) := by
        refine (hreg.trans (Registry.entry_apply_of_not_touches htouch)).trans ?_
        exact DB.entry_of_machine hk
      obtain ⟨mc', hmc', -⟩ := Option.map_eq_some_iff.1 hentry
      exact Or.inl ⟨mc', hmc'⟩
  | _ => exact Or.inl ⟨mc, hk⟩

end Inventory

/-! ## A sample inventory -/

namespace Scene

def cluster : Cluster where
  name := "c"
  desired := some ⟨"v1.7.0", "v1.30.0"⟩
  endpoints := some ⟨[], "k"⟩
  provisioningEnabled := true

/-- Cluster `c` with two worker pools of one replica each, and one registered host in each pool. -/
def twoPools : List Access :=
  [.call (.putClusterDesired cluster 0) (.ok 1),
    .call (.putNodePoolDesired { cluster := "c", name := "p", role := .worker, replicas := 1 } 0)
      (.ok 2),
    .call (.putNodePoolDesired { cluster := "c", name := "q", role := .worker, replicas := 1 } 0)
      (.ok 3),
    .call (.putHostDesired { cluster := "c", mac := "a", pool := "p", state := .registered } 0)
      (.ok 4),
    .call (.putHostDesired { cluster := "c", mac := "b", pool := "q", state := .registered } 0)
      (.ok 5)]

theorem twoPools_reachable : (storeAfter twoPools).Reachable := by
  have hhistory : History twoPools :=
    ⟨Or.inl rfl, Or.inl rfl, Or.inl rfl, Or.inl rfl, Or.inl rfl, trivial⟩
  exact ⟨twoPools, hhistory, rfl⟩

/-- A pass, up to the given number of operations, in a cluster with the given nodes. -/
def pass (n : Nat) (nodes : List NodeInfo) : List (Cue Actor Activity Oracle) :=
  Cue.task .executor .pass n (.working "v1.7.0" nodes)

end Scene

/-- A property of the stored hosts can be decided. -/
theorem Store.forall_hosts {s : Store} {P : Host → Prop}
    (h : ∀ kv ∈ s.db.hosts.toList, P kv.2) (k : String) (host : Host)
    (hk : s.db.hosts[k]? = some host) : P host :=
  h (k, host) (Std.ExtTreeMap.mem_toList_iff_getElem?_eq_some.2 hk)

end Medea
