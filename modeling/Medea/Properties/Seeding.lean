import Medea.ControlPlane.Seeding
import Mathlib.Data.List.Dedup

/-!
# Pools, machines and operator settings after a seeding

A seeding writes the pools and machines of the node list and leaves all other records. `agree_iff` says
when the pools and the machines of the cluster agree afterwards: no machine that the list does not
mention may belong to a pool that it does mention, and what it does not mention has to agree among
itself. From an agreeing store that comes down to one condition on each recorded machine
(`agree_iff_of_agree`).

The records are written from scratch, so what the operators have set is gone (`keepsIntent_iff`); a
second seeding writes the same records again (`Writes.alike`).
-/

set_option autoImplicit false
set_option maxRecDepth 100000

namespace Medea

open Medea.Interaction SeedInputs

/-! ## Agreement of pools and machines -/

/-- The machines of a cluster, by their addresses. -/
def DB.machineOf (db : DB) (cluster addr : String) : Option Machine := db.machines[ckey cluster addr]?

/-- The pools of a cluster, by their names. -/
def DB.poolOf (db : DB) (cluster name : String) : Option NodePool := db.nodePools[ckey cluster name]?

/-- The members of a pool are the machines of it, every machine is in one pool, and has its role. -/
structure PoolsAgree (machine : String → Option Machine) (pool : String → Option NodePool) : Prop where
  members : ∀ {p np}, pool p = some np → ∀ a, a ∈ np.members ↔ ∃ m, machine a = some m ∧ m.pool = p
  one : ∀ {a m}, machine a = some m → ∃! p, ∃ np, pool p = some np ∧ a ∈ np.members
  role : ∀ {a m np}, machine a = some m → pool m.pool = some np → m.role = np.role

section Agreement

variable {machine machine' : String → Option Machine} {pool pool' : String → Option NodePool}

/-- Given the members, that a machine is in one pool says that its pool is there. -/
theorem poolsAgree_iff : PoolsAgree machine pool ↔
    (∀ {p np}, pool p = some np → ∀ a, a ∈ np.members ↔ ∃ m, machine a = some m ∧ m.pool = p) ∧
      ∀ {a m}, machine a = some m → ∃ np, pool m.pool = some np ∧ m.role = np.role := by
  constructor
  · intro h
    refine ⟨h.members, ?_⟩
    intro a m hm
    obtain ⟨p, ⟨np, hp, ha⟩, -⟩ := h.one hm
    obtain ⟨m', hm', rfl⟩ := (h.members hp a).1 ha
    obtain rfl : m = m' := by simpa [hm] using hm'
    exact ⟨np, hp, h.role hm hp⟩
  · rintro ⟨hmembers, hhome⟩
    refine ⟨hmembers, ?_, ?_⟩
    · intro a m hm
      obtain ⟨np, hp, -⟩ := hhome hm
      refine ⟨m.pool, ⟨np, hp, (hmembers hp a).2 ⟨m, hm, rfl⟩⟩, ?_⟩
      rintro q ⟨np', hq, ha⟩
      obtain ⟨m', hm', rfl⟩ := (hmembers hq a).1 ha
      obtain rfl : m = m' := by simpa [hm] using hm'
      rfl
    · intro a m np hm hp
      obtain ⟨np', hp', hrole⟩ := hhome hm
      obtain rfl : np = np' := by simpa [hp] using hp'
      exact hrole

/-- What is not in a list. -/
def off {V : Type} (listed : List String) (at_ : String → Option V) (k : String) : Option V :=
  if k ∈ listed then none else at_ k

theorem off_eq_some {V : Type} {listed : List String} {at_ : String → Option V} {k : String} {v : V} :
    off listed at_ k = some v ↔ k ∉ listed ∧ at_ k = some v := by
  unfold off
  split <;> simp_all

/-- What a seeding does to the machines and the pools of its cluster. -/
structure Reseeded (nodes : List NodeInfo) (machine machine' : String → Option Machine)
    (pool pool' : String → Option NodePool) : Prop where
  listed : ∀ n ∈ nodes, ∃ m, machine' n.internalIP = some m ∧
    m.pool = SeedInputs.poolName n.role ∧ m.role = SeedInputs.pbRole n.role
  unlisted : ∀ a, a ∉ nodes.map (·.internalIP) → machine' a = machine a
  pool_listed : ∀ n ∈ nodes, ∃ np, pool' (SeedInputs.poolName n.role) = some np ∧
    np.role = SeedInputs.pbRole n.role ∧ ∀ a, a ∈ np.members ↔
      ∃ n' ∈ nodes, n'.internalIP = a ∧ SeedInputs.poolName n'.role = SeedInputs.poolName n.role
  pool_unlisted : ∀ p, p ∉ nodes.map (fun n => SeedInputs.poolName n.role) → pool' p = pool p

namespace Reseeded

variable {nodes : List NodeInfo} (h : Reseeded nodes machine machine' pool pool')

include h

/-- A machine of the list is in a pool of the list. -/
theorem pool_of_listed {a : String} {m : Machine} (ha : a ∈ nodes.map (·.internalIP))
    (hm : machine' a = some m) : ∃ n ∈ nodes, n.internalIP = a ∧
      m.pool = poolName n.role ∧ m.role = pbRole n.role := by
  obtain ⟨n, hn, rfl⟩ := List.mem_map.1 ha
  obtain ⟨m', hm', hpool, hrole⟩ := h.listed n hn
  obtain rfl : m = m' := by simpa [hm] using hm'
  exact ⟨n, hn, rfl, hpool, hrole⟩

/-- The members of a pool of the list are the nodes of it. -/
theorem mem_listed {p a : String} {np : NodePool}
    (hp : p ∈ nodes.map fun n => poolName n.role) (hnp : pool' p = some np) :
    a ∈ np.members ↔ ∃ n ∈ nodes, n.internalIP = a ∧ poolName n.role = p := by
  obtain ⟨n, hn, rfl⟩ := List.mem_map.1 hp
  obtain ⟨np', hnp', -, hmembers⟩ := h.pool_listed n hn
  obtain rfl : np = np' := by simpa [hnp] using hnp'
  exact hmembers a

/-- The machines of a pool off the list are those off the list that were in it before. -/
theorem machines_off {p a : String} (hp : p ∉ nodes.map fun n => poolName n.role) :
    (∃ m, machine' a = some m ∧ m.pool = p) ↔
      ∃ m, off (nodes.map (·.internalIP)) machine a = some m ∧ m.pool = p := by
  constructor
  · rintro ⟨m, hm, rfl⟩
    by_cases ha : a ∈ nodes.map (·.internalIP)
    · obtain ⟨n, hn, -, hpool, -⟩ := h.pool_of_listed ha hm
      exact absurd (List.mem_map.2 ⟨n, hn, hpool.symm⟩) hp
    · rw [h.unlisted a ha] at hm
      exact ⟨m, off_eq_some.2 ⟨ha, hm⟩, rfl⟩
  · rintro ⟨m, hm, hpool⟩
    obtain ⟨ha, hm⟩ := off_eq_some.1 hm
    exact ⟨m, by rw [h.unlisted a ha, hm], hpool⟩

/-- The pools and machines agree if no machine off the list is in a pool of it and what is off the list
agrees. -/
theorem agree_of_off
    (hgone : ∀ {a m}, machine a = some m → a ∉ nodes.map (·.internalIP) →
      m.pool ∉ nodes.map fun n => poolName n.role)
    (hoff : PoolsAgree (off (nodes.map (·.internalIP)) machine)
      (off (nodes.map fun n => poolName n.role) pool)) : PoolsAgree machine' pool' := by
  obtain ⟨hmembers, hhome⟩ := poolsAgree_iff.1 hoff
  apply poolsAgree_iff.2
  constructor
  · intro p np hnp a
    by_cases hp : p ∈ nodes.map fun n => poolName n.role
    · rw [h.mem_listed hp hnp]
      constructor
      · rintro ⟨n, hn, rfl, rfl⟩
        obtain ⟨m, hm, hpool, -⟩ := h.listed n hn
        exact ⟨m, hm, hpool⟩
      · rintro ⟨m, hm, rfl⟩
        by_cases ha : a ∈ nodes.map (·.internalIP)
        · obtain ⟨n, hn, hip, hpool, -⟩ := h.pool_of_listed ha hm
          exact ⟨n, hn, hip, hpool.symm⟩
        · rw [h.unlisted a ha] at hm
          exact absurd hp (hgone hm ha)
    · rw [h.pool_unlisted p hp] at hnp
      rw [hmembers (off_eq_some.2 ⟨hp, hnp⟩) a, h.machines_off hp]
  · intro a m hm
    by_cases ha : a ∈ nodes.map (·.internalIP)
    · obtain ⟨n, hn, -, hpool, hrole⟩ := h.pool_of_listed ha hm
      obtain ⟨np, hnp, hnprole, -⟩ := h.pool_listed n hn
      exact ⟨np, by rw [hpool, hnp], by rw [hrole, hnprole]⟩
    · rw [h.unlisted a ha] at hm
      obtain ⟨np, hnp, hrole⟩ := hhome (off_eq_some.2 ⟨ha, hm⟩)
      obtain ⟨hp, hnp⟩ := off_eq_some.1 hnp
      exact ⟨np, by rw [h.pool_unlisted _ hp, hnp], hrole⟩

/-- A machine off the list, in a store that agrees. -/
theorem gone_of_agree (hagree : PoolsAgree machine' pool') {a : String} {m : Machine}
    (hm : machine a = some m) (ha : a ∉ nodes.map (·.internalIP)) :
    m.pool ∉ nodes.map fun n => poolName n.role := by
  intro hp
  rw [← h.unlisted a ha] at hm
  obtain ⟨np, hnp, -⟩ := (poolsAgree_iff.1 hagree).2 hm
  have hmem := (hagree.members hnp a).2 ⟨m, hm, rfl⟩
  obtain ⟨n, hn, hip, -⟩ := (h.mem_listed hp hnp).1 hmem
  exact ha (List.mem_map.2 ⟨n, hn, hip⟩)

theorem off_of_agree (hagree : PoolsAgree machine' pool') :
    PoolsAgree (off (nodes.map (·.internalIP)) machine)
      (off (nodes.map fun n => poolName n.role) pool) := by
  obtain ⟨hmembers, hhome⟩ := poolsAgree_iff.1 hagree
  apply poolsAgree_iff.2
  constructor
  · intro p np hnp a
    obtain ⟨hp, hnp⟩ := off_eq_some.1 hnp
    rw [← h.pool_unlisted p hp] at hnp
    rw [hmembers hnp a, h.machines_off hp]
  · intro a m hm
    obtain ⟨ha, hm⟩ := off_eq_some.1 hm
    have hp := h.gone_of_agree hagree hm ha
    rw [← h.unlisted a ha] at hm
    obtain ⟨np, hnp, hrole⟩ := hhome hm
    rw [h.pool_unlisted _ hp] at hnp
    exact ⟨np, off_eq_some.2 ⟨hp, hnp⟩, hrole⟩

theorem agree_iff : PoolsAgree machine' pool' ↔
    (∀ {a m}, machine a = some m → a ∉ nodes.map (·.internalIP) →
      m.pool ∉ nodes.map fun n => poolName n.role) ∧
    PoolsAgree (off (nodes.map (·.internalIP)) machine)
      (off (nodes.map fun n => poolName n.role) pool) := by
  constructor
  · intro hagree
    exact ⟨h.gone_of_agree hagree, h.off_of_agree hagree⟩
  · rintro ⟨hgone, hoff⟩
    exact h.agree_of_off hgone hoff

/-- From a store that agrees: a recorded machine is in the list if and only if its pool is. -/
theorem agree_iff_of_agree (hbefore : PoolsAgree machine pool) : PoolsAgree machine' pool' ↔
    ∀ {a m}, machine a = some m → (a ∈ nodes.map (·.internalIP) ↔
      m.pool ∈ nodes.map fun n => poolName n.role) := by
  obtain ⟨hmembers, hhome⟩ := poolsAgree_iff.1 hbefore
  rw [h.agree_iff]
  constructor
  · rintro ⟨hgone, hoff⟩ a m hm
    constructor
    · intro ha
      by_contra hp
      -- the pool is left as it is, and still has the machine that the list has moved
      obtain ⟨np, hnp, -⟩ := hhome hm
      have hmem := (hmembers hnp a).2 ⟨m, hm, rfl⟩
      obtain ⟨m', hm', -⟩ := (hoff.members (off_eq_some.2 ⟨hp, hnp⟩) a).1 hmem
      exact (off_eq_some.1 hm').1 ha
    · intro hp
      by_contra ha
      exact hgone hm ha hp
  · intro hsame
    refine ⟨fun hm ha hp => ha ((hsame hm).2 hp), poolsAgree_iff.2 ⟨?_, ?_⟩⟩
    · intro p np hnp a
      obtain ⟨hp, hnp⟩ := off_eq_some.1 hnp
      rw [hmembers hnp a]
      constructor
      · rintro ⟨m, hm, rfl⟩
        exact ⟨m, off_eq_some.2 ⟨fun ha => hp ((hsame hm).1 ha), hm⟩, rfl⟩
      · rintro ⟨m, hm, hpool⟩
        exact ⟨m, (off_eq_some.1 hm).2, hpool⟩
    · intro a m hm
      obtain ⟨ha, hm⟩ := off_eq_some.1 hm
      obtain ⟨np, hnp, hrole⟩ := hhome hm
      exact ⟨np, off_eq_some.2 ⟨fun hp => ha ((hsame hm).2 hp), hnp⟩, hrole⟩

end Reseeded

end Agreement

/-! ## The writes of a seeding, seen by pools and machines -/

@[simp] theorem mem_sortStrings {x : String} {xs : List String} : x ∈ sortStrings xs ↔ x ∈ xs :=
  List.mem_insertionSort _

namespace SeedInputs

variable {input : SeedInputs} {r : SeedResult} {db db' : DB}

/-- The pool decides the role. -/
theorem pbRole_of_poolName {role role' : String} (h : poolName role = poolName role') :
    pbRole role = pbRole role' := by
  unfold poolName at h
  unfold pbRole
  split at h <;> split at h <;> simp_all

theorem mem_pools {p : String} : p ∈ pools (input.scanOf r) ↔
    p ∈ input.nodes.map fun n => poolName n.role := by
  simp only [pools, mem_sortStrings, scanOf, machines, List.map_map]
  exact List.mem_dedup

theorem mem_members {a p : String} : a ∈ (input.poolRecord (input.scanOf r) p).members ↔
    ∃ n ∈ input.nodes, n.internalIP = a ∧ poolName n.role = p := by
  simp only [poolRecord, scanOf, machines, mem_sortStrings, List.mem_map, List.mem_filter,
    beq_iff_eq]
  constructor
  · rintro ⟨m, ⟨⟨n, hn, rfl⟩, hp⟩, rfl⟩
    exact ⟨n, hn, rfl, hp⟩
  · rintro ⟨n, hn, rfl, hp⟩
    exact ⟨_, ⟨⟨n, hn, rfl⟩, hp⟩, rfl⟩

/-- The last node of a pool gives the role, but they all have the same. -/
theorem poolRecord_role {n : NodeInfo} (hn : n ∈ input.nodes) :
    (input.poolRecord (input.scanOf r) (poolName n.role)).role = pbRole n.role := by
  have hmem : (⟨n.internalIP, poolName n.role, pbRole n.role⟩ : SeedMachine) ∈
      input.machines.filter (·.pool == poolName n.role) := by
    simp only [machines, List.mem_filter, List.mem_map, beq_self_eq_true, and_true]
    exact ⟨n, hn, rfl⟩
  cases hlast : (input.machines.filter (·.pool == poolName n.role)).getLast? with
  | none =>
    rw [List.getLast?_eq_none_iff.1 hlast] at hmem
    cases hmem
  | some m =>
    have hrole : (input.poolRecord (input.scanOf r) (poolName n.role)).role = m.role := by
      simp [poolRecord, scanOf, hlast]
    obtain ⟨hm, hpool⟩ := List.mem_filter.1 (List.mem_of_getLast? hlast)
    obtain ⟨n', hn', rfl⟩ := List.mem_map.1 hm
    rw [hrole]
    exact pbRole_of_poolName (by simpa using hpool)

theorem lastOf_machines_none {a : String} (ha : a ∉ input.nodes.map (·.internalIP)) :
    lastOf (input.machines.map input.machineWrite) (ckey input.cluster a) = none := by
  apply lastOf_eq_none.2
  intro v hv
  obtain ⟨m, hm, hkey⟩ := List.mem_map.1 hv
  obtain ⟨n, hn, rfl⟩ := List.mem_map.1 hm
  exact ha (List.mem_map.2 ⟨n, hn, ckey_right (Prod.mk.inj hkey).1⟩)

theorem lastOf_machines {n : NodeInfo} (hdistinct : (input.nodes.map (·.internalIP)).Nodup)
    (hn : n ∈ input.nodes) :
    lastOf (input.machines.map input.machineWrite) (ckey input.cluster n.internalIP) =
      some (input.machineRecord ⟨n.internalIP, poolName n.role, pbRole n.role⟩) := by
  refine lastOf_eq_some (List.mem_map.2 ⟨_, List.mem_map.2 ⟨n, hn, rfl⟩, rfl⟩) ?_
  intro v hv
  obtain ⟨m, hm, hkey⟩ := List.mem_map.1 hv
  obtain ⟨n', hn', rfl⟩ := List.mem_map.1 hm
  obtain ⟨hip, rfl⟩ := Prod.mk.inj hkey
  -- the addresses of the list are distinct
  obtain rfl : n' = n := List.inj_on_of_nodup_map hdistinct hn' hn (ckey_right hip)
  rfl

theorem lastOf_pools_none {p : String} (hp : p ∉ input.nodes.map fun n => poolName n.role) :
    lastOf ((pools (input.scanOf r)).map (input.poolWrite (input.scanOf r)))
      (ckey input.cluster p) = none := by
  apply lastOf_eq_none.2
  intro v hv
  obtain ⟨q, hq, hkey⟩ := List.mem_map.1 hv
  obtain rfl := ckey_right (Prod.mk.inj hkey).1
  exact hp (mem_pools.1 hq)

theorem lastOf_pools {p : String} (hp : p ∈ input.nodes.map fun n => poolName n.role) :
    lastOf ((pools (input.scanOf r)).map (input.poolWrite (input.scanOf r)))
      (ckey input.cluster p) = some (input.poolRecord (input.scanOf r) p) := by
  refine lastOf_eq_some (List.mem_map.2 ⟨p, mem_pools.2 hp, rfl⟩) ?_
  intro v hv
  obtain ⟨q, hq, hkey⟩ := List.mem_map.1 hv
  obtain ⟨hname, rfl⟩ := Prod.mk.inj hkey
  rw [ckey_right hname]

theorem Writes.reseeded (h : input.Writes (input.scanOf r) db db')
    (hdistinct : (input.nodes.map (·.internalIP)).Nodup) :
    Reseeded input.nodes (db.machineOf input.cluster) (db'.machineOf input.cluster)
      (db.poolOf input.cluster) (db'.poolOf input.cluster) := by
  constructor
  · intro n hn
    obtain ⟨rev, hrev⟩ := h.machines.of_some (lastOf_machines hdistinct hn)
    exact ⟨_, hrev, rfl, rfl⟩
  · intro a ha
    exact h.machines.of_none (lastOf_machines_none ha)
  · intro n hn
    obtain ⟨rev, hrev⟩ := h.nodePools.of_some (lastOf_pools (List.mem_map.2 ⟨n, hn, rfl⟩))
    exact ⟨_, hrev, poolRecord_role hn, fun a => mem_members⟩
  · intro p hp
    exact h.nodePools.of_none (lastOf_pools_none hp)

end SeedInputs

/-- After a seeding that succeeds, from whatever was in the store, pools and machines agree if and only
if no machine off the list is recorded for a pool of the list, and the records off the list agree. From a
store that agrees: if and only if every recorded machine is in the list exactly when its pool is. -/
theorem seeded_agree_iff (input : SeedInputs) (w w' : World) (r : SeedResult)
    (hdistinct : (input.nodes.map (·.internalIP)).Nodup)
    (happlied : input.apply.Yields World.handles w (.ok r) w') :
    (PoolsAgree (w'.store.db.machineOf input.cluster) (w'.store.db.poolOf input.cluster) ↔
      (∀ a m, w.store.db.machineOf input.cluster a = some m → a ∉ input.nodes.map (·.internalIP) →
        m.pool ∉ input.nodes.map fun n => SeedInputs.poolName n.role) ∧
      PoolsAgree (off (input.nodes.map (·.internalIP)) (w.store.db.machineOf input.cluster))
        (off (input.nodes.map fun n => SeedInputs.poolName n.role)
          (w.store.db.poolOf input.cluster))) ∧
    (PoolsAgree (w.store.db.machineOf input.cluster) (w.store.db.poolOf input.cluster) →
      (PoolsAgree (w'.store.db.machineOf input.cluster) (w'.store.db.poolOf input.cluster) ↔
        ∀ a m, w.store.db.machineOf input.cluster a = some m →
          (a ∈ input.nodes.map (·.internalIP) ↔
            m.pool ∈ input.nodes.map fun n => SeedInputs.poolName n.role))) := by
  have hwrites := (input.apply_ensures w).yields happlied r rfl
  have hreseeded := hwrites.reseeded hdistinct
  exact ⟨hreseeded.agree_iff, fun hbefore => hreseeded.agree_iff_of_agree hbefore⟩

/-- Seedings of a cluster, one after the other, in which no recorded machine loses its pool. -/
inductive Seedings (cluster : String) (w : World) : World → Prop
  | none : Seedings cluster w w
  | next {w₁ w₂ : World} {input : SeedInputs} {r : SeedResult} (before : Seedings cluster w w₁)
      (here : input.cluster = cluster) (distinct : (input.nodes.map (·.internalIP)).Nodup)
      (applied : input.apply.Yields World.handles w₁ (.ok r) w₂)
      (complete : ∀ a m, w₁.store.db.machineOf cluster a = some m →
        (a ∈ input.nodes.map (·.internalIP) ↔
          m.pool ∈ input.nodes.map fun n => SeedInputs.poolName n.role)) : Seedings cluster w w₂

/-- Pools and machines agree after any number of them. -/
theorem Seedings.agree {cluster : String} {w w' : World} (h : Seedings cluster w w')
    (hw : PoolsAgree (w.store.db.machineOf cluster) (w.store.db.poolOf cluster)) :
    PoolsAgree (w'.store.db.machineOf cluster) (w'.store.db.poolOf cluster) := by
  induction h with
  | none => exact hw
  | @next w₁ w₂ input r _ here distinct applied complete ih =>
    subst here
    have hwrites := (input.apply_ensures w₁).yields applied r rfl
    exact ((hwrites.reseeded distinct).agree_iff_of_agree ih).2 fun {a m} => complete a m

/-! ### Node lists -/

namespace Seeding

/-- A seeding in a world where every call succeeds. -/
def seed (input : SeedInputs) (w : World) : Except String SeedResult × World :=
  input.apply.runAlone (fun w op => w.answer (SeedInputs.lookupOracle fun _ => .ok "v1.7.0") op) w

theorem seed_yields {input : SeedInputs} {w : World} {r : SeedResult}
    (h : (seed input w).1 = .ok r) :
    input.apply.Yields (lookup fun _ => .ok "v1.7.0") w (.ok r) (seed input w).2 := by
  rw [← h]
  exact Program.runAlone_yields (fun w op => lookup_answer _ w op) input.apply w

def controlNode : NodeInfo := ⟨"n1", "10.0.0.1", "controlplane", "v1.30.0", true⟩

def workerNode : NodeInfo := ⟨"n2", "10.0.0.2", "worker", "v1.30.0", true⟩

def otherNode : NodeInfo := ⟨"n3", "10.0.0.3", "worker", "v1.30.0", true⟩

def inputs (nodes : List NodeInfo) : SeedInputs := ⟨"c", "https://10.0.0.1:6443", ["10.0.0.1"], nodes⟩

/-- Two workers. -/
def both : SeedInputs := inputs [controlNode, workerNode, otherNode]

/-- One of them is gone. -/
def one : SeedInputs := inputs [controlNode, workerNode]

def reported (n : Nat) : SeedResult := ⟨"c", ["controlplane", "workers"], n, "v1.7.0", "v1.30.0"⟩

/-- The store after the first list, and after the second. -/
def world₁ : World := (seed both {}).2

def world₂ : World := (seed one world₁).2

theorem both_seeded : (seed both {}).1 = .ok (reported 3) := by decide +kernel

theorem one_seeded : (seed one world₁).1 = .ok (reported 2) := by decide +kernel

theorem both_yields : both.apply.Yields World.handles {} (.ok (reported 3)) world₁ :=
  (seed_yields both_seeded).mono handles_of_lookup

theorem one_yields : one.apply.Yields World.handles world₁ (.ok (reported 2)) world₂ :=
  (seed_yields one_seeded).mono handles_of_lookup

theorem both_agrees : both.apply.Yields World.handles {} (.ok (reported 3)) world₁ ∧
    PoolsAgree (world₁.store.db.machineOf "c") (world₁.store.db.poolOf "c") := by
  have hmachines : ∀ a, ({} : World).store.db.machineOf "c" a = none := fun a =>
    Std.ExtTreeMap.getElem?_empty
  have hpools : ∀ p, ({} : World).store.db.poolOf "c" p = none := fun p =>
    Std.ExtTreeMap.getElem?_empty
  refine ⟨both_yields, (seeded_agree_iff both {} world₁ _ (by decide) both_yields).1.2 ⟨?_, ?_⟩⟩
  · intro a m hm
    rw [show both.cluster = "c" from rfl, hmachines a] at hm
    cases hm
  · apply poolsAgree_iff.2
    constructor
    · intro p np hnp
      have hsome := (off_eq_some.1 hnp).2
      rw [show both.cluster = "c" from rfl, hpools p] at hsome
      cases hsome
    · intro a m hm
      have hsome := (off_eq_some.1 hm).2
      rw [show both.cluster = "c" from rfl, hmachines a] at hsome
      cases hsome

/-- The machine that is gone keeps its record, and its pool no longer has it. -/
theorem one_disagrees : both.apply.Yields World.handles {} (.ok (reported 3)) world₁ ∧
    one.apply.Yields World.handles world₁ (.ok (reported 2)) world₂ ∧
    ¬PoolsAgree (world₂.store.db.machineOf "c") (world₂.store.db.poolOf "c") := by
  refine ⟨both_yields, one_yields, ?_⟩
  intro h
  have hmachine : (world₂.store.db.machineOf "c" "10.0.0.3").map (·.pool) = some "workers" := by
    decide +kernel
  have hpool : (world₂.store.db.poolOf "c" "workers").map (·.members) = some ["10.0.0.2"] := by
    decide +kernel
  obtain ⟨m, hm, hworkers⟩ := Option.map_eq_some_iff.1 hmachine
  obtain ⟨np, hnp, hmembers⟩ := Option.map_eq_some_iff.1 hpool
  have hmem := (h.members hnp "10.0.0.3").2 ⟨m, hm, hworkers⟩
  rw [hmembers] at hmem
  exact absurd hmem (by decide)

end Seeding

/-! ## Operator settings -/

/-- What operators set on a cluster. -/
def Cluster.intent (c : Cluster) : Bool × Bool × ClusterMode :=
  (c.rolloutsEnabled, c.provisioningEnabled, c.mode)

/-- What operators set on a pool. -/
def NodePool.intent (np : NodePool) :
    Option RolloutStrategy × Bool × Nat × List (String × String) × List String :=
  (np.strategy, np.paused, np.replicas, np.selector, np.extensions)

/-- The settings of all recorded clusters and pools are as they were. -/
structure KeepsIntent (db db' : DB) : Prop where
  clusters : ∀ (k : String) (c : Cluster), db.clusters[k]? = some c →
    ∃ c' : Cluster, db'.clusters[k]? = some c' ∧ c'.intent = c.intent
  nodePools : ∀ (k : String) (np : NodePool), db.nodePools[k]? = some np →
    ∃ np' : NodePool, db'.nodePools[k]? = some np' ∧ np'.intent = np.intent

/-- The same records, up to their revisions. -/
structure Alike (db db' : DB) : Prop where
  clusters : ∀ k : String, db'.clusters[k]?.map ({ · with revision := 0 }) =
    db.clusters[k]?.map ({ · with revision := 0 })
  nodePools : ∀ k : String, db'.nodePools[k]?.map ({ · with revision := 0 }) =
    db.nodePools[k]?.map ({ · with revision := 0 })
  machines : ∀ k : String, db'.machines[k]?.map ({ · with revision := 0 }) =
    db.machines[k]?.map ({ · with revision := 0 })
  aside : db'.aside = db.aside

/-- Writes made a second time change nothing but what the stamp does. -/
theorem Overwrites.alike {V : Type} {T : Store.Table V} {b b1 b2 : Bucket V}
    {vs : List (String × V)} (h1 : Overwrites T b vs b1) (h2 : Overwrites T b1 vs b2) {bare : V → V}
    (hbare : ∀ v rev rev', bare (T.stamp v rev) = bare (T.stamp v rev')) (k : String) :
    b2[k]?.map bare = b1[k]?.map bare := by
  cases hk : lastOf vs k with
  | none => rw [h2.of_none hk]
  | some v =>
    obtain ⟨rev1, hrev1⟩ := h1.of_some hk
    obtain ⟨rev2, hrev2⟩ := h2.of_some hk
    rw [hrev1, hrev2, Option.map_some, Option.map_some, hbare v rev2 rev1]

namespace SeedInputs

variable {input : SeedInputs} {r : SeedResult} {db db' db₁ db₂ : DB}

theorem Writes.alike (h1 : input.Writes (input.scanOf r) db db₁)
    (h2 : input.Writes (input.scanOf r) db₁ db₂) : Alike db₁ db₂ where
  clusters := h1.clusters.alike h2.clusters fun _ _ _ => rfl
  nodePools := h1.nodePools.alike h2.nodePools fun _ _ _ => rfl
  machines := h1.machines.alike h2.machines fun _ _ _ => rfl
  aside := h2.aside

/-- The settings of the records that a seeding writes are those of new records. -/
def Unset (input : SeedInputs) (db : DB) : Prop :=
  (∀ c : Cluster, db.clusters[input.cluster]? = some c → c.intent = (false, false, .unspecified)) ∧
    ∀ n ∈ input.nodes, ∀ np, db.poolOf input.cluster (poolName n.role) = some np →
      np.intent = (none, false, 0, [], [])

theorem lastOf_cluster (scan : SeedScan) (k : String) :
    lastOf [input.clusterWrite scan] k =
      if input.cluster = k then some (input.clusterRecord scan) else none := by
  have hsnoc := lastOf_snoc [] input.cluster k (input.clusterRecord scan)
  rwa [lastOf_nil, List.nil_append] at hsnoc

theorem Writes.unset_of_keeps (h : input.Writes (input.scanOf r) db db') (hkeeps : KeepsIntent db db') :
    input.Unset db := by
  constructor
  · intro c hc
    obtain ⟨c', hc', hintent⟩ := hkeeps.clusters input.cluster c hc
    obtain ⟨rev, hrev⟩ := h.clusters.of_some ((lastOf_cluster _ _).trans (if_pos rfl))
    rw [hrev] at hc'
    rw [← hintent, ← Option.some.inj hc']
    rfl
  · intro n hn np hnp
    obtain ⟨np', hnp', hintent⟩ := hkeeps.nodePools _ np hnp
    obtain ⟨rev, hrev⟩ := h.nodePools.of_some (lastOf_pools (List.mem_map.2 ⟨n, hn, rfl⟩))
    rw [hrev] at hnp'
    rw [← hintent, ← Option.some.inj hnp']
    rfl

theorem Writes.keeps_of_unset (h : input.Writes (input.scanOf r) db db') (hunset : input.Unset db) :
    KeepsIntent db db' := by
  constructor
  · intro k c hc
    by_cases hk : input.cluster = k
    · subst hk
      obtain ⟨rev, hrev⟩ := h.clusters.of_some ((lastOf_cluster _ _).trans (if_pos rfl))
      exact ⟨_, hrev, (hunset.1 c hc).symm⟩
    · exact ⟨c, (h.clusters.of_none ((lastOf_cluster _ _).trans (if_neg hk))).trans hc, rfl⟩
  · intro k np hnp
    cases hk : lastOf ((pools (input.scanOf r)).map (input.poolWrite (input.scanOf r))) k with
    | none => exact ⟨np, (h.nodePools.of_none hk).trans hnp, rfl⟩
    | some v =>
      obtain ⟨p, hp, hwrite⟩ := List.mem_map.1 (mem_of_lastOf hk)
      obtain ⟨rfl, rfl⟩ := Prod.mk.inj hwrite
      obtain ⟨n, hn, rfl⟩ := List.mem_map.1 (mem_pools.1 hp)
      obtain ⟨rev, hrev⟩ := h.nodePools.of_some hk
      exact ⟨_, hrev, (hunset.2 n hn np hnp).symm⟩

end SeedInputs

/-- A seeding that succeeds keeps the settings of the operators if and only if there are none on the
records it writes. A second seeding, with the same input and the same answers of the lookup, changes
nothing but revisions. -/
theorem reseed_keeps_iff (input : SeedInputs) (w : World) :
    (∀ r w', input.apply.Yields World.handles w (.ok r) w' →
      (KeepsIntent w.store.db w'.store.db ↔ input.Unset w.store.db)) ∧
    ∀ f r₁ w₁ r₂ w₂, input.apply.Yields (SeedInputs.lookup f) w (.ok r₁) w₁ →
      input.apply.Yields (SeedInputs.lookup f) w₁ (.ok r₂) w₂ → Alike w₁.store.db w₂.store.db := by
  constructor
  · intro r w' happlied
    have hwrites := (input.apply_ensures w).yields happlied r rfl
    exact ⟨hwrites.unset_of_keeps, hwrites.keeps_of_unset⟩
  · intro f r₁ w₁ r₂ w₂ happlied1 happlied2
    obtain ⟨r, hr⟩ := input.apply_result f
    obtain rfl := (hr w).yields happlied1 r₁ rfl
    obtain rfl := (hr w₁).yields happlied2 r₂ rfl
    have hwrites1 := (input.apply_ensures w).yields (happlied1.mono handles_of_lookup) r₂ rfl
    have hwrites2 := (input.apply_ensures w₁).yields (happlied2.mono handles_of_lookup) r₂ rfl
    exact hwrites1.alike hwrites2

namespace Seeding

theorem again_seeded : (seed both world₁).1 = .ok (reported 3) := by decide +kernel

theorem again_alike : KeepsIntent world₁.store.db (seed both world₁).2.store.db ∧
    Alike world₁.store.db (seed both world₁).2.store.db := by
  have hcluster : world₁.store.db.clusters["c"]?.map (·.intent) = some (false, false, .unspecified) := by
    decide +kernel
  have hpools : ∀ n ∈ both.nodes, ∀ np ∈ world₁.store.db.poolOf "c" (SeedInputs.poolName n.role),
      (np.strategy, np.paused, np.replicas) = (none, false, 0) ∧
        (np.selector, np.extensions) = ([], []) := by decide +kernel
  constructor
  · refine ((reseed_keeps_iff both world₁).1 _ _ ((seed_yields again_seeded).mono handles_of_lookup)).2
      ⟨fun c hc => ?_, fun n hn np hnp => ?_⟩
    · rw [show both.cluster = "c" from rfl] at hc
      simpa [hc] using hcluster
    · obtain ⟨hsettings, hlists⟩ := hpools n hn np hnp
      simp only [Prod.mk.injEq] at hsettings hlists
      simp only [NodePool.intent, hsettings, hlists]
  · exact (reseed_keeps_iff both {}).2 _ _ _ _ _ (seed_yields both_seeded) (seed_yields again_seeded)

/-- The cluster, armed for rollouts. -/
def armed : World :=
  match world₁.store.getCluster "c" with
  | (some c, rev) => ⟨(world₁.store.putClusterDesired { c with rolloutsEnabled := true } rev).2⟩
  | (none, _) => world₁

theorem armed_seeded : (seed both armed).1 = .ok (reported 3) := by decide +kernel

/-- A seeding takes the enabling back. -/
theorem armed_not_kept :
    both.apply.Yields World.handles armed (.ok (reported 3)) (seed both armed).2 ∧
      (armed.store.db.clusters["c"]?.map (·.rolloutsEnabled)) = some true ∧
      ¬KeepsIntent armed.store.db (seed both armed).2.store.db := by
  have hbefore : (armed.store.db.clusters["c"]?.map (·.rolloutsEnabled)) = some true := by
    decide +kernel
  have hafter : ((seed both armed).2.store.db.clusters["c"]?.map (·.rolloutsEnabled)) =
      some false := by decide +kernel
  refine ⟨(seed_yields armed_seeded).mono handles_of_lookup, hbefore, ?_⟩
  intro h
  obtain ⟨c, hc, henabled⟩ := Option.map_eq_some_iff.1 hbefore
  obtain ⟨c', hc', hintent⟩ := h.clusters "c" c hc
  rw [hc', Option.map_some, Option.some.injEq] at hafter
  have hflag : c'.rolloutsEnabled = c.rolloutsEnabled := congrArg Prod.fst hintent
  rw [hafter, henabled] at hflag
  cases hflag

end Seeding

end Medea
