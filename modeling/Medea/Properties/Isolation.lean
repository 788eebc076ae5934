import Medea.ControlPlane.Processes
import Medea.Properties.ClusterDeletion

/-!
# Clusters as namespaces

The records of a cluster lie under keys that start with its name and a separator byte, and the lists
and deletions of a cluster go by this lead. No layer refuses a name that contains the separator, so the
lead of one cluster can be that of another: a record of `a\x00b` is found and deleted as one of `a`.

`isolated_iff`: the clusters whose names are in use are isolated from each other in every store exactly
when none of these names is another one followed by the separator.
-/

set_option autoImplicit false

namespace Medea

open Medea.Interaction Medea.Versioned

/-! ## Names that share keys -/

/-- The second name is the first, a separator, and more. -/
def leads (c d : String) : Bool := hasPrefix d (c ++ "\x00")

theorem leads_iff {c d : String} : leads c d = true ↔ ∃ rest, d = ckey c rest := by
  rw [leads, hasPrefix, List.isPrefixOf_iff_prefix]
  constructor
  · rintro ⟨rest, hrest⟩
    refine ⟨String.ofList rest, String.toList_inj.1 ?_⟩
    rw [ckey_toList, ← hrest]
    simp [String.toList_append]
  · rintro ⟨rest, rfl⟩
    exact ⟨rest.toList, by simp [String.toList_append]⟩

theorem ne_of_leads {c d : String} (h : leads c d = true) : c ≠ d := by
  rintro rfl
  obtain ⟨rest, hrest⟩ := leads_iff.1 h
  have hlength := congrArg (fun s => s.toList.length) hrest
  simp at hlength

/-- A key of one cluster has the lead of another only if one name leads the other. -/
theorem leads_of_hasPrefix {c d x : String} (h : hasPrefix (ckey d x) (c ++ "\x00") = true)
    (hne : c ≠ d) : leads c d = true ∨ leads d c = true := by
  have hc : (c ++ "\x00").toList = c.toList ++ ['\x00'] := by simp [String.toList_append]
  have hd : (d ++ "\x00").toList = d.toList ++ ['\x00'] := by simp [String.toList_append]
  have hlead : c.toList ++ ['\x00'] <+: (ckey d x).toList := by
    rw [← hc]
    exact List.isPrefixOf_iff_prefix.1 h
  have hown : d.toList ++ ['\x00'] <+: (ckey d x).toList := by
    rw [← hd]
    exact List.isPrefixOf_iff_prefix.1 (hasPrefix_ckey_self d x)
  rw [leads, leads, hasPrefix, hasPrefix, List.isPrefixOf_iff_prefix, List.isPrefixOf_iff_prefix, hc,
    hd]
  -- both are leads of one key, so the shorter is a lead of the longer
  rcases List.prefix_or_prefix_of_prefix hlead hown with hcd | hdc
  · rcases List.prefix_concat_iff.1 hcd with heq | hshort
    · have hsame := List.append_cancel_right heq
      exact absurd (String.toList_inj.1 hsame) hne
    · exact Or.inl hshort
  · rcases List.prefix_concat_iff.1 hdc with heq | hshort
    · have hsame := List.append_cancel_right heq
      exact absurd (String.toList_inj.1 hsame).symm hne
    · exact Or.inr hshort

/-- Different clusters of which neither leads the other have no key in common. -/
theorem not_goesWith {c : String} {v : Record} (hne : c ≠ v.clusterName)
    (hcd : leads c v.clusterName = false) (hdc : leads v.clusterName c = false) :
    goesWith c v.key = false := by
  have hcompound : ∀ {d x : String}, c ≠ d → leads c d = false → leads d c = false →
      hasPrefix (ckey d x) (c ++ "\x00") = false := by
    intro d x hne hcd hdc
    by_contra hlead
    rcases leads_of_hasPrefix (Bool.eq_true_of_not_eq_false hlead) hne with h | h
    · rw [hcd] at h
      cases h
    · rw [hdc] at h
      cases h
  cases v with
  | cluster | clusterRollout | clusterBootstrap => exact beq_false_of_ne hne
  | nodePool | machine | host | machineRollout | rolloutJob => exact hcompound hne hcd hdc

/-! ## Isolation -/

/-- Every record and every observed value of the cluster is the same in both stores. -/
structure Store.SameFor (d : String) (s s' : Store) : Prop where
  records : ∀ key r (v : Record), v.clusterName = d →
    (s'.db.entry key = some (r, v) ↔ s.db.entry key = some (r, v))
  obsCluster : s'.obsCluster[d]? = s.obsCluster[d]?
  obsMachine : ∀ addr, s'.obsMachine[d ++ "\x00" ++ addr]? = s.obsMachine[d ++ "\x00" ++ addr]?

/-- The clusters of the stored records have names in use. -/
def Store.Uses (named : String → Prop) (s : Store) : Prop :=
  ∀ key r (v : Record), s.db.entry key = some (r, v) → named v.clusterName

/-- What is listed for the first cluster is of that cluster, and its deletions do not change the other. -/
structure Isolated (s : Store) (c d : String) : Prop where
  nodePools : ∀ np ∈ s.listNodePools c, np.cluster = c
  machines : ∀ pool, ∀ m ∈ s.listMachines c pool, m.cluster = c
  hosts : ∀ pool, ∀ h ∈ s.listHosts c pool, h.cluster = c
  jobs : ∀ r ∈ s.listRolloutJobs c, r.cluster = c
  deleteCluster : Store.SameFor d s ((StoreOp.deleteCluster c).exec s).2
  deleteMachine : ∀ addr, Store.SameFor d s ((StoreOp.deleteMachine c addr).exec s).2
  deleteHost : ∀ mac, Store.SameFor d s ((StoreOp.deleteHost c mac).exec s).2

namespace Isolation

variable {s : Store} {c d : String}

variable (hne : c ≠ d) (hcd : leads c d = false) (hdc : leads d c = false)

include hne hcd hdc

theorem not_goesWith_of (v : Record) (hv : v.clusterName = d) : goesWith c v.key = false := by
  subst hv
  exact not_goesWith hne hcd hdc

/-- A key of one cluster does not have the lead of the other. -/
theorem not_hasPrefix (x : String) : hasPrefix (ckey d x) (c ++ "\x00") = false :=
  not_goesWith_of hne hcd hdc (.nodePool { cluster := d, name := x }) rfl

/-- A call that touches keys of one cluster only. -/
theorem sameFor_of_touches (hs : s.Revisions) {op : StoreOp}
    (htouch : ∀ key, (op.move s).Touches key → goesWith c key = true)
    (hobs : (op.exec s).2.obsCluster[d]? = s.obsCluster[d]?)
    (hmach : ∀ addr, (op.exec s).2.obsMachine[d ++ "\x00" ++ addr]? =
      s.obsMachine[d ++ "\x00" ++ addr]?) : Store.SameFor d s (op.exec s).2 := by
  refine ⟨?_, hobs, hmach⟩
  intro key r v hv
  have hnot : ¬(op.move s).Touches v.key := by
    intro h
    have hgoes := htouch _ h
    rw [not_goesWith_of hne hcd hdc v hv] at hgoes
    cases hgoes
  cases hrep : (op.exec s).1 with
  | error e => rw [StoreOp.exec_of_error hrep]
  | ok x =>
    have hreg : (op.exec s).2.db.entry = (s.registry.apply (op.move s)).entry :=
      congrArg Registry.entry (StoreOp.registry_exec hrep)
    rw [hreg]
    constructor
    · intro he
      rcases Registry.entry_apply he with hbefore | ⟨hput, -⟩
      · exact hbefore
      · have hkey := (StoreOp.move_put hput).1
        refine absurd ?_ hnot
        rw [hput]
        exact hkey.symm
    · intro he
      have hkey := (hs.own key r v he).1
      rw [Registry.entry_apply_of_not_touches (hkey ▸ hnot)]
      exact he

theorem deleteCluster_sameFor (hs : s.Revisions) :
    Store.SameFor d s ((StoreOp.deleteCluster c).exec s).2 := by
  refine sameFor_of_touches hne hcd hdc hs (fun _ htouch => htouch) ?_ ?_
  · simp only [StoreOp.exec, Store.deleteCluster]
    split_ifs
    · rfl
    · exact (Bucket.get_erase c d).trans (if_neg hne)
  · intro addr
    simp only [StoreOp.exec, Store.deleteCluster]
    split_ifs
    · rfl
    · refine (Bucket.get_deleteByClusterPrefix c _).trans (if_neg ?_)
      rw [Bool.not_eq_true]
      exact not_hasPrefix hne hcd hdc addr

/-- A key of one cluster is no key of the other. -/
theorem ckey_ne (x y : String) : ckey c x ≠ ckey d y := by
  intro he
  have hlead := hasPrefix_ckey_self c x
  rw [he, not_hasPrefix hne hcd hdc y] at hlead
  cases hlead

theorem deleteMachine_sameFor (hs : s.Revisions) (addr : String) :
    Store.SameFor d s ((StoreOp.deleteMachine c addr).exec s).2 := by
  refine sameFor_of_touches hne hcd hdc hs ?_ ?_ ?_
  · intro key htouch
    obtain rfl : (.machine, ckey c addr) = key := eq_of_beq htouch
    exact hasPrefix_ckey_self c addr
  · simp only [StoreOp.exec, Store.deleteMachine]
    split_ifs <;> rfl
  · intro addr'
    simp only [StoreOp.exec, Store.deleteMachine]
    split_ifs
    · rfl
    · exact (Bucket.get_erase _ _).trans (if_neg (ckey_ne hne hcd hdc addr addr'))

theorem deleteHost_sameFor (hs : s.Revisions) (mac : String) :
    Store.SameFor d s ((StoreOp.deleteHost c mac).exec s).2 := by
  refine sameFor_of_touches hne hcd hdc hs ?_ ?_ ?_
  · intro key htouch
    obtain rfl : (.host, ckey c mac) = key := eq_of_beq htouch
    exact hasPrefix_ckey_self c mac
  · simp only [StoreOp.exec, Store.deleteHost]
    split_ifs <;> rfl
  · intro addr
    simp only [StoreOp.exec, Store.deleteHost]
    split_ifs <;> rfl

omit hne hcd hdc

section Names

variable {named : String → Prop} (happ : ∀ a b, named a → named b → leads a b = false) (hc : named c)
  (hs : s.Revisions)

include happ hc hs

/-- A stored record with the lead of a cluster is of that cluster. -/
theorem listed (huses : s.Uses named) {kind : EventKind} {k : String} {r : Nat} {v : Record}
    (he : s.db.entry (kind, k) = some (r, v)) (hgoes : goesWith c (kind, k) = true) :
    v.clusterName = c := by
  by_contra hne
  have hv := huses _ r v he
  have hkey := (hs.own _ r v he).1
  have hnot := not_goesWith (Ne.symm hne) (happ _ _ hc hv) (happ _ _ hv hc)
  rw [hkey, hgoes] at hnot
  cases hnot

theorem isolated (huses : s.Uses named) (hd : named d) (hne : c ≠ d) : Isolated s c d where
  nodePools := by
    intro np hnp
    obtain ⟨k, hk, hlead⟩ := Bucket.mem_listByCluster hnp
    exact listed happ hc hs huses (DB.entry_of_nodePool hk) hlead
  machines := by
    intro pool m hm
    obtain ⟨k, m', hk, hlead, rfl⟩ := Store.mem_listMachines hm
    exact listed happ hc hs huses (DB.entry_of_machine hk) hlead
  hosts := by
    intro pool h hh
    obtain ⟨k, hk, hlead⟩ := Bucket.mem_listByCluster (List.mem_filter.1 hh).1
    exact listed happ hc hs huses (DB.entry_of_host hk) hlead
  jobs := by
    intro r hr
    obtain ⟨k, hk, hlead⟩ := Bucket.mem_listByCluster hr
    exact listed happ hc hs huses (DB.entry_of_job hk) hlead
  deleteCluster := deleteCluster_sameFor hne (happ _ _ hc hd) (happ _ _ hd hc) hs
  deleteMachine := deleteMachine_sameFor hne (happ _ _ hc hd) (happ _ _ hd hc) hs
  deleteHost := deleteHost_sameFor hne (happ _ _ hc hd) (happ _ _ hd hc) hs

end Names

/-! ## Names that clash -/

theorem ckey_ckey (a b x : String) : ckey (ckey a b) x = ckey a (ckey b x) := by
  apply String.toList_inj.1
  simp

/-- A node pool of the longer name is listed for the shorter, in a store with nothing else. -/
theorem not_isolated_of_leads (hd : d ≠ "") (hcd : leads c d = true) :
    ∃ h, History h ∧ (storeAfter h).Uses (· = d) ∧ ¬Isolated (storeAfter h) c d := by
  let np : NodePool := { cluster := d, name := "p" }
  have hexec : (StoreOp.putNodePoolDesired np 0).exec {} = (.ok 1,
      Store.commit {} (Store.write Store.nodePoolTable {} (ckey d "p") np) .nodepool
        (d ++ "/" ++ "p")) := by
    simp [StoreOp.exec, Store.putNodePoolDesired, Store.putCAS, Store.matches?, Store.nodePoolTable,
      np, hd]
  refine ⟨[.call (.putNodePoolDesired np 0) (.ok 1)], ⟨Or.inl ?_, trivial⟩, ?_, ?_⟩
  · rw [hexec]
  · rintro ⟨kind, k⟩ r v he
    have hreg := congrArg Registry.entry (StoreOp.registry_exec (congrArg Prod.fst hexec))
    rcases Registry.entry_apply ((congrFun hreg _).symm.trans he) with hbefore | ⟨hput, -⟩
    · cases kind <;> cases hbefore
    · cases hput
      rfl
  · intro hisolated
    refine ne_of_leads hcd (hisolated.nodePools (Store.nodePoolTable.stamp np 1) ?_).symm
    show _ ∈ Store.listByCluster ((StoreOp.putNodePoolDesired np 0).exec {}).2.db.nodePools c
    rw [hexec]
    refine Bucket.mem_listByCluster_of_get ((Bucket.get_insert _ _ _).trans (if_pos rfl)) ?_
    obtain ⟨rest, rfl⟩ := leads_iff.1 hcd
    rw [ckey_ckey]
    exact hasPrefix_ckey_self c _

end Isolation

/-- Clusters are isolated from each other, in every store that holds records of clusters with names in
use only, exactly when no name in use is another one followed by the separator. -/
theorem isolated_iff {named : String → Prop} (hnamed : ∀ c, named c → c ≠ "") :
    (∀ h, History h → (storeAfter h).Uses named → ∀ c d, named c → named d → c ≠ d →
      Isolated (storeAfter h) c d) ↔ ∀ c d, named c → named d → leads c d = false := by
  constructor
  · intro hall c d hc hd
    by_contra hcd
    have hlead := Bool.eq_true_of_not_eq_false hcd
    obtain ⟨h, hh, huses, hnot⟩ := Isolation.not_isolated_of_leads (hnamed d hd) hlead
    refine hnot (hall h hh (fun key r v he => ?_) c d hc hd (ne_of_leads hlead))
    exact huses key r v he ▸ hd
  · intro happ h hh huses c d hc hd hne
    exact Isolation.isolated happ hc (Revisions.of_history hh) huses hd hne

/-- Two ordinary names. -/
theorem plain_names_isolated : (∀ c ∈ ["a", "b"], ∀ d ∈ ["a", "b"], leads c d = false) ∧
    ∀ h, History h → (storeAfter h).Uses (· ∈ ["a", "b"]) → Isolated (storeAfter h) "a" "b" := by
  have happ : ∀ c ∈ ["a", "b"], ∀ d ∈ ["a", "b"], leads c d = false := by decide
  have hnamed : ∀ c ∈ ["a", "b"], c ≠ "" := by decide
  refine ⟨happ, fun h hh huses => ?_⟩
  exact (isolated_iff hnamed).2 (fun c d hc hd => happ c hc d hd) h hh huses _ _ (by decide)
    (by decide) (by decide)

/-- A cluster is created whose name contains the separator. -/
def Isolation.created : List Move :=
  Script.request (.createCluster
    { name := "a\x00b", cpEndpoint := "https://10.0.0.1:6443", cpMac := "m", cpIp := "10.0.0.1"
      talosVersion := "v1.7.0", kubernetesVersion := "v1.30.0", confirm := true })

set_option maxRecDepth 100000 in
/-- The host of a cluster is listed for a cluster `a` that does not even exist, and is gone when that
cluster is deleted. -/
theorem separator_shared : ∃ (ls : List Lbl) (s : State), Reaches Script.settings ls s ∧
    (s.world.store.listHosts "a" "").map Host.cluster = ["a\x00b"] ∧
    ((s.world.store.getHost "a\x00b" "m").1.map Host.cluster) = some "a\x00b" ∧
    ((((StoreOp.deleteCluster "a").exec s.world.store).2.getHost "a\x00b" "m").1.map Host.cluster) =
      none := by
  refine ⟨_, _, reaches_script Script.settings Isolation.created, ?_, ?_, ?_⟩
  · decide +kernel
  · decide +kernel
  · decide +kernel

end Medea
