import Medea.ControlPlane.History
import Medea.Properties.ClusterDeletion

/-!
# Export and import

A backup is taken cluster by cluster: the document holds each stored cluster with the pools, machines
and hosts that are listed for it. Import writes every record of a document over whatever is there.

`round_trip_iff`: importing the export of a store reproduces its desired records in every other store
exactly when each of its pools, machines and hosts lies under the lead of a stored cluster. A cluster
that is being created has its host before it has its own record (`created_host_lost`).
-/

set_option autoImplicit false

namespace Medea

open Medea.Interaction Medea.Versioned

/-! ## Documents -/

/-- What a record says, without its revision and what was observed. -/
def Record.content : Record → Record
  | .cluster c => .cluster { c with revision := 0, observed := none }
  | .nodePool np => .nodePool { np with revision := 0 }
  | .machine m => .machine { m with revision := 0, observed := none }
  | .host h => .host { h with revision := 0 }
  | .machineRollout r => .machineRollout { r with revision := 0 }
  | .clusterRollout r => .clusterRollout { r with revision := 0 }
  | .rolloutJob r => .rolloutJob { r with revision := 0 }
  | .clusterBootstrap r => .clusterBootstrap { r with revision := 0 }

@[simp] theorem Desired.content_stamped (d : Desired) (rev : Nat) :
    (d.stamped rev).content = d.stamped 0 := by
  cases d <;> rfl

/-- The names that a desired record cannot be without. -/
def Record.names : Record → List String
  | .cluster c => [c.name]
  | .nodePool np => [np.cluster, np.name]
  | .machine m => [m.cluster, m.talosEndpoint]
  | .host h => [h.cluster, h.mac]
  | _ => []

theorem Desired.identified_iff (d : Desired) (rev : Nat) :
    d.Identified ↔ "" ∉ (d.stamped rev).names := by
  cases d <;> simp [Desired.Identified, Desired.stamped, Record.names, Store.clusterTable,
    Store.nodePoolTable, Store.machineTable, Store.hostTable]

namespace Store

variable (s : Store)

def exportedClusters : List Cluster := s.listClusters.map fun c => { c with observed := none }

def exportedNodePools : List NodePool := s.listClusters.flatMap fun c => s.listNodePools c.name

def exportedMachines : List Machine :=
  s.listClusters.flatMap fun c => (s.listMachines c.name "").map fun m => { m with observed := none }

def exportedHosts : List Host := s.listClusters.flatMap fun c => s.listHosts c.name ""

/-- The document of a store. -/
def exportDoc : ExportDoc where
  clusters := s.exportedClusters.map .ok
  nodePools := s.exportedNodePools.map .ok
  machines := s.exportedMachines.map .ok
  hosts := s.exportedHosts.map .ok

/-- All records of the document, in the order in which they are imported. -/
def exported : List Desired :=
  s.exportedClusters.map .cluster ++ s.exportedNodePools.map .nodePool ++
    s.exportedMachines.map .machine ++ s.exportedHosts.map .host

end Store

namespace RoundTrip

variable {s t : Store}
variable {d : Desired} {c : Cluster}

/-- The clusters that are still to come are added to the document. -/
theorem exportClusters_ensures (cs : List Cluster) (doc : ExportDoc) :
    (ExportDoc.exportClusters cs doc).Ensures Store.answers
      (fun res s' => s' = s ∧ res = .ok
        { clusters := doc.clusters ++ cs.map fun c => .ok { c with observed := none }
          nodePools := doc.nodePools ++ (cs.flatMap fun c => s.listNodePools c.name).map .ok
          machines := doc.machines ++ (cs.flatMap fun c => (s.listMachines c.name "").map fun m =>
            { m with observed := none }).map .ok
          hosts := doc.hosts ++ (cs.flatMap fun c => s.listHosts c.name "").map .ok }) s := by
  induction cs generalizing doc with
  | nil => simp [ExportDoc.exportClusters]
  | cons c cs ih =>
    rw [ExportDoc.exportClusters]
    apply Store.ensures_callStore
    apply Store.ensures_callStore
    apply Store.ensures_callStore
    refine (ih _).mono ?_
    rintro res s' ⟨hs, hres⟩
    refine ⟨hs, ?_⟩
    rw [hres]
    simp [ExportDoc.addCluster, StoreOp.exec, Function.comp_def]

/-- Alone on the store, an export reads and returns its document. -/
theorem exportAll_ensures :
    ExportDoc.exportAll.Ensures Store.answers (fun res s' => res = .ok s.exportDoc ∧ s' = s) s := by
  apply Store.ensures_callStore
  refine (exportClusters_ensures s.listClusters {}).mono ?_
  rintro res s' ⟨rfl, rfl⟩
  simp [StoreOp.exec, Store.exportDoc, Store.exportedClusters, Store.exportedNodePools, Store.exportedMachines,
    Store.exportedHosts]

/-! ## Imports -/

/-- The revision that a reader of the key sees, zero if there is nothing. -/
def revisionAt (s : Store) (key : EventKind × String) : Nat := ((s.db.entry key).map Prod.fst).getD 0

theorem expects_revisionAt (s : Store) (key : EventKind × String) :
    s.Expects key (revisionAt s key) := by
  rw [Store.Expects, revisionAt]
  cases s.db.entry key with
  | none => exact Or.inl ⟨rfl, rfl⟩
  | some e => exact Or.inr ⟨e.2, rfl⟩

/-- The record has been written, and nothing else has changed. -/
def Puts (d : Desired) (s s' : Store) : Prop :=
  ∃ rev, s'.db.entry = Function.update s.db.entry d.key (some (rev, d.stamped rev))

/-- A record that is written with the revision just read is not refused. -/
theorem put_current (hid : d.Identified) (s : Store) :
    (∃ rev, (d.put s (revisionAt s d.key)).1 = .ok rev) ∧
      Puts d s (d.put s (revisionAt s d.key)).2 := by
  rcases CompareAndSwap.put_cases s (revisionAt s d.key) d with ⟨_, _, hok⟩ | ⟨_, hnot, _⟩ | ⟨hnot, _⟩
  · refine ⟨⟨_, hok⟩, s.db.revision + 1, ?_⟩
    exact congrArg Registry.entry (CompareAndSwap.put_registry hok)
  · exact absurd (expects_revisionAt s d.key) hnot
  · exact absurd hid hnot

/-- The body of the import for one record: a read of the revision and a write over it. -/
theorem restoreRecord_ensures {V : Type} {read : V → Prog (Except StoreError Nat)}
    {write : V → Nat → Prog (Except StoreError Nat)} {v : V} (hid : d.Identified)
    (hread : (read v).Ensures Store.answers
      (fun rep s' => rep = .ok (revisionAt s d.key) ∧ s' = s) s)
    (hwrite : ∀ rev, (write v rev).Ensures Store.answers
      (fun rep s' => rep = (d.put s rev).1 ∧ s' = (d.put s rev).2) s) :
    (ExportDoc.restoreRecord read write (.ok v)).Ensures Store.answers
      (fun res s' => res = none ∧ Puts d s s') s := by
  refine hread.bind ?_
  rintro rep s' ⟨rfl, rfl⟩
  refine (hwrite _).bind ?_
  rintro rep s'' ⟨rfl, rfl⟩
  obtain ⟨⟨rev, hok⟩, hputs⟩ := put_current hid s'
  rw [hok]
  exact ⟨rfl, hputs⟩

theorem restoreCluster_ensures (hid : (Desired.cluster c).Identified) (s : Store) :
    (ExportDoc.restoreCluster (.ok c)).Ensures Store.answers
      (fun res s' => res = none ∧ Puts (.cluster c) s s') s := by
  refine restoreRecord_ensures hid ?_ ?_
  · apply Store.ensures_callStore
    refine ⟨?_, rfl⟩
    simp only [StoreOp.exec, Except.map, Store.getCluster, revisionAt, Desired.key, DB.entry]
    cases s.db.clusters[c.name]? <;> rfl
  · intro rev
    exact Store.ensures_lastCall ⟨rfl, rfl⟩

theorem restoreNodePool_ensures {np : NodePool} (hid : (Desired.nodePool np).Identified)
    (s : Store) :
    (ExportDoc.restoreNodePool (.ok np)).Ensures Store.answers
      (fun res s' => res = none ∧ Puts (.nodePool np) s s') s := by
  refine restoreRecord_ensures hid ?_ ?_
  · apply Store.ensures_callStore
    refine ⟨?_, rfl⟩
    simp only [StoreOp.exec, Except.map, Store.getNodePool, revisionAt, Desired.key, DB.entry]
    cases s.db.nodePools[ckey np.cluster np.name]? <;> rfl
  · intro rev
    exact Store.ensures_lastCall ⟨rfl, rfl⟩

theorem restoreMachine_ensures {m : Machine} (hid : (Desired.machine m).Identified) (s : Store) :
    (ExportDoc.restoreMachine (.ok m)).Ensures Store.answers
      (fun res s' => res = none ∧ Puts (.machine m) s s') s := by
  refine restoreRecord_ensures hid ?_ ?_
  · apply Store.ensures_callStore
    refine ⟨?_, rfl⟩
    simp only [StoreOp.exec, Except.map, Store.getMachine, revisionAt, Desired.key, DB.entry]
    cases s.db.machines[ckey m.cluster m.talosEndpoint]? <;> rfl
  · intro rev
    exact Store.ensures_lastCall ⟨rfl, rfl⟩

theorem restoreHost_ensures {h : Host} (hid : (Desired.host h).Identified) (s : Store) :
    (ExportDoc.restoreHost (.ok h)).Ensures Store.answers
      (fun res s' => res = none ∧ Puts (.host h) s s') s := by
  refine restoreRecord_ensures hid ?_ ?_
  · apply Store.ensures_callStore
    refine ⟨?_, rfl⟩
    simp only [StoreOp.exec, Except.map, Store.getHost, revisionAt, Desired.key, DB.entry]
    cases s.db.hosts[ckey h.cluster h.mac]? <;> rfl
  · intro rev
    exact Store.ensures_lastCall ⟨rfl, rfl⟩

/-- The records of a list have been written over a store: what is under their keys is one of them, and
everything else is as it was. -/
def Overlaid (ds : List Desired) (s s' : Store) : Prop :=
  ∀ key, (∃ d ∈ ds, d.key = key ∧ ∃ rev, s'.db.entry key = some (rev, d.stamped rev)) ∨
    (∀ d ∈ ds, d.key ≠ key) ∧ s'.db.entry key = s.db.entry key

theorem overlaid_nil (s : Store) : Overlaid [] s s := fun _ => Or.inr ⟨by simp, rfl⟩

theorem Overlaid.append {ds es : List Desired} {s s' s'' : Store} (h : Overlaid ds s s')
    (h' : Overlaid es s' s'') : Overlaid (ds ++ es) s s'' := by
  intro key
  rcases h' key with ⟨d, hd, hkey, hentry⟩ | ⟨hnone, hsame⟩
  · exact Or.inl ⟨d, List.mem_append_right _ hd, hkey, hentry⟩
  · -- not written the second time, so it is as after the first
    rcases h key with ⟨d, hd, hkey, rev, hentry⟩ | ⟨hnone', hsame'⟩
    · exact Or.inl ⟨d, List.mem_append_left _ hd, hkey, rev, hsame.trans hentry⟩
    · refine Or.inr ⟨?_, hsame.trans hsame'⟩
      intro d hd
      rcases List.mem_append.1 hd with hd | hd
      · exact hnone' d hd
      · exact hnone d hd

theorem Puts.overlaid {s s' : Store} (h : Puts d s s') : Overlaid [d] s s' := by
  obtain ⟨rev, hentry⟩ := h
  intro key
  by_cases hkey : d.key = key
  · refine Or.inl ⟨d, List.mem_singleton.2 rfl, hkey, rev, ?_⟩
    rw [hentry, ← hkey, Function.update_self]
  · refine Or.inr ⟨?_, ?_⟩
    · intro e he
      rw [List.mem_singleton.1 he]
      exact hkey
    · rw [hentry, Function.update_of_ne fun he => hkey he.symm]

/-- One loop of the import. -/
theorem restoreAll_ensures {V : Type} {body : Except String V → Prog (Option String)}
    (wrap : V → Desired) {vs : List V}
    (hbody : ∀ v ∈ vs, ∀ s, (body (.ok v)).Ensures Store.answers
      (fun res s' => res = none ∧ Puts (wrap v) s s') s) (s : Store) :
    (Program.untilSome body (vs.map .ok)).Ensures Store.answers
      (fun res s' => res = none ∧ Overlaid (vs.map wrap) s s') s := by
  induction vs generalizing s with
  | nil => exact ⟨rfl, overlaid_nil s⟩
  | cons v vs ih =>
    refine (hbody v List.mem_cons_self s).bind ?_
    rintro res s' ⟨rfl, hputs⟩
    refine (ih (fun v hv => hbody v (List.mem_cons_of_mem _ hv)) s').mono ?_
    rintro res s'' ⟨hres, hover⟩
    exact ⟨hres, hputs.overlaid.append hover⟩

/-- Alone on a store, the import of an exported document writes all its records. -/
theorem importAll_ensures (hid : ∀ d ∈ s.exported, d.Identified) (t : Store) :
    (ExportDoc.importAll (.ok s.exportDoc)).Ensures Store.answers
      (fun res t' => res = none ∧ Overlaid s.exported t t') t := by
  simp only [Store.exported, List.mem_append, List.mem_map] at hid
  -- the four loops, none of which ends early
  refine (restoreAll_ensures .cluster (fun c hc t =>
    restoreCluster_ensures (hid _ (Or.inl (Or.inl (Or.inl ⟨c, hc, rfl⟩)))) t) t).bind ?_
  rintro res t1 ⟨rfl, h1⟩
  refine (restoreAll_ensures .nodePool (fun np hnp t =>
    restoreNodePool_ensures (hid _ (Or.inl (Or.inl (Or.inr ⟨np, hnp, rfl⟩)))) t) t1).bind ?_
  rintro res t2 ⟨rfl, h2⟩
  refine (restoreAll_ensures .machine (fun m hm t =>
    restoreMachine_ensures (hid _ (Or.inl (Or.inr ⟨m, hm, rfl⟩))) t) t2).bind ?_
  rintro res t3 ⟨rfl, h3⟩
  refine (restoreAll_ensures .host (fun h hh t =>
    restoreHost_ensures (hid _ (Or.inr ⟨h, hh, rfl⟩)) t) t3).mono ?_
  rintro res t4 ⟨hres, h4⟩
  exact ⟨hres, ((h1.append h2).append h3).append h4⟩

/-! ## What is in a document -/

/-- Every pool, machine and host lies under the lead of a stored cluster. -/
def Covered (s : Store) : Prop :=
  ∀ kind k, kind = .nodepool ∨ kind = .machine ∨ kind = .host → s.db.entry (kind, k) ≠ none →
    ∃ cluster, s.db.clusters[cluster]? ≠ none ∧ hasPrefix k (cluster ++ "\x00") = true

theorem mem_listClusters (h : c ∈ s.listClusters) :
    ∃ (k : String) (c' : Cluster), s.db.clusters[k]? = some c' ∧
      c = { c' with observed := s.obsCluster[k]? } := by
  obtain ⟨⟨k, c'⟩, hmem, rfl⟩ := List.mem_map.1 h
  exact ⟨k, c', Std.ExtTreeMap.mem_toList_iff_getElem?_eq_some.1 hmem, rfl⟩

theorem listed_of_get {k : String} (h : s.db.clusters[k]? = some c) :
    ({ c with observed := s.obsCluster[k]? } : Cluster) ∈ s.listClusters :=
  List.mem_map.2 ⟨(k, c), Std.ExtTreeMap.mem_toList_iff_getElem?_eq_some.2 h, rfl⟩

/-- The name of a listed cluster is that of a stored one. -/
theorem stored_of_listed (hs : s.Revisions) (hc : c ∈ s.listClusters) :
    s.db.clusters[c.name]? ≠ none := by
  obtain ⟨k, c', hk, rfl⟩ := mem_listClusters hc
  show s.db.clusters[c'.name]? ≠ none
  rw [hs.cluster_key hk, hk]
  simp

/-- What a document holds is stored, and if it is not a cluster, lies under the lead of one. -/
theorem stored_of_exported (hs : s.Revisions) (hd : d ∈ s.exported) :
    (∃ r v, s.db.entry d.key = some (r, v) ∧ v.content = d.stamped 0) ∧
      (d.key.1 ≠ .cluster →
        ∃ cluster, s.db.clusters[cluster]? ≠ none ∧
          hasPrefix d.key.2 (cluster ++ "\x00") = true) := by
  simp only [Store.exported, List.mem_append] at hd
  rcases hd with ((hd | hd) | hd) | hd
  · obtain ⟨c, hc, rfl⟩ := List.mem_map.1 hd
    obtain ⟨c1, hc1, rfl⟩ := List.mem_map.1 hc
    obtain ⟨k, c2, hk, rfl⟩ := mem_listClusters hc1
    obtain rfl := hs.cluster_key hk
    exact ⟨⟨_, _, DB.entry_of_cluster hk, rfl⟩, fun hne => absurd rfl hne⟩
  · obtain ⟨np, hnp, rfl⟩ := List.mem_map.1 hd
    obtain ⟨c, hc, hlisted⟩ := List.mem_flatMap.1 hnp
    obtain ⟨k, hk, hlead⟩ := Bucket.mem_listByCluster hlisted
    obtain rfl := hs.nodePool_key hk
    exact ⟨⟨_, _, DB.entry_of_nodePool hk, rfl⟩, fun _ => ⟨c.name, stored_of_listed hs hc, hlead⟩⟩
  · obtain ⟨m, hm, rfl⟩ := List.mem_map.1 hd
    obtain ⟨c, hc, hm⟩ := List.mem_flatMap.1 hm
    obtain ⟨m1, hm1, rfl⟩ := List.mem_map.1 hm
    obtain ⟨k, m2, hk, hlead, rfl⟩ := Store.mem_listMachines hm1
    obtain rfl := hs.machine_key hk
    exact ⟨⟨_, _, DB.entry_of_machine hk, rfl⟩, fun _ => ⟨c.name, stored_of_listed hs hc, hlead⟩⟩
  · obtain ⟨h, hh, rfl⟩ := List.mem_map.1 hd
    obtain ⟨c, hc, hlisted⟩ := List.mem_flatMap.1 hh
    obtain ⟨⟨k, hk, hlead⟩, -⟩ := Store.mem_listHosts.1 hlisted
    obtain rfl := hs.host_key hk
    exact ⟨⟨_, _, DB.entry_of_host hk, rfl⟩, fun _ => ⟨c.name, stored_of_listed hs hc, hlead⟩⟩

/-- A stored cluster is listed under its name. -/
theorem listed_of_stored (hs : s.Revisions) {cluster : String}
    (hc : s.db.clusters[cluster]? ≠ none) : ∃ c ∈ s.listClusters, c.name = cluster := by
  obtain ⟨c, hc⟩ := Option.ne_none_iff_exists'.1 hc
  have hname : c.name = cluster := hs.cluster_key hc
  exact ⟨_, listed_of_get hc, hname⟩

/-- The desired records of a covered store are in its document. -/
theorem exported_of_stored (hs : s.Revisions) (hcovered : Covered s) {r : Nat}
    {v : Record} (he : s.db.entry d.key = some (r, v)) : ∃ e ∈ s.exported, e.key = d.key := by
  have hkey := (hs.own _ _ _ he).1
  have hsome : s.db.entry d.key ≠ none := by simp [he]
  simp only [Store.exported, List.mem_append]
  cases d with
  | cluster c =>
    obtain ⟨c1, hget, hc1⟩ := Option.map_eq_some_iff.1 he
    obtain ⟨-, rfl⟩ := Prod.mk.inj hc1
    refine ⟨.cluster { c1 with observed := none }, Or.inl (Or.inl (Or.inl ?_)), hkey⟩
    exact List.mem_map_of_mem (List.mem_map.2 ⟨_, listed_of_get hget, rfl⟩)
  | nodePool np =>
    obtain ⟨np1, hget, hnp1⟩ := Option.map_eq_some_iff.1 he
    obtain ⟨-, rfl⟩ := Prod.mk.inj hnp1
    obtain ⟨cluster, hstored, hlead⟩ := hcovered .nodepool _ (by simp) hsome
    obtain ⟨c, hc, rfl⟩ := listed_of_stored hs hstored
    refine ⟨.nodePool np1, Or.inl (Or.inl (Or.inr ?_)), hkey⟩
    exact List.mem_map_of_mem
      (List.mem_flatMap.2 ⟨c, hc, Bucket.mem_listByCluster_of_get hget hlead⟩)
  | machine m =>
    obtain ⟨m1, hget, hm1⟩ := Option.map_eq_some_iff.1 he
    obtain ⟨-, rfl⟩ := Prod.mk.inj hm1
    obtain ⟨cluster, hstored, hlead⟩ := hcovered .machine _ (by simp) hsome
    obtain ⟨c, hc, rfl⟩ := listed_of_stored hs hstored
    refine ⟨.machine { m1 with observed := none }, Or.inl (Or.inr ?_), hkey⟩
    exact List.mem_map_of_mem (List.mem_flatMap.2
      ⟨c, hc, List.mem_map.2 ⟨_, Store.mem_listMachines_of_get hget hlead, rfl⟩⟩)
  | host h =>
    obtain ⟨h1, hget, hh1⟩ := Option.map_eq_some_iff.1 he
    obtain ⟨-, rfl⟩ := Prod.mk.inj hh1
    obtain ⟨cluster, hstored, hlead⟩ := hcovered .host _ (by simp) hsome
    obtain ⟨c, hc, rfl⟩ := listed_of_stored hs hstored
    refine ⟨.host h1, Or.inr ?_, hkey⟩
    exact List.mem_map_of_mem (List.mem_flatMap.2
      ⟨c, hc, Store.mem_listHosts.2 ⟨⟨_, hget, hlead⟩, Or.inl rfl⟩⟩)

/-! ## What is stored is identified -/

theorem put_of_fits {expected rev : Nat}
    (h : (Desired.access expected (.ok rev) d).Fits s) : (d.put s expected).1 = .ok rev := by
  cases d <;> exact h.ok

/-- A record whose content is stored has the names without which it is not accepted. -/
theorem identified_of_stored {h : List Access} (hh : History h) {r : Nat} {v : Record}
    (he : (storeAfter h).db.entry d.key = some (r, v)) (hv : v.content = d.stamped 0) :
    d.Identified := by
  obtain ⟨n, d', expected, hn, -, hsince⟩ := CompareAndSwap.stored_since hh he
  have hfit : (Desired.access expected (.ok r) d').Fits (storeAfter (h.take n)) :=
    Along.at_index hh hn
  have hid : d'.Identified := (CompareAndSwap.put_value (put_of_fits hfit)).1
  have hlen : n < h.length := (List.getElem?_eq_some_iff.1 hn).1
  have hlast := hsince h.length hlen le_rfl
  rw [List.take_length, he] at hlast
  obtain ⟨-, rfl⟩ := Prod.mk.inj (Option.some.inj hlast)
  rw [Desired.content_stamped] at hv
  rw [Desired.identified_iff _ 0] at hid ⊢
  rwa [← hv]

end RoundTrip

open RoundTrip

/-! ## The round trip -/

/-- The desired records of `s` are in `t'` with the same content, and the others of `t` are there as
before. -/
def Reproduced (s t t' : Store) : Prop :=
  ∀ d : Desired,
    (∀ r v, s.db.entry d.key = some (r, v) →
      ∃ r' v', t'.db.entry d.key = some (r', v') ∧ v'.content = v.content) ∧
    (s.db.entry d.key = none → t'.db.entry d.key = t.db.entry d.key)

/-- An export of the store succeeds, and its import into any store succeeds and reproduces the desired
records. -/
def RoundTrips (s : Store) : Prop :=
  ∃ doc, ExportDoc.exportAll.Ensures Store.answers (fun res s' => res = .ok doc ∧ s' = s) s ∧
    ∀ t, (ExportDoc.importAll (.ok doc)).Ensures Store.answers
      (fun res t' => res = none ∧ Reproduced s t t') t

namespace RoundTrip

variable {s t t' : Store}

theorem Overlaid.reproduced (hs : s.Revisions) (hcovered : Covered s)
    (h : Overlaid s.exported t t') : Reproduced s t t' := by
  intro d
  constructor
  · intro r v he
    obtain ⟨e, hmem, hkey⟩ := exported_of_stored hs hcovered he
    rcases h d.key with ⟨e', hmem', hkey', rev, hentry⟩ | ⟨hnone, -⟩
    · refine ⟨rev, _, hentry, ?_⟩
      obtain ⟨⟨r', v', he', hv'⟩, -⟩ := stored_of_exported hs hmem'
      rw [hkey', he] at he'
      obtain ⟨-, rfl⟩ := Prod.mk.inj (Option.some.inj he')
      rw [Desired.content_stamped, hv']
    · exact absurd hkey (hnone e hmem)
  · intro hnone
    rcases h d.key with ⟨e, hmem, hkey, -⟩ | ⟨-, hsame⟩
    · obtain ⟨⟨r, v, he, -⟩, -⟩ := stored_of_exported hs hmem
      rw [hkey, hnone] at he
      cases he
    · exact hsame

/-- What is stored in one of the four buckets is a desired record. -/
theorem desired_of_stored (hs : s.Revisions) {kind : EventKind} {k : String} {r : Nat} {v : Record}
    (hkind : kind = .nodepool ∨ kind = .machine ∨ kind = .host)
    (he : s.db.entry (kind, k) = some (r, v)) : ∃ d : Desired, d.key = (kind, k) := by
  have hkey := (hs.own _ _ _ he).1
  rcases hkind with rfl | rfl | rfl
  · obtain ⟨np, -, hnp⟩ := Option.map_eq_some_iff.1 he
    obtain ⟨-, rfl⟩ := Prod.mk.inj hnp
    exact ⟨.nodePool np, hkey⟩
  · obtain ⟨m, -, hm⟩ := Option.map_eq_some_iff.1 he
    obtain ⟨-, rfl⟩ := Prod.mk.inj hm
    exact ⟨.machine m, hkey⟩
  · obtain ⟨h, -, hh⟩ := Option.map_eq_some_iff.1 he
    obtain ⟨-, rfl⟩ := Prod.mk.inj hh
    exact ⟨.host h, hkey⟩

/-- What is reproduced in an empty store was in the document. -/
theorem Overlaid.covered (hs : s.Revisions) (h : Overlaid s.exported {} t')
    (hrep : Reproduced s {} t') : Covered s := by
  intro kind k hkind hne
  obtain ⟨⟨r, v⟩, he⟩ := Option.ne_none_iff_exists'.1 hne
  obtain ⟨d, hd⟩ := desired_of_stored hs hkind he
  rw [← hd] at he
  obtain ⟨r', v', he', -⟩ := (hrep d).1 r v he
  rcases h d.key with ⟨e, hmem, hkey, -⟩ | ⟨-, hsame⟩
  · have hchild : e.key.1 ≠ .cluster := by
      rw [hkey, hd]
      rcases hkind with rfl | rfl | rfl <;> simp
    obtain ⟨cluster, hc, hlead⟩ := (stored_of_exported hs hmem).2 hchild
    rw [hkey, hd] at hlead
    exact ⟨cluster, hc, hlead⟩
  · -- an empty store has nothing to keep
    rw [he'] at hsame
    have hempty : ∀ key, ({} : Store).db.entry key = none := by
      rintro ⟨kind, k⟩
      cases kind <;> rfl
    rw [hempty] at hsame
    cases hsame

section Histories

variable {h : List Access}

/-- What an export finds is accepted by an import. -/
theorem identified_of_exported (hh : History h) {d : Desired} (hd : d ∈ (storeAfter h).exported) :
    d.Identified := by
  obtain ⟨⟨r, v, he, hv⟩, -⟩ := stored_of_exported (Revisions.of_history hh) hd
  exact identified_of_stored hh he hv

theorem covered_of_roundTrips (hh : History h) (htrip : RoundTrips (storeAfter h)) :
    Covered (storeAfter h) := by
  obtain ⟨doc, hexport, himport⟩ := htrip
  -- there is only one document, and its import into the empty store is known
  obtain ⟨_, _, ⟨rfl, rfl⟩, hdoc, -⟩ := hexport.meet exportAll_ensures
  obtain rfl := Except.ok.inj hdoc
  have hall := importAll_ensures (fun d hd => identified_of_exported hh hd) {}
  obtain ⟨_, t', ⟨-, hrep⟩, -, hover⟩ := (himport {}).meet hall
  exact hover.covered (Revisions.of_history hh) hrep

theorem roundTrips_of_covered (hh : History h) (hcovered : Covered (storeAfter h)) :
    RoundTrips (storeAfter h) := by
  refine ⟨(storeAfter h).exportDoc, exportAll_ensures, fun t => ?_⟩
  refine (importAll_ensures (fun d hd => identified_of_exported hh hd) t).mono ?_
  rintro res t' ⟨hres, hover⟩
  exact ⟨hres, hover.reproduced (Revisions.of_history hh) hcovered⟩

end Histories

end RoundTrip

/-- A cluster with a host. -/
def RoundTrip.sample : List Access :=
  [.call (.putClusterDesired { name := "c" } 0) (.ok 1),
    .call (.putHostDesired { cluster := "c", mac := "m" } 0) (.ok 2)]

theorem RoundTrip.sample_covered : RoundTrip.Covered (storeAfter sample) := by
  intro kind k hkind hne
  refine ⟨"c", by decide +kernel, ?_⟩
  rcases hkind with rfl | rfl | rfl
  · exact absurd rfl hne
  · exact absurd rfl hne
  · -- the only host
    by_cases hk : k = ckey "c" "m"
    · subst hk
      decide +kernel
    · refine absurd ?_ hne
      show (((∅ : Bucket Host).insert (ckey "c" "m") _)[k]?).map _ = none
      rw [Bucket.get_insert, if_neg fun he => hk he.symm]
      rfl

/-- The creation of a cluster is confirmed. -/
def RoundTrip.created : List Move :=
  Script.request (.createCluster
    { name := "c", cpEndpoint := "https://10.0.0.1:6443", cpMac := "m", cpIp := "10.0.0.1"
      talosVersion := "v1.7.0", kubernetesVersion := "v1.30.0", confirm := true })

end Medea
