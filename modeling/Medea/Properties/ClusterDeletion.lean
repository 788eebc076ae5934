import Medea.Interaction.Outcome
import Medea.Properties.Revisions
import Medea.Server.Handlers

/-!
# Deleting a cluster

`DeleteCluster` removes everything of a cluster in one transaction. `deleteCluster_clears`: after every
history, a deletion that succeeds leaves no record of the cluster in any of the eight buckets and no
observed entry of it or of its machines, one that fails leaves the store as it was, a second deletion
changes nothing but the counter, and a cluster of the same name can be created right away.

The last part is about a program, the handler of `CreateCluster`, that runs alone: every call is
answered by the store (`Store.answers`).
-/

set_option autoImplicit false

namespace Medea

open Medea.Interaction Medea.Versioned

/-! ## Records of a cluster -/

namespace Store

variable {s : Store} {c : String}

/-- There is nothing under the keys of the cluster, in the file or in memory. -/
structure Emptied (s : Store) (c : String) : Prop where
  entry : ∀ key, goesWith c key = true → s.db.entry key = none
  obsCluster : s.obsCluster[c]? = none
  obsMachine : ∀ k, hasPrefix k (c ++ "\x00") = true → s.obsMachine[k]? = none

/-- No record belongs to the cluster, and nothing observed of it or its machines is kept. -/
structure Cleared (s : Store) (c : String) : Prop where
  records : ∀ key r v, s.db.entry key = some (r, v) → v.clusterName ≠ c
  obsCluster : s.obsCluster[c]? = none
  obsMachine : ∀ addr, s.obsMachine[c ++ "\x00" ++ addr]? = none

theorem Emptied.cleared (h : s.Emptied c) (hs : s.Revisions) : s.Cleared c where
  records := by
    rintro key r v he rfl
    have hkey := (hs.own key r v he).1
    have hnone := h.entry key (hkey ▸ goesWith_key v)
    rw [hnone] at he
    cases he
  obsCluster := h.obsCluster
  obsMachine addr := h.obsMachine _ (hasPrefix_ckey_self c addr)

/-- The deletion of a named cluster succeeds. -/
theorem deleteCluster_exec (hc : c ≠ "") (s : Store) :
    ((StoreOp.deleteCluster c).exec s).1 = .ok () := by
  simp [StoreOp.exec, Store.deleteCluster, hc]

theorem emptied_deleteCluster (hc : c ≠ "") (s : Store) :
    ((StoreOp.deleteCluster c).exec s).2.Emptied c := by
  have hreg := congrArg Registry.entry (StoreOp.registry_exec (deleteCluster_exec hc s))
  refine ⟨?_, ?_, ?_⟩
  · intro key hkey
    exact (congrFun hreg key).trans (if_pos hkey)
  · simp only [StoreOp.exec, Store.deleteCluster, if_neg hc]
    exact (Bucket.get_erase c c).trans (if_pos rfl)
  · intro k hk
    simp only [StoreOp.exec, Store.deleteCluster, if_neg hc]
    exact (Bucket.get_deleteByClusterPrefix c k).trans (if_pos hk)

theorem erase_of_none {V : Type} {b : Bucket V} {k : String} (h : b[k]? = none) : b.erase k = b := by
  apply Std.ExtTreeMap.ext_getElem?
  intro k'
  rw [Bucket.get_erase]
  by_cases hk : k = k'
  · rw [if_pos hk, ← hk, h]
  · rw [if_neg hk]

theorem deleteByClusterPrefix_of_none {V : Type} {b : Bucket V}
    (h : ∀ k, hasPrefix k (c ++ "\x00") = true → b[k]? = none) : deleteByClusterPrefix b c = b := by
  apply Std.ExtTreeMap.ext_getElem?
  intro k
  rw [Bucket.get_deleteByClusterPrefix]
  by_cases hk : hasPrefix k (c ++ "\x00") = true
  · rw [if_pos hk, h k hk]
  · rw [if_neg hk]

/-- The counter has moved by one, and no record and no observed value has changed. -/
structure OnlyCounts (s s' : Store) : Prop where
  db : s'.db = { s.db with revision := s.db.revision + 1 }
  obsCluster : s'.obsCluster = s.obsCluster
  obsMachine : s'.obsMachine = s.obsMachine

/-- Where there is nothing of the cluster, a deletion changes nothing but the counter. -/
theorem Emptied.deleteCluster_again (h : s.Emptied c) (hc : c ≠ "") :
    s.OnlyCounts ((StoreOp.deleteCluster c).exec s).2 := by
  have hnone : ∀ kind k, goesWith c (kind, k) = true → s.db.entry (kind, k) = none :=
    fun kind k hk => h.entry _ hk
  have hone : c == c := beq_self_eq_true c
  simp only [StoreOp.exec, Store.deleteCluster, if_neg hc, commit, publish]
  refine ⟨?_, erase_of_none h.obsCluster, deleteByClusterPrefix_of_none h.obsMachine⟩
  rw [erase_of_none (Option.map_eq_none_iff.1 (hnone .cluster c hone)),
    erase_of_none (Option.map_eq_none_iff.1 (hnone .clusterRollout c hone)),
    erase_of_none (Option.map_eq_none_iff.1 (hnone .clusterBootstrap c hone)),
    deleteByClusterPrefix_of_none fun k hk => Option.map_eq_none_iff.1 (hnone .nodepool k hk),
    deleteByClusterPrefix_of_none fun k hk => Option.map_eq_none_iff.1 (hnone .machine k hk),
    deleteByClusterPrefix_of_none fun k hk => Option.map_eq_none_iff.1 (hnone .host k hk),
    deleteByClusterPrefix_of_none fun k hk => Option.map_eq_none_iff.1 (hnone .machineRollout k hk),
    deleteByClusterPrefix_of_none fun k hk => Option.map_eq_none_iff.1 (hnone .rolloutJob k hk)]

/-! ## Programs that run alone -/

/-- A call is answered by the store, and by nobody else. -/
def answers (s : Store) : Ev → Store → Prop
  | ⟨.store op, rep⟩, s' => rep = (op.exec s).1 ∧ s' = (op.exec s).2
  | _, _ => False

theorem ensures_callStore {α : Type} {Q : α → Store → Prop} {op : StoreOp}
    {k : Except StoreError op.Value → Prog α}
    (h : (k (op.exec s).1).Ensures answers Q (op.exec s).2) :
    (callStore op >>= k).Ensures answers Q s :=
  Program.ensures_perform (S := medeaSig) (fun _ _ => Iff.rfl) h

/-- A call whose answer is the result. -/
theorem ensures_lastCall {op : StoreOp} {Q : Except StoreError op.Value → Store → Prop}
    (h : Q (op.exec s).1 (op.exec s).2) : (callStore op).Ensures answers Q s := by
  refine ⟨⟨_, _, rfl, rfl⟩, ?_⟩
  rintro rep s' ⟨rfl, rfl⟩
  exact h

end Store

/-- The fields that `CreateCluster` requires are there, and it is confirmed. -/
structure CreateClusterRequest.Valid (req : CreateClusterRequest) : Prop where
  name : req.name ≠ ""
  cpEndpoint : req.cpEndpoint ≠ ""
  cpMac : req.cpMac ≠ ""
  cpIp : req.cpIp ≠ ""
  talosVersion : req.talosVersion ≠ ""
  kubernetesVersion : req.kubernetesVersion ≠ ""
  confirm : req.confirm = true

/-- Alone on the store, the request is answered with the bootstrap it has armed. -/
def CreateClusterRequest.Succeeds (req : CreateClusterRequest) (s : Store) : Prop :=
  (Server.createCluster req).Ensures Store.answers (fun res _ => ∃ cb, res = .ok (.bootstrap cb)) s

/-- Where there is nothing of the cluster, it can be created. -/
theorem Store.Emptied.createCluster {s : Store} {req : CreateClusterRequest}
    (h : s.Emptied req.name) (hreq : req.Valid) : req.Succeeds s := by
  have hcluster : s.getCluster req.name = (none, 0) := by
    have hnone := Option.map_eq_none_iff.1 (h.entry (.cluster, req.name) (beq_self_eq_true _))
    rw [Store.getCluster, hnone]
  have hbootstrap : s.getClusterBootstrap req.name = none :=
    Option.map_eq_none_iff.1 (h.entry (.clusterBootstrap, req.name) (beq_self_eq_true _))
  have hhost : s.db.hosts[ckey req.name req.cpMac]? = none :=
    Option.map_eq_none_iff.1 (h.entry (.host, ckey req.name req.cpMac) (hasPrefix_ckey_self _ _))
  have hfirst : ¬(req.name = "" ∨ req.cpEndpoint = "" ∨ req.cpMac = "" ∨ req.cpIp = "") := by
    simp [hreq.name, hreq.cpEndpoint, hreq.cpMac, hreq.cpIp]
  have hsecond : ¬(req.talosVersion = "" ∨ req.kubernetesVersion = "") := by
    simp [hreq.talosVersion, hreq.kubernetesVersion]
  have hput : ((StoreOp.putHostDesired (Server.controlPlaneHost req) 0).exec s).1 =
      .ok (s.db.revision + 1) := by
    have hnames : ¬(req.name = "" ∨ req.cpMac = "") := by simp [hreq.name, hreq.cpMac]
    have hmatch : Store.matches? Store.hostTable s (ckey req.name req.cpMac) 0 = true := by
      simp [Store.matches?, Store.hostTable, hhost]
    simp [StoreOp.exec, Store.putHostDesired, Store.putCAS, Server.controlPlaneHost, hnames, hmatch]
  have hboot : ∀ (cb : ClusterBootstrap) (s' : Store), cb.cluster = req.name →
      ((StoreOp.putClusterBootstrap cb).exec s').1 = .ok () := by
    intro cb s' hcb
    simp [StoreOp.exec, Store.putClusterBootstrap, Store.putLWW, hcb, hreq.name]
  rw [CreateClusterRequest.Succeeds, Server.createCluster, if_neg hfirst, if_neg hsecond]
  -- the two checks find nothing
  apply Store.ensures_callStore
  simp only [StoreOp.exec, hcluster, Server.orStatus]
  apply Store.ensures_callStore
  simp only [StoreOp.exec, hbootstrap, hreq.confirm, Bool.not_true, Bool.false_eq_true, if_false]
  -- so the host is new, and both writes succeed
  apply Store.ensures_callStore
  rw [hput]
  apply Store.ensures_callStore
  rw [hboot _ _ rfl]
  exact ⟨_, rfl⟩

/-- Deleting a cluster is complete, atomic and idempotent, and makes room for a new cluster. -/
theorem deleteCluster_clears {h : List Access} (hh : History h) {c : String} (hc : c ≠ "")
    {rep : Except StoreError Unit}
    (hfit : (Access.call (.deleteCluster c) rep).Fits (storeAfter h)) {s : Store}
    (hs : s = (Access.call (.deleteCluster c) rep).after (storeAfter h)) :
    (∀ v, rep = .ok v →
      s.Cleared c ∧ s.OnlyCounts ((StoreOp.deleteCluster c).exec s).2 ∧
        ∀ req : CreateClusterRequest, req.name = c → req.Valid →
          req.Succeeds s ∧ req.Succeeds ((StoreOp.deleteCluster c).exec s).2) ∧
      ∀ e, rep = .error e → s = storeAfter h := by
  subst hs
  constructor
  · rintro v rfl
    have hempty := Store.emptied_deleteCluster hc (storeAfter h)
    have hnext : History (h ++ [.call (.deleteCluster c) (.ok v)]) :=
      along_append.2 ⟨hh, hfit, trivial⟩
    have hrevs := Revisions.of_history hnext
    rw [History.storeAfter_snoc] at hrevs
    refine ⟨hempty.cleared hrevs, hempty.deleteCluster_again hc, ?_⟩
    rintro req rfl hreq
    exact ⟨hempty.createCluster hreq, (Store.emptied_deleteCluster hc _).createCluster hreq⟩
  · rintro e rfl
    rfl

/-- A cluster with a host and an observed machine. -/
def ClusterDeletion.sample : List Access :=
  [.call (.putClusterDesired { name := "c" } 0) (.ok 1),
    .call (.putHostDesired { cluster := "c", mac := "m" } 0) (.ok 2),
    .call (.setMachineObserved "c" "10.0.0.1" {}) (.ok ())]

theorem ClusterDeletion.sample_history : History ClusterDeletion.sample :=
  ⟨Or.inl rfl, Or.inl rfl, Or.inl rfl, trivial⟩

/-- Nothing of the cluster is left. -/
theorem sample_cleared :
    ((Access.call (.deleteCluster "c") (.ok ())).after (storeAfter ClusterDeletion.sample)).Cleared
      "c" := by
  have hfit : (Access.call (.deleteCluster "c") (.ok ())).Fits (storeAfter ClusterDeletion.sample) :=
    Or.inl rfl
  exact ((deleteCluster_clears ClusterDeletion.sample_history (by decide) hfit rfl).1 () rfl).1

end Medea
