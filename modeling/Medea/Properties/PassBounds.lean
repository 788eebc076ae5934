import Medea.ControlPlane.SolePass
import Medea.Properties.Isolation

/-!
# What one provisioning pass may do

`Bounded` is what a pass over a pool is meant to keep to, whatever the outside answers: it stages at most
one host or releases at most one, each only when the pool calls for it, and it changes no host of another
pool or cluster.

A pass works on the hosts that are listed for its cluster, and changes the host that the cluster has under
the MAC of a listed one. Where the name of one cluster leads that of another the two differ, and a pass
changes a host that it never listed. `pass_bounded_iff`: these names are the only exception.
-/

set_option autoImplicit false

namespace Medea

open Medea.Interaction Bench

/-- The hosts of a pool in a state. -/
def Store.tally (s : Store) (cluster pool : String) (st : HostState) : Nat :=
  (s.listHosts cluster pool).countP (·.state = st)

/-- The replicas of a pool, none if it is not stored. -/
def Store.replicasOf (s : Store) (cluster pool : String) : Nat :=
  (s.db.nodePools[ckey cluster pool]?.map (·.replicas)).getD 0

namespace PassBounds

variable {cluster pool : String} {h : Host}

/-- The pool `np` of the store `s` lets a pass stage or release a host when `s₁` is stored: it is enabled,
and no host is in flight or has failed. -/
structure Called (cluster pool : String) (s : Store) (np : NodePool) (s₁ : Store) : Prop where
  enabled : ∃ cl, s.db.clusters[cluster]? = some cl ∧ cl.provisioningEnabled = true
  stored : s.db.nodePools[ckey cluster pool]? = some np
  positive : 0 < np.replicas
  inflight : s₁.tally cluster pool .provisioning = 0
  failed : s₁.tally cluster pool .failed = 0

/-- A host of the pool. -/
structure Member (cluster pool : String) (s : Store) (h : Host) : Prop where
  listed : h ∈ s.listHosts cluster pool
  cluster : h.cluster = cluster
  pool : h.pool = pool

/-- One host is staged. -/
structure Stages (cluster pool : String) (s : Store) (h : Host) (b : Bench) : Prop where
  called : ∃ np s₁ profile cfg, Called cluster pool s np s₁ ∧
    s₁.tally cluster pool .ready < np.replicas ∧
    (∀ kv ∈ np.selector, labelOf h.labels kv.1 = kv.2) ∧
    b.log = [(.provisioner cluster (.stage h.mac profile cfg), s₁)]
  member : Member cluster pool s h
  registered : h.state = .registered

/-- One host is released: its node is drained, if it is known, and it is unstaged. -/
structure ScalesIn (r : ProvisionReconciler) (cluster pool : String) (s : Store) (v : Host)
    (b : Bench) : Prop where
  called : ∃ np s₁ name, Called cluster pool s np s₁ ∧
    np.replicas < s₁.tally cluster pool .ready ∧
    b.log.Sublist [
      (.kube r.client v.addr (.drain name ProvisionReconciler.scaleInDrainTimeout), s₁),
      (.provisioner cluster (.unstage v.mac), s₁)]
  member : Member cluster pool s v
  ready : v.state = .ready
  lowest : ∀ h ∈ s.listHosts cluster pool, h.state = .ready → v.mac ≤ h.mac
  enough : s.replicasOf cluster pool ≤ b.store.tally cluster pool .ready

/-- What a pass from the store `s` has done when it ends. The host that it has staged or released, if any,
is `acted`. -/
structure Bounded (r : ProvisionReconciler) (cluster pool : String) (s : Store) (acted : Option Host)
    (b : Bench) : Prop where
  once : match acted with
    | none => b.log = []
    | some h => Stages cluster pool s h b ∨ ScalesIn r cluster pool s h b
  bound : b.store.tally cluster pool .ready + b.store.tally cluster pool .provisioning ≤
    max (s.tally cluster pool .ready + s.tally cluster pool .provisioning) (s.replicasOf cluster pool)
  elsewhere : ∀ (k : String) (h : Host), h.cluster ≠ cluster ∨ h.pool ≠ pool →
    (b.db.hosts[k]? = some h ↔ s.db.hosts[k]? = some h)
  others : ∀ h, Member cluster pool s h → h.state ≠ .provisioning → acted ≠ some h →
    Member cluster pool b.store h

/-! ## Counting the hosts of a pool -/

section Counting

open SolePass

variable {s s' : Store}

/-- The hosts of the listing are counted as they are now. -/
theorem tally_eq (hs : Pooled cluster pool s) (hs' : s'.Reachable) (ht : Tracks cluster pool s s'.db)
    (st : HostState) : s'.tally cluster pool st =
      (s.listHosts cluster pool).countP fun h => (now cluster s'.db h).state = st := by
  rw [Store.tally, (ht.listed_perm hs hs').countP_eq, List.countP_map]
  rfl

theorem tally_active (hs : Pooled cluster pool s) (hs' : s'.Reachable)
    (ht : Tracks cluster pool s s'.db) :
    s'.tally cluster pool .ready + s'.tally cluster pool .provisioning =
      (s.listHosts cluster pool).countP fun h => Active (now cluster s'.db h) := by
  rw [Store.tally, Store.tally, countP_active, (ht.listed_perm hs hs').countP_eq, List.countP_map]
  rfl

/-- If no host has become READY or PROVISIONING there are no more of them. -/
theorem active_le (hs : Pooled cluster pool s) (hs' : s'.Reachable) (ht : Tracks cluster pool s s'.db)
    (h : ∀ x ∈ s.listHosts cluster pool, Active (now cluster s'.db x) → Active x) :
    s'.tally cluster pool .ready + s'.tally cluster pool .provisioning ≤
      s.tally cluster pool .ready + s.tally cluster pool .provisioning := by
  rw [tally_active hs hs' ht, Store.tally, Store.tally, countP_active]
  refine List.countP_mono_left fun x hx hactive => ?_
  simpa using h x hx (by simpa using hactive)

theorem member_of_listed (hs : Pooled cluster pool s) (hm : h ∈ s.listHosts cluster pool) :
    Member cluster pool s h :=
  ⟨hm, (hs.mem_iff.1 hm).2.1, (hs.mem_iff.1 hm).2.2⟩

/-- A host that is stored as it was listed is still a host of the pool. -/
theorem member_of_still (ht : Tracks cluster pool s s'.db) (hm : Member cluster pool s h)
    (hstill : now cluster s'.db h = h) : Member cluster pool s' h := by
  refine ⟨Store.mem_listHosts.2 ⟨⟨ckey cluster h.mac, ?_, hasPrefix_ckey_self ..⟩, Or.inr hm.pool⟩, hm.cluster,
    hm.pool⟩
  rw [(ht.listed h hm.listed).1, hstill]

end Counting

/-! ## Passes over their own hosts -/

section Own

open SolePass

variable {S : Setting} {C : Course} {b : Bench} {s₁ : Store} {v : Host}

theorem replicasOf_eq (hS : S.Enabled) : S.start.replicasOf S.cluster S.pool = S.np.replicas := by
  rw [Store.replicasOf, hS.stored]
  rfl

/-- Nothing is staged or released as long as the log is empty. -/
theorem bounded_of_midway (hm : C.Midway b) :
    Bounded C.reconciler C.cluster C.pool C.start none b := by
  refine ⟨hm.quiet, Nat.le_trans ?_ (Nat.le_max_left _ _), ?_, ?_⟩
  · apply active_le C.pooled b.reachable hm.tracks
    intro x hx hactive
    rcases hm.fates x hx with hstill | hfate
    · rwa [← show now C.cluster b.db x = x from hstill]
    · exact hfate.active hactive
  · exact fun k h hother => hm.tracks.elsewhere C.pooled hother
  · intro h hh hst _
    refine member_of_still hm.tracks hh ?_
    rcases hm.fates h hh.listed with hstill | hfate
    · exact hstill
    · exact hfate.of_settled hst

theorem midway_of_through (hb : C.Through b) : C.Midway b :=
  ⟨hb.quiet, hb.tracks, fun h hh => Or.inr (hb.fates h hh)⟩

section Clear

variable {s₁ : Store} (hclear : C.Clear s₁)

include hclear

theorem called_of_clear (hC : C.Enabled) : Called C.cluster C.pool C.start C.np s₁ := by
  refine ⟨hC.enabled, hC.stored, hC.positive, ?_, ?_⟩
  · rw [tally_eq C.pooled hclear.reachable hclear.tracks, List.countP_eq_zero]
    intro h hh
    simp only [decide_eq_true_eq]
    exact (hclear.idle h hh).1
  · rw [tally_eq C.pooled hclear.reachable hclear.tracks, List.countP_eq_zero]
    intro h hh
    simp only [decide_eq_true_eq]
    exact (hclear.idle h hh).2

theorem ready_of_clear : C.ready s₁.db = s₁.tally C.cluster C.pool .ready := by
  rw [tally_eq C.pooled hclear.reachable hclear.tracks, Course.ready, List.countP_map]
  rfl

/-- After the loop the hosts that count are READY. -/
theorem active_of_clear (hh : h ∈ C.hosts) :
    Active (C.cur s₁.db h) ↔ (C.cur s₁.db h).state = .ready :=
  or_iff_left (hclear.idle h hh).1

theorem still_of_clear (hh : h ∈ C.hosts) (hst : h.state ≠ .provisioning) :
    now C.cluster s₁.db h = h := now_of_get (hclear.stored hh hst)

end Clear

/-- A pass that has staged a host, with or without marking it. -/
theorem bounded_of_staging (hC : C.Enabled) (hb : C.Staging h s₁ b) :
    Bounded C.reconciler C.cluster C.pool C.start (some h) b := by
  obtain ⟨hmem, hregistered⟩ := pickAvailable_some hb.picked
  obtain ⟨profile, cfg, hlog⟩ := hb.log
  have hclear := hb.clear
  have hstill := still_of_clear hclear hmem (by simp [hregistered])
  have hshort := hb.short
  -- the hosts of the listing, after the loop and now
  obtain ⟨htracks, hrest⟩ : Tracks C.cluster C.pool C.start b.db ∧
      ∀ x ∈ C.hosts, x.mac ≠ h.mac → now C.cluster b.db x = now C.cluster s₁.db x := by
    rcases hb.hosts with hsame | ⟨startedAt, hput⟩
    · exact ⟨hclear.tracks.congr hsame, fun x _ _ => now_congr x hsame⟩
    · have hsame : SameHost h (Course.stagedHost h startedAt) := ⟨rfl, rfl, rfl⟩
      have hinsert := hput.trans (putHost_insert C.pooled hmem hsame s₁.db)
      exact ⟨hclear.tracks.put hinsert C.pooled hmem ⟨rfl, rfl, rfl⟩,
        fun x _ hne => Tracks.now_put_other hinsert hne⟩
  refine ⟨Or.inl ⟨⟨C.np, s₁, profile, cfg, called_of_clear hclear hC, ?_, ?_, hlog⟩, ?_, hregistered⟩,
    Nat.le_trans ?_ (Nat.le_max_right _ _), ?_, ?_⟩
  · rwa [← ready_of_clear hclear]
  · have hmatch := List.find?_some hb.picked
    simpa [matchesSelector] using (Bool.and_eq_true_iff.1 hmatch).2
  · exact member_of_listed C.pooled hmem
  · -- one more than the READY ones of before
    have hle : (C.start.listHosts C.cluster C.pool).countP (fun x => Active (now C.cluster b.db x)) ≤
        (C.start.listHosts C.cluster C.pool).countP
          (fun x => (now C.cluster s₁.db x).state = .ready) + 1 := by
      refine countP_le_succ C.pooled.apart h.mac fun x hx hactive => ?_
      by_cases hmac : x.mac = h.mac
      · exact Or.inr hmac
      · rw [hrest x hx hmac] at hactive
        exact Or.inl ((active_of_clear hclear hx).1 hactive)
    have hend := tally_active C.pooled b.reachable htracks
    rw [hend, replicasOf_eq hC]
    refine Nat.le_trans hle ?_
    rw [ready_of_clear hclear, tally_eq C.pooled hclear.reachable hclear.tracks] at hshort
    omega
  · exact fun k x hother => htracks.elsewhere C.pooled hother
  · intro x hx hst hne
    refine member_of_still htracks hx ?_
    have hmac : x.mac ≠ h.mac := fun heq =>
      hne (congrArg some (C.pooled.eq_of_mac hx.listed hmem heq).symm)
    exact (hrest x hx.listed hmac).trans (still_of_clear hclear hx.listed hst)

/-- A release that has changed the victim at most. -/
theorem bounded_of_release (hC : C.Enabled) (hclear : C.Clear s₁)
    (hsurplus : C.np.replicas < C.ready s₁.db) (hv : victimOf C.hosts = some v)
    (hlog : b.log <+: C.releaseLog v s₁) (htracks : Tracks C.cluster C.pool C.start b.db)
    (hrest : ∀ x ∈ C.hosts, x.mac ≠ v.mac → now C.cluster b.db x = now C.cluster s₁.db x)
    (hactive : Active (now C.cluster b.db v) → Active v) :
    Bounded C.reconciler C.cluster C.pool C.start (some v) b := by
  obtain ⟨hmem, hready, hlowest⟩ := victimOf_some hv
  have hpast : ∀ x ∈ C.hosts, Active (now C.cluster b.db x) → Active x := by
    intro x hx hact
    by_cases hmac : x.mac = v.mac
    · obtain rfl := C.pooled.eq_of_mac hx hmem hmac
      exact hactive hact
    · rw [hrest x hx hmac] at hact
      exact (hclear.fates x hx).active hact
  refine ⟨Or.inr ⟨⟨C.np, s₁, nodeNameFor C.nodes v.addr, called_of_clear hclear hC, ?_, ?_⟩, ?_, hready,
    hlowest, ?_⟩, ?_, ?_, ?_⟩
  · rwa [← ready_of_clear hclear]
  · refine hlog.sublist.trans ?_
    rw [Course.releaseLog, releaseOps]
    split_ifs
    · exact List.sublist_cons_self _ _
    · exact List.Sublist.refl _
  · exact member_of_listed C.pooled hmem
  · -- one less than the READY ones of before, at worst
    have hle : (C.start.listHosts C.cluster C.pool).countP
          (fun x => (now C.cluster s₁.db x).state = .ready) ≤
        (C.start.listHosts C.cluster C.pool).countP
          (fun x => (now C.cluster b.db x).state = .ready) + 1 := by
      refine countP_le_succ C.pooled.apart v.mac fun x hx hst => ?_
      by_cases hmac : x.mac = v.mac
      · exact Or.inr hmac
      · rw [hrest x hx hmac]
        exact Or.inl hst
    have hend := tally_eq C.pooled b.reachable htracks .ready
    rw [replicasOf_eq hC, hend]
    rw [ready_of_clear hclear, tally_eq C.pooled hclear.reachable hclear.tracks] at hsurplus
    exact Nat.le_of_succ_le_succ (Nat.le_trans hsurplus hle)
  · exact Nat.le_trans (active_le C.pooled b.reachable htracks hpast) (Nat.le_max_left _ _)
  · exact fun k x hother => htracks.elsewhere C.pooled hother
  · intro x hx hst hne
    refine member_of_still htracks hx ?_
    have hmac : x.mac ≠ v.mac := fun heq =>
      hne (congrArg some (C.pooled.eq_of_mac hx.listed hmem heq).symm)
    exact (hrest x hx.listed hmac).trans (still_of_clear hclear hx.listed hst)

theorem bounded_of_releasing (hC : C.Enabled) (hb : C.Releasing v s₁ b) :
    Bounded C.reconciler C.cluster C.pool C.start (some v) b := by
  obtain ⟨hmem, hready, -⟩ := victimOf_some hb.victim
  have hsame := hb.cut.hosts
  refine bounded_of_release hC hb.clear hb.surplus hb.victim hb.log.2 (hb.clear.tracks.congr hsame)
    (fun x _ _ => now_congr x hsame) fun _ => Or.inl hready

theorem bounded_of_done (hC : C.Enabled) (hb : C.Done v s₁ b) :
    Bounded C.reconciler C.cluster C.pool C.start (some v) b := by
  obtain ⟨hmem, hready, -⟩ := victimOf_some hb.victim
  obtain ⟨h, rev, hk, hhosts⟩ := hb.released.hosts
  have hstill := still_of_clear hb.clear hmem (by simp [hready])
  obtain rfl : v = h := by
    rw [(hb.clear.tracks.listed v hmem).1, hstill] at hk
    exact Option.some.inj hk
  exact bounded_of_release hC hb.clear hb.surplus hb.victim (hb.log ▸ List.prefix_refl _)
    (hb.clear.tracks.put hhosts C.pooled hmem ⟨rfl, rfl, rfl⟩)
    (fun x _ hne => Tracks.now_put_other hhosts hne) fun _ => Or.inl hready

theorem bounded_of_idle {r : ProvisionReconciler} {s : Store} (hlog : b.log = []) (hstore : b.store = s) :
    Bounded r cluster pool s none b := by
  subst hstore
  exact ⟨hlog, Nat.le_max_left _ _, fun _ _ _ => Iff.rfl, fun _ hh _ _ => hh⟩

/-- The part of a pass that talks to the cluster. -/
theorem bounded_of_enabled (hS : S.Enabled) {cl : Cluster} (hname : cl.name = S.cluster)
    (hstore : b.store = S.start) (hquiet : b.log = []) :
    (S.reconciler.reconcileHosts S.cluster S.pool cl S.np).Stays (handles S.outside)
      (fun _ => True)
      (fun _ b' => ∃ acted, Bounded S.reconciler S.cluster S.pool S.start acted b') b := by
  have hpool : b.db.nodePools[ckey S.cluster S.pool]? = some S.np := by
    show b.store.db.nodePools[_]? = _
    rw [hstore]
    exact hS.stored
  apply (Setting.reconcileHosts_stays hname hstore hquiet hpool).mono fun _ _ => trivial
  rintro (e | ⟨⟩) b' hb
  · rcases hb with ⟨hlog, hstore, -⟩ | ⟨C, rfl, hb⟩
    · exact ⟨none, bounded_of_idle hlog hstore⟩
    · rcases hb with ⟨-, hb⟩ | hb | ⟨h, s₁, hb⟩ | ⟨v, s₁, hb⟩
      · exact ⟨none, bounded_of_midway hb⟩
      · exact ⟨none, bounded_of_midway (midway_of_through hb)⟩
      · exact ⟨some h, bounded_of_staging hS hb⟩
      · exact ⟨some v, bounded_of_releasing hS hb⟩
  · obtain ⟨C, rfl, hb⟩ := hb
    rcases hb with hb | ⟨h, s₁, hb⟩ | ⟨v, s₁, hb⟩
    · exact ⟨none, bounded_of_midway (midway_of_through hb)⟩
    · exact ⟨some h, bounded_of_staging hS hb⟩
    · exact ⟨some v, bounded_of_done hS hb⟩

/-- A pass over hosts of its own cluster. -/
theorem bounded_of_own (o : Outside) (r : ProvisionReconciler) {s : Store} (hs : s.Reachable)
    (hpool : ∀ np, s.db.nodePools[ckey cluster pool]? = some np → Pooled cluster pool s) :
    (r.reconcilePool cluster pool).Ensures (handles o)
      (fun _ b => ∃ acted, Bounded r cluster pool s acted b) ⟨s, hs, []⟩ := by
  apply Program.Stays.ensures (I := fun _ => True)
  refine enabled_stays (b := ⟨s, hs, []⟩) hpool trivial (fun _ => ⟨none, bounded_of_idle rfl rfl⟩) ?_
  rintro S rfl rfl rfl rfl rfl hS cl hname
  exact bounded_of_enabled hS (b := ⟨_, hs, []⟩) hname rfl rfl

end Own

/-! ## Names that clash -/

section Clash

open SolePass

variable {c d mac : String}

/-- A worker that has joined. -/
def joined : NodeInfo := ⟨"n", "10.0.0.2", "worker", "v1.30.0", true⟩

/-- A host of another cluster that is being provisioned. -/
def foreign (d mac : String) : Host := { cluster := d, mac, pool := "p", state := .provisioning }

/-- A host of the cluster, with the same MAC in another pool. -/
def bystander (c mac : String) : Host := { cluster := c, mac, pool := "q", state := .registered }

/-- The cluster has a pool of one host. -/
def shared (c d mac : String) : DB :=
  ((DB.putPool { revision := 1
                 clusters := (∅ : Bucket Cluster).insert c
                   { name := c, provisioningEnabled := true, revision := 1 } }
      { cluster := c, name := "p", role := .worker, replicas := 1 }).putHost
        (foreign d mac)).putHost (bystander c mac)

theorem shared_reachable (hc : c ≠ "") (hd : d ≠ "") (hmac : mac ≠ "") (hne : d ≠ c) :
    ∃ s : Store, s.Reachable ∧ s.db = shared c d mac := by
  have hkey : ckey d mac ≠ ckey c mac := fun heq => hne (ckey_left heq)
  -- four writes, each of a new key
  let b0 : Bench := ⟨{}, ⟨[], trivial, rfl⟩, []⟩
  let cl : Cluster := { name := c, provisioningEnabled := true }
  let np : NodePool := { cluster := c, name := "p", role := .worker, replicas := 1 }
  let b1 := b0.exec (.putClusterDesired cl 0)
  let b2 := b1.exec (.putNodePoolDesired np 0)
  let b3 := b2.exec (.putHostDesired (foreign d mac) 0)
  let b4 := b3.exec (.putHostDesired (bystander c mac) 0)
  have h1 : b1.store.db = b0.store.db.put (.cluster cl) :=
    (exec_desired (d := .cluster cl) hc (Or.inl ⟨rfl, rfl⟩)).2
  have hnew2 : b1.store.db.nodePools[ckey c "p"]? = none := by
    rw [show b1.store.db.nodePools = ∅ from congrArg DB.nodePools h1]
    rfl
  have h2 : b2.store.db = b1.store.db.putPool np :=
    (exec_desired (d := .nodePool np) ⟨hc, (by decide : "p" ≠ "")⟩
      (Or.inl ⟨Option.map_eq_none_iff.2 hnew2, rfl⟩)).2
  have hhosts2 : b2.store.db.hosts = ∅ := by
    rw [h2]
    exact congrArg DB.hosts h1
  have hnew3 : b2.store.db.hosts[ckey d mac]? = none := by
    rw [hhosts2]
    rfl
  have h3 : b3.store.db = b2.store.db.putHost (foreign d mac) :=
    (exec_desired (d := .host (foreign d mac)) ⟨hd, hmac⟩
      (Or.inl ⟨Option.map_eq_none_iff.2 hnew3, rfl⟩)).2
  have hnew4 : b3.store.db.hosts[ckey c mac]? = none := by
    rw [h3]
    refine (Bucket.get_insert _ _ _).trans ((if_neg hkey).trans ?_)
    rw [hhosts2]
    rfl
  have h4 : b4.store.db = b3.store.db.putHost (bystander c mac) :=
    (exec_desired (d := .host (bystander c mac)) ⟨hc, hmac⟩
      (Or.inl ⟨Option.map_eq_none_iff.2 hnew4, rfl⟩)).2
  refine ⟨b4.store, b4.reachable, ?_⟩
  rw [h4, h3, h2]
  exact congrArg (fun db : DB => ((db.putPool np).putHost _).putHost _) h1

section Shared

variable {s : Store} (hs : s.Reachable) (hdb : s.db = shared c d mac) (hne : d ≠ c)
  (hlead : hasPrefix (ckey d mac) (c ++ "\x00") = true)

include hdb

theorem shared_get (k : String) : s.db.hosts[k]? =
    if ckey c mac = k then some { bystander c mac with revision := 4 }
    else if ckey d mac = k then some { foreign d mac with revision := 3 } else none := by
  rw [hdb]
  refine (Bucket.get_insert _ _ _).trans ?_
  congr 1
  exact Bucket.get_insert _ _ _

include hs hne hlead

/-- The host of the other cluster is the one that is listed for the pool. -/
theorem shared_listed : s.listHosts c "p" = [{ foreign d mac with revision := 3 }] := by
  refine List.perm_singleton.1 ((List.perm_ext_iff_of_nodup (nodup_listHosts hs) (by simp)).2 fun h => ?_)
  rw [Store.mem_listHosts, List.mem_singleton]
  constructor
  · rintro ⟨⟨k, hk, -⟩, hpool⟩
    rw [shared_get hdb] at hk
    split_ifs at hk
    · cases hk
      revert hpool
      simp [bystander]
    · cases hk
      rfl
  · rintro rfl
    refine ⟨⟨ckey d mac, ?_, hlead⟩, Or.inr rfl⟩
    rw [shared_get hdb, if_neg fun heq => hne (ckey_left heq).symm, if_pos rfl]

/-- The node that joins is taken for that host, and recorded for the other. -/
theorem shared_changes (r : ProvisionReconciler) (hc : c ≠ "") :
    (r.reconcilePool c "p").Ensures (handles (.steady [joined]))
      (fun _ b => ∃ h, b.db.hosts[ckey c mac]? = some h ∧ h.state = .ready) ⟨s, hs, []⟩ := by
  let b : Bench := ⟨s, hs, []⟩
  have hnp : b.db.nodePools[ckey c "p"]? =
      some { cluster := c, name := "p", role := .worker, replicas := 1, revision := 2 } := by
    show s.db.nodePools[_]? = _
    rw [hdb]
    exact (Bucket.get_insert _ _ _).trans (if_pos rfl)
  have hcl : b.db.clusters[c]? = some { name := c, provisioningEnabled := true, revision := 1 } := by
    show s.db.clusters[_]? = _
    rw [hdb]
    exact (Bucket.get_insert _ _ _).trans (if_pos rfl)
  have hk : b.db.hosts[ckey c mac]? = some { bystander c mac with revision := 4 } :=
    (shared_get hdb _).trans (if_pos rfl)
  apply Program.Stays.ensures (I := fun _ => True)
  apply reconcilePool_stays r trivial
  · exact fun hzero => absurd (hzero _ _ hcl rfl hnp) Nat.one_ne_zero
  intro cl np seen _ _ hnp' _
  cases hnp.symm.trans hnp'
  apply stays_read rfl rfl trivial
  rw [show (StoreOp.exec s (.listHosts c "p")).1 = .ok [{ foreign d mac with revision := 3 }] from
    congrArg Except.ok (shared_listed hs hdb hne hlead)]
  apply stays_outside (by simp) trivial
  rintro rep rfl
  rw [noted_of_idle rfl]
  have hmachines : s.listMachines c "" = [] := by
    refine List.eq_nil_iff_forall_not_mem.2 fun m hm => ?_
    obtain ⟨k, m', hk', -⟩ := Store.mem_listMachines hm
    rw [hdb, show (shared c d mac).machines = ∅ from rfl] at hk'
    cases hk'
  apply Program.Stays.bind (Q := fun rep b' => rep = .ok [] ∧ b' = b)
  · apply stays_read rfl rfl trivial
    rw [show (StoreOp.exec s (.listMachines c "")).1 = .ok [] from congrArg Except.ok hmachines]
    exact ⟨rfl, rfl⟩
  rintro rep b' ⟨rfl, rfl⟩
  -- the only host of the loop is the one of the other cluster
  apply Program.Stays.bind (Q := Ends (fun _ => False) fun count b' => count.ready = 1 ∧
    ∃ h, b'.db.hosts[ckey c mac]? = some h ∧ h.state = .ready)
  · apply Program.Stays.bind (Q := Ends (fun _ => False) fun count b' => count.ready = 1 ∧
      ∃ h, b'.db.hosts[ckey c mac]? = some h ∧ h.state = .ready)
    · have hjoin : newJoinedNode [joined] [] .worker = some joined := by decide
      have hnofail : (Outside.steady [joined]).Fails → False := Outside.not_fails_steady _
      rw [ProvisionReconciler.advanceHost]
      dsimp only [foreign]
      rw [hjoin]
      apply Program.Stays.bind (Q := Ends (fun _ => False) fun _ b' =>
        ∃ h, b'.db.hosts[ckey c mac]? = some h ∧ h.state = .ready)
      · refine bind_stays hc (by decide) hk hnp (fun _ _ => trivial) hnofail
          (fun hf _ _ _ => hnofail hf) ?_
        intro b' np' _ hhosts _ _ _
        have hstored := congrArg (fun hosts : Bucket Host => hosts[ckey c mac]?) hhosts
        exact ⟨_, hstored.trans ((Bucket.get_insert _ _ _).trans (if_pos rfl)), rfl⟩
      · rintro (e | ⟨⟩) b' hb'
        · exact hb'
        · exact ⟨rfl, hb'⟩
    · rintro (e | count) b' hb'
      · exact hb'
      · exact hb'
  · rintro (e | count) b' hb'
    · exact hb'.elim
    · obtain ⟨hready, hchanged⟩ := hb'
      show Program.Stays _ _ _ (r.converge ..) _
      unfold ProvisionReconciler.converge
      rw [hready]
      dsimp only
      rw [if_neg (Nat.lt_irrefl 1), if_neg (Nat.lt_irrefl 1)]
      split_ifs
      · exact hchanged
      · exact hchanged
      · exact hchanged

end Shared

end Clash

/-- All hosts and pools belong to the cluster, or to one of the others. -/
structure Among (cluster : String) (others : String → Prop) (s : Store) : Prop where
  hosts : ∀ (k : String) (h : Host), s.db.hosts[k]? = some h → h.cluster = cluster ∨ others h.cluster
  nodePools : ∀ (k : String) (np : NodePool), s.db.nodePools[k]? = some np →
    np.cluster = cluster ∨ others np.cluster

/-- Neither name leads the other. -/
def Apart (c d : String) : Prop := leads c d = false ∧ leads d c = false

instance (c d : String) : Decidable (Apart c d) := inferInstanceAs (Decidable (_ ∧ _))

section Names

open SolePass

variable {others : String → Prop} {s : Store} (hs : s.Reachable) (hamong : Among cluster others s)
  (hapart : ∀ d, others d → d ≠ "" → d ≠ cluster → Apart cluster d)

include hs hamong hapart

theorem own_of_apart : Own cluster pool s := by
  intro h hh
  obtain ⟨⟨k, hk, hlead⟩, -⟩ := Store.mem_listHosts.1 hh
  by_contra hne
  have hd := (hamong.hosts k h hk).resolve_left hne
  obtain ⟨hcd, hdc⟩ := hapart _ hd (hs.named (DB.entry_of_host hk)).1 hne
  rw [← hs.host_key hk, Isolation.not_hasPrefix (Ne.symm hne) hcd hdc] at hlead
  cases hlead

theorem named_of_apart {np : NodePool} (hnp : s.db.nodePools[ckey cluster pool]? = some np) :
    pool ≠ "" := by
  obtain ⟨hnamed, hname⟩ := hs.named (DB.entry_of_nodePool hnp)
  have hkey := hs.nodePool_key hnp
  by_cases hcluster : np.cluster = cluster
  · rw [hcluster] at hkey
    rwa [← ckey_right hkey]
  · have hd := (hamong.nodePools _ np hnp).resolve_left hcluster
    obtain ⟨hcd, hdc⟩ := hapart _ hd hnamed hcluster
    exact absurd hkey.symm (Isolation.ckey_ne (Ne.symm hcluster) hcd hdc _ _)

end Names

/-- A MAC under which a key of one cluster has the lead of the other. -/
theorem exists_lead {c d : String} (h : ¬Apart c d) :
    ∃ mac, mac ≠ "" ∧ hasPrefix (ckey d mac) (c ++ "\x00") = true := by
  rw [Apart, not_and_or, Bool.not_eq_false, Bool.not_eq_false] at h
  rcases h with hcd | hdc
  · obtain ⟨rest, rfl⟩ := leads_iff.1 hcd
    refine ⟨"m", by decide, ?_⟩
    rw [Isolation.ckey_ckey]
    exact hasPrefix_ckey_self ..
  · obtain ⟨rest, rfl⟩ := leads_iff.1 hdc
    refine ⟨ckey rest "m", ?_, ?_⟩
    · intro heq
      have hlist := congrArg String.toList heq
      simp at hlist
    · rw [← Isolation.ckey_ckey]
      exact hasPrefix_ckey_self ..

end PassBounds

open PassBounds in
/-- One pass is bounded and moves toward the replicas, from every store whose hosts and pools belong to the
cluster or to some others, exactly when no other name leads that of the cluster or is led by it. -/
theorem pass_bounded_iff {cluster : String} (hcluster : cluster ≠ "") (others : String → Prop) :
    (∀ (s : Store) (hs : s.Reachable), Among cluster others s →
      ∀ (o : Outside) (r : ProvisionReconciler) (pool : String),
        (r.reconcilePool cluster pool).Ensures (Bench.handles o)
          (fun _ b => ∃ acted, Bounded r cluster pool s acted b) ⟨s, hs, []⟩) ↔
      ∀ d, others d → d ≠ "" → d ≠ cluster → Apart cluster d := by
  constructor
  · intro hall d hd hnamed hne
    by_contra hclash
    obtain ⟨mac, hmac, hlead⟩ := exists_lead hclash
    obtain ⟨s, hs, hdb⟩ := shared_reachable hcluster hnamed hmac hne
    have hamong : Among cluster others s := by
      refine ⟨?_, ?_⟩
      · intro k h hk
        rw [shared_get hdb] at hk
        split_ifs at hk
        · cases hk
          exact Or.inl rfl
        · cases hk
          exact Or.inr hd
      · intro k np hk
        rw [hdb] at hk
        have hget := (Bucket.get_insert _ _ _).symm.trans hk
        split_ifs at hget
        · cases hget
          exact Or.inl rfl
        · cases hget
    obtain ⟨_, b, ⟨acted, hb⟩, h, hk, hready⟩ :=
      (hall s hs hamong (.steady [joined]) (reconciler cluster "p") "p").meet
        (shared_changes hs hdb hne hlead _ hcluster)
    -- the host in the other pool was to stay
    have hstays := (hb.elsewhere (ckey cluster mac) { bystander cluster mac with revision := 4 }
      (Or.inr (by decide : "q" ≠ "p"))).2 ((shared_get hdb _).trans (if_pos rfl))
    cases hk.symm.trans hstays
    cases hready
  · intro hapart s hs hamong o r pool
    exact bounded_of_own o r hs fun np hnp =>
      ⟨hs, named_of_apart hs hamong hapart hnp, own_of_apart hs hamong hapart⟩

namespace PassBounds

/-- The clusters `a` and `b`, each with a pool and a registered host. -/
def beside : Bench :=
  .after [.putClusterDesired { Scene.cluster with name := "a" } 0,
    .putNodePoolDesired { cluster := "a", name := "p", role := .worker, replicas := 1 } 0,
    .putHostDesired { cluster := "a", mac := "m", pool := "p", state := .registered } 0,
    .putHostDesired { cluster := "b", mac := "n", pool := "p", state := .registered } 0]

theorem beside_among : Among "a" (· = "b") beside.store := by
  have hhosts : ∀ kv ∈ beside.store.db.hosts.toList, kv.2.cluster = "a" ∨ kv.2.cluster = "b" := by
    decide +kernel
  have hpools : ∀ kv ∈ beside.store.db.nodePools.toList, kv.2.cluster = "a" ∨ kv.2.cluster = "b" := by
    decide +kernel
  exact ⟨fun k h hk => hhosts (k, h) (Std.ExtTreeMap.mem_toList_iff_getElem?_eq_some.2 hk),
    fun k np hk => hpools (k, np) (Std.ExtTreeMap.mem_toList_iff_getElem?_eq_some.2 hk)⟩

end PassBounds

open PassBounds in
/-- A pass over a cluster by an ordinary name, beside another one, stages the host of the cluster and is
bounded. -/
theorem plain_pass_bounded : ∃ b : Bench,
    ((Bench.reconciler "a" "p").reconcilePool "a" "p").Yields (Bench.handles (.steady [])) beside
      (.ok ()) b ∧
    (b.db.hosts[ckey "a" "m"]?.map (·.state)) = some .provisioning ∧
    ∃ acted, Bounded (Bench.reconciler "a" "p") "a" "p" beside.store acted b := by
  have hapart : ∀ d, d = "b" → d ≠ "" → d ≠ "a" → PassBounds.Apart "a" d := by
    rintro d rfl _ _
    decide
  have hpass := run_yields [] ((Bench.reconciler "a" "p").reconcilePool "a" "p") beside
  refine ⟨_, hpass, by decide +kernel, ?_⟩
  exact ((pass_bounded_iff (by decide) (· = "b")).2 hapart _ beside.reachable beside_among _ _ "p").yields
    hpass

namespace PassBounds

/-- The clusters `a` and `a\x00b`, each with a registered host by the same MAC. -/
def clashing : Bench :=
  .after [.putClusterDesired { Scene.cluster with name := "a" } 0,
    .putNodePoolDesired { cluster := "a", name := "p", role := .worker, replicas := 1 } 0,
    .putHostDesired { cluster := "a\x00b", mac := "m", pool := "p", state := .registered } 0,
    .putHostDesired (bystander "a" "m") 0]

end PassBounds

open PassBounds in
set_option maxRecDepth 100000 in
/-- A pass over a pool of `a` in which every call succeeds: the host of `a` that it changes is in another
pool, and the host that it has listed, of the cluster `a\x00b`, stays as it is. -/
theorem pass_crosses_pools : ∃ b₀ b : Bench,
    ((Bench.reconciler "a" "p").reconcilePool "a" "p").Yields (Bench.handles (.steady [])) b₀
      (.ok ()) b ∧
    (b₀.store.listHosts "a" "p").map (fun h => (h.cluster, h.state)) = [("a\x00b", .registered)] ∧
    (b.store.listHosts "a" "p").map (fun h => (h.cluster, h.state)) = [("a\x00b", .registered)] ∧
    (b₀.db.hosts[ckey "a" "m"]?.map fun h => (h.pool, h.state)) = some ("q", .registered) ∧
    (b.db.hosts[ckey "a" "m"]?.map fun h => (h.pool, h.state)) = some ("q", .provisioning) := by
  refine ⟨clashing, _, run_yields [] ((reconciler "a" "p").reconcilePool "a" "p") _, ?_⟩
  decide +kernel

end Medea
