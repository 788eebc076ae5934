import Medea.ControlPlane.Bench

/-!
# The loop over the hosts of a pool

A provisioning pass lists the hosts of the pool once and then works from that list. `Tracks` compares the
hosts of a later store with the list, `Fate` says what the loop has made of one of them, and
`Course.advanceHosts_stays` says what the loop leaves: every host has met its fate, and the counters
count the hosts as they are stored then.
-/

set_option autoImplicit false

namespace Medea

open Medea.Interaction

/-! ## The hosts of a pool, from the listing on -/

namespace SolePass

variable {cluster pool : String} {s : Store}

/-- The hosts that are listed for the pool belong to the cluster. -/
def Own (cluster pool : String) (s : Store) : Prop := ∀ h ∈ s.listHosts cluster pool, h.cluster = cluster

/-- A pool with a name, whose hosts belong to the cluster. -/
structure Pooled (cluster pool : String) (s : Store) : Prop where
  reachable : s.Reachable
  named : pool ≠ ""
  own : Own cluster pool s

namespace Pooled

variable (hs : Pooled cluster pool s) {h h' : Host}

include hs

theorem mem_iff : h ∈ s.listHosts cluster pool ↔
    s.db.hosts[ckey cluster h.mac]? = some h ∧ h.cluster = cluster ∧ h.pool = pool := by
  constructor
  · intro hm
    have hcluster := hs.own h hm
    obtain ⟨⟨k, hk, -⟩, hpool⟩ := Store.mem_listHosts.1 hm
    refine ⟨?_, hcluster, hpool.resolve_left hs.named⟩
    rw [← hcluster, hs.reachable.host_key hk]
    exact hk
  · rintro ⟨hk, -, hpool⟩
    exact Store.mem_listHosts.2 ⟨⟨_, hk, hasPrefix_ckey_self cluster h.mac⟩, Or.inr hpool⟩

theorem eq_of_mac (hm : h ∈ s.listHosts cluster pool) (hm' : h' ∈ s.listHosts cluster pool)
    (hmac : h.mac = h'.mac) : h = h' := by
  have hk := (hs.mem_iff.1 hm).1
  rw [hmac, (hs.mem_iff.1 hm').1] at hk
  exact (Option.some.inj hk).symm

theorem apart : (s.listHosts cluster pool).Pairwise fun h h' => h.mac ≠ h'.mac := by
  refine (nodup_listHosts hs.reachable).imp_of_mem ?_
  intro h h' hm hm' hne hmac
  exact hne (hs.eq_of_mac hm hm' hmac)

end Pooled

/-- The host as it is stored now. -/
def now (cluster : String) (db : DB) (h : Host) : Host := db.hosts[ckey cluster h.mac]?.getD h

/-- The same names and pool. -/
structure SameHost (h h' : Host) : Prop where
  cluster : h'.cluster = h.cluster
  mac : h'.mac = h.mac
  pool : h'.pool = h.pool

/-- The hosts of the listing are there, and all others are as they were. -/
structure Tracks (cluster pool : String) (s : Store) (db : DB) : Prop where
  listed : ∀ h ∈ s.listHosts cluster pool, db.hosts[ckey cluster h.mac]? = some (now cluster db h) ∧
    SameHost h (now cluster db h)
  others : ∀ k, (∀ h ∈ s.listHosts cluster pool, k ≠ ckey cluster h.mac) →
    db.hosts[k]? = s.db.hosts[k]?

theorem now_of_get {db : DB} {h h' : Host} (hk : db.hosts[ckey cluster h.mac]? = some h') :
    now cluster db h = h' := by
  rw [now, hk]
  rfl

theorem now_congr {db db' : DB} (h : Host) (hdb : db'.hosts = db.hosts) :
    now cluster db' h = now cluster db h := by
  rw [now, now, hdb]

theorem tracks_self (hs : Pooled cluster pool s) : Tracks cluster pool s s.db where
  listed h hm := by
    have hk := (hs.mem_iff.1 hm).1
    rw [now_of_get hk]
    exact ⟨hk, rfl, rfl, rfl⟩
  others _ _ := rfl

/-- A host of the listing is put under its key. -/
theorem putHost_insert {h h' : Host} (hs : Pooled cluster pool s) (hm : h ∈ s.listHosts cluster pool)
    (hsame : SameHost h h') (db : DB) : (db.putHost h').hosts =
      db.hosts.insert (ckey cluster h.mac) { h' with revision := db.revision + 1 } := by
  rw [DB.putHost, hsame.cluster, hsame.mac, (hs.mem_iff.1 hm).2.1]

namespace Tracks

variable {db db' : DB}

theorem congr (ht : Tracks cluster pool s db) (hdb : db'.hosts = db.hosts) :
    Tracks cluster pool s db' where
  listed h hm := by
    rw [now_congr h hdb, hdb]
    exact ht.listed h hm
  others k hk := by
    rw [hdb]
    exact ht.others k hk

section Put

variable {h h' : Host} (hput : db'.hosts = db.hosts.insert (ckey cluster h.mac) h')

include hput

theorem get_put (k : String) :
    db'.hosts[k]? = if ckey cluster h.mac = k then some h' else db.hosts[k]? := by
  rw [hput, Bucket.get_insert]

/-- The host that was put. -/
theorem now_put : now cluster db' h = h' := now_of_get ((get_put hput _).trans (if_pos rfl))

/-- The other hosts of the listing are as they were. -/
theorem now_put_other {x : Host} (hne : x.mac ≠ h.mac) :
    now cluster db' x = now cluster db x := by
  have hget := get_put hput (ckey cluster x.mac)
  rw [if_neg fun heq => hne (ckey_right heq).symm] at hget
  rw [now, now, hget]

theorem put (hs : Pooled cluster pool s) (hm : h ∈ s.listHosts cluster pool) (hsame : SameHost h h')
    (ht : Tracks cluster pool s db) : Tracks cluster pool s db' where
  listed x hx := by
    by_cases hmac : x.mac = h.mac
    · obtain rfl := hs.eq_of_mac hx hm hmac
      rw [now_put hput]
      exact ⟨(get_put hput _).trans (if_pos rfl), hsame⟩
    · rw [now_put_other hput hmac]
      refine ⟨?_, (ht.listed x hx).2⟩
      rw [get_put hput, if_neg fun heq => hmac (ckey_right heq).symm]
      exact (ht.listed x hx).1
  others k hk := by
    rw [get_put hput, if_neg (hk h hm).symm]
    exact ht.others k hk

end Put

variable {s' : Store}

/-- The pool is listed as the same hosts, as they are now. -/
theorem listed_perm (hs : Pooled cluster pool s) (hs' : s'.Reachable)
    (ht : Tracks cluster pool s s'.db) :
    (s'.listHosts cluster pool).Perm ((s.listHosts cluster pool).map (now cluster s'.db)) := by
  refine (List.perm_ext_iff_of_nodup (nodup_listHosts hs') ?_).2 ?_
  · refine List.Nodup.map_on ?_ (nodup_listHosts hs.reachable)
    intro x hx y hy heq
    refine hs.eq_of_mac hx hy ?_
    rw [← (ht.listed x hx).2.mac, heq, (ht.listed y hy).2.mac]
  · intro x
    rw [List.mem_map, Store.mem_listHosts]
    constructor
    · rintro ⟨⟨k, hk, hlead⟩, hpool⟩
      by_cases hlisted : ∃ h ∈ s.listHosts cluster pool, k = ckey cluster h.mac
      · obtain ⟨h, hh, rfl⟩ := hlisted
        exact ⟨h, hh, now_of_get hk⟩
      · -- under another key it was there before, and would have been listed
        have hother : ∀ h ∈ s.listHosts cluster pool, k ≠ ckey cluster h.mac :=
          fun h hh heq => hlisted ⟨h, hh, heq⟩
        rw [ht.others k hother] at hk
        have hm : x ∈ s.listHosts cluster pool := Store.mem_listHosts.2 ⟨⟨k, hk, hlead⟩, hpool⟩
        refine absurd ?_ (hother x hm)
        rw [← hs.own x hm, hs.reachable.host_key hk]
    · rintro ⟨h, hh, rfl⟩
      obtain ⟨hk, hsame⟩ := ht.listed h hh
      refine ⟨⟨_, hk, hasPrefix_ckey_self cluster h.mac⟩, Or.inr ?_⟩
      rw [hsame.pool, (hs.mem_iff.1 hh).2.2]

/-- Hosts of other pools and clusters are as they were. -/
theorem elsewhere (hs : Pooled cluster pool s) (ht : Tracks cluster pool s db) {k : String} {h : Host}
    (hother : h.cluster ≠ cluster ∨ h.pool ≠ pool) : db.hosts[k]? = some h ↔ s.db.hosts[k]? = some h := by
  by_cases hlisted : ∃ x ∈ s.listHosts cluster pool, k = ckey cluster x.mac
  · obtain ⟨x, hx, rfl⟩ := hlisted
    obtain ⟨hstored, hcluster, hpool⟩ := hs.mem_iff.1 hx
    obtain ⟨hnow, hsame⟩ := ht.listed x hx
    rw [hnow, hstored]
    constructor
    · intro heq
      cases heq
      rw [hsame.cluster, hsame.pool, hcluster, hpool] at hother
      simp at hother
    · intro heq
      cases heq
      rw [hcluster, hpool] at hother
      simp at hother
  · rw [ht.others k fun x hx heq => hlisted ⟨x, hx, heq⟩]

end Tracks

/-! ## What becomes of a host in the loop -/

/-- When the provisioning of a host has begun, if a valid time is recorded. -/
def started (h : Host) : Option Int :=
  if h.provisioningStartedAt = "" then none else parseRFC3339 h.provisioningStartedAt

/-- What the loop over the hosts has made of a host: it was not in flight, a node that nobody has claimed
was taken for it, it was given up, or it is still awaited. -/
inductive Fate (o : Outside) (r : ProvisionReconciler) (np : NodePool) (nodes : List NodeInfo)
    (claims : List String) (h : Host) : Host → Prop
  | settled : h.state ≠ .provisioning → Fate o r np nodes claims h h
  | joined (n : NodeInfo) (rev : Nat) : h.state = .provisioning →
      newJoinedNode nodes claims np.role ≠ none → Fate o r np nodes claims h
        { h with addr := n.internalIP, state := .ready, message := "", revision := rev }
  | expired (rev : Nat) : h.state = .provisioning → Fate o r np nodes claims h
      { h with
        state := .failed, message := "provision timed out: node did not join", revision := rev }
  | waiting : h.state = .provisioning →
      (∀ t₀, started h = some t₀ → ∃ t : Nat, o.allows ⟨.now, t⟩ ∧ (t : Int) - t₀ ≤ r.provisionTimeout) →
      Fate o r np nodes claims h h

/-- READY or PROVISIONING. -/
def Active (h : Host) : Prop := h.state = .ready ∨ h.state = .provisioning

instance : DecidablePred Active := fun h => inferInstanceAs (Decidable (h.state = .ready ∨ _))

section Fate

variable {o : Outside} {r : ProvisionReconciler} {np : NodePool} {nodes : List NodeInfo}
  {claims : List String} {h h' : Host}

theorem Fate.of_settled (hf : Fate o r np nodes claims h h') (hst : h.state ≠ .provisioning) :
    h' = h := by
  cases hf with
  | settled => rfl
  | joined n rev hp | expired rev hp | waiting hp => exact absurd hp hst

/-- The loop makes no host READY or PROVISIONING that was neither. -/
theorem Fate.active (hf : Fate o r np nodes claims h h') (hactive : Active h') : Active h := by
  cases hf with
  | settled | waiting => exact hactive
  | joined n rev hp | expired rev hp => exact Or.inr hp

/-- With more addresses claimed there are fewer nodes to take. -/
theorem newJoinedNode_mono {claimed : List String} {role : Role} {n : NodeInfo}
    (hsub : claims ⊆ claimed) (hn : newJoinedNode nodes claimed role = some n) :
    newJoinedNode nodes claims role ≠ none := by
  intro hnone
  have hp := List.find?_some hn
  have hmem := List.mem_of_find?_eq_some hn
  refine List.find?_eq_none.1 hnone n hmem ?_
  simp only [Bool.and_eq_true, Bool.not_eq_true', List.contains_eq_mem, decide_eq_false_iff_not] at hp ⊢
  exact ⟨⟨hp.1.1, fun hin => hp.1.2 (hsub hin)⟩, hp.2⟩

end Fate

/-- A loop over hosts that are not in flight only counts them. -/
theorem advanceHosts_settled (r : ProvisionReconciler) (cluster pool : String) (np : NodePool)
    (nodes : List NodeInfo) {hosts : List Host} (hsettled : ∀ h ∈ hosts, h.state ≠ .provisioning)
    (count : HostCount) : r.advanceHosts cluster pool np nodes hosts count =
      .done (.ok (hosts.foldl HostCount.passed count)) := by
  induction hosts generalizing count with
  | nil => rfl
  | cons h hosts ih =>
    have hone : r.advanceHost cluster pool np nodes count h = .done (.ok (count.passed h)) := by
      have hst := hsettled h List.mem_cons_self
      rw [ProvisionReconciler.advanceHost, HostCount.passed]
      cases hs : h.state with
      | provisioning => exact absurd hs hst
      | _ => rfl
    rw [ProvisionReconciler.advanceHosts, hone, List.foldl_cons]
    exact ih (fun x hx => hsettled x (List.mem_cons_of_mem _ hx)) (count.passed h)

/-! ## Counting -/

section Counting

variable {L : List Host}

theorem countP_active (L : List Host) : L.countP (·.state = .ready) + L.countP (·.state = .provisioning) =
    L.countP (fun h => Active h) := by
  induction L with
  | nil => rfl
  | cons h L ih =>
    rw [List.countP_cons, List.countP_cons, List.countP_cons, ← ih]
    cases hst : h.state <;> simp [Active, hst] <;> omega

/-- Only one host has a given MAC. -/
theorem countP_le_succ (hL : L.Pairwise fun h h' => h.mac ≠ h'.mac) {P P' : Host → Prop}
    [DecidablePred P] [DecidablePred P'] (mac : String)
    (h : ∀ x ∈ L, P x → P' x ∨ x.mac = mac) : L.countP (fun x => P x) ≤ L.countP (fun x => P' x) + 1 := by
  induction L with
  | nil => simp
  | cons x L ih =>
    obtain ⟨hx, hL⟩ := List.pairwise_cons.1 hL
    by_cases hmac : x.mac = mac
    · -- the others have other MACs
      have hrest : L.countP (fun y => P y) ≤ L.countP (fun y => P' y) := by
        refine List.countP_mono_left fun y hy hPy => ?_
        rcases h y (List.mem_cons_of_mem _ hy) (by simpa using hPy) with hQ | hm
        · simpa using hQ
        · exact absurd (hmac.trans hm.symm) (hx y hy)
      rw [List.countP_cons, List.countP_cons]
      split <;> split <;> omega
    · have hrest := ih hL fun y hy => h y (List.mem_cons_of_mem _ hy)
      have hhead : P x → P' x := fun hPx => (h x List.mem_cons_self hPx).resolve_right hmac
      rw [List.countP_cons, List.countP_cons]
      by_cases hPx : P x
      · simp only [hPx, hhead hPx, decide_true, if_true]
        omega
      · simp only [hPx, decide_false, Bool.false_eq_true, if_false]
        omega

end Counting

/-- The buckets that no pass writes. -/
def beside (db : DB) : Bucket Cluster × Bucket ClusterRollout × Bucket MachineRollout ×
    Bucket Rollout × Bucket ClusterBootstrap :=
  (db.clusters, db.clusterRollouts, db.machineRollouts, db.jobs, db.bootstraps)

/-! ## Binding a node -/

section Bind

open ProvisionReconciler Bench

variable {o : Outside} {I E D : Bench → Prop} {b : Bench} {mac : String}

/-- The machine under a key, or else a new one, can be put there at the revision that was read. -/
theorem machine_expected (hs : s.Reachable) {addr : String} (hcluster : cluster ≠ "") (haddr : addr ≠ "")
    (new : Machine) (hnew : new.cluster = cluster ∧ new.talosEndpoint = addr) :
    let m := (s.getMachine cluster addr).1.getD new
    (m.cluster ≠ "" ∧ m.talosEndpoint ≠ "") ∧
      s.Expects (.machine, ckey m.cluster m.talosEndpoint) (s.getMachine cluster addr).2 := by
  cases hk : s.db.machines[ckey cluster addr]? with
  | none =>
    have hread : s.getMachine cluster addr = (none, 0) := by rw [Store.getMachine, hk]
    rw [hread]
    obtain ⟨rfl, rfl⟩ := hnew
    exact ⟨⟨hcluster, haddr⟩, Or.inl ⟨Option.map_eq_none_iff.2 hk, rfl⟩⟩
  | some m =>
    have hread : s.getMachine cluster addr =
        (some { m with observed := s.obsMachine[cluster ++ "\x00" ++ addr]? }, m.revision) := by
      rw [Store.getMachine, hk]
    rw [hread]
    have hnamed := hs.named (DB.entry_of_machine hk)
    refine ⟨hnamed, Or.inr ⟨.machine m, ?_⟩⟩
    show s.db.entry (.machine, ckey m.cluster m.talosEndpoint) = some (m.revision, .machine m)
    rw [hs.machine_key hk]
    exact DB.entry_of_machine hk

theorem bind_stays {h : Host} {n : NodeInfo} {role : Role} {np : NodePool} (hcluster : cluster ≠ "")
    (haddr : n.internalIP ≠ "") (hk : b.db.hosts[ckey cluster mac]? = some h)
    (hpool : b.db.nodePools[ckey cluster pool]? = some np) (hI : ∀ b' : Bench, b'.log = b.log → I b')
    (hE0 : o.Fails → E b)
    (hE : o.Fails → ∀ b' : Bench, b'.log = b.log → b'.db.hosts = (b.db.putHost
      { h with addr := n.internalIP, state := .ready, message := "" }).hosts → E b')
    (hD : ∀ (b' : Bench) (np' : NodePool), b'.log = b.log → b'.db.hosts = (b.db.putHost
      { h with addr := n.internalIP, state := .ready, message := "" }).hosts →
      b'.db.nodePools[ckey cluster pool]? = some np' → np'.replicas = np.replicas →
      beside b'.db = beside b.db → D b') :
    (ProvisionReconciler.bind cluster pool mac n role).Stays (handles o) I (Ends E fun _ => D) b := by
  unfold ProvisionReconciler.bind
  -- once the host is written, only the pools and the machines change
  apply Program.Stays.bind (Q := Ends E fun _ b' => b'.log = b.log ∧ b'.db.hosts = (b.db.putHost
      { h with addr := n.internalIP, state := .ready, message := "" }).hosts ∧
      b'.db.nodePools = b.db.nodePools ∧ beside b'.db = beside b.db)
  · apply editHost_stays hk ⟨rfl, rfl⟩ (hI b rfl) hE0
    intro b' hdb hlog
    rw [hdb]
    exact ⟨hlog, rfl, rfl, rfl⟩
  rintro (e | ⟨⟩) b1 h1
  · exact h1
  obtain ⟨hlog1, hhosts1, hpools1, hbeside1⟩ := h1
  apply stays_read rfl rfl (hI b1 hlog1)
  obtain ⟨hid, hexp⟩ := machine_expected b1.reachable hcluster haddr
    { cluster, pool, talosEndpoint := n.internalIP, role } ⟨rfl, rfl⟩
  obtain ⟨hok, hdb⟩ := exec_desired (d := .machine (_ : Machine)) hid hexp
  refine stays_write hok (hI b1 hlog1) ?_ ?_
  on_goal 2 => exact fun hf _ => hE hf b1 hlog1 hhosts1
  intro b2 hb2 hlog2
  have hdb2 : b2.db = b1.db.putMachine _ := hb2.trans hdb
  have hlog := hlog2.trans hlog1
  have hhosts : b2.db.hosts = _ := (congrArg DB.hosts hdb2).trans hhosts1
  have hpool2 : b2.db.nodePools[ckey cluster pool]? = some np := by
    rw [hdb2]
    show b1.db.nodePools[ckey cluster pool]? = some np
    rw [hpools1]
    exact hpool
  have hbeside : beside b2.db = beside b.db := (congrArg beside hdb2).trans hbeside1
  apply editPool_stays hpool2 ?_ (hI b2 hlog)
  · exact fun hf => hE hf b2 hlog hhosts
  · exact fun _ => hD b2 np hlog hhosts hpool2 rfl hbeside
  · intro np' b3 hedit hdb3 hlog3
    split_ifs at hedit
    cases hedit
    obtain ⟨np', hpool3, hreplicas⟩ : ∃ np', b3.db.nodePools[ckey cluster pool]? = some np' ∧
        np'.replicas = np.replicas := by
      rw [hdb3, DB.putPool, Bucket.get_insert, if_pos (b2.reachable.nodePool_key hpool2)]
      exact ⟨_, rfl, rfl⟩
    exact hD b3 np' (hlog3.trans hlog) ((congrArg DB.hosts hdb3).trans hhosts) hpool3 hreplicas
      ((congrArg beside hdb3).trans hbeside)
  · intro np' hedit
    split_ifs at hedit
    cases hedit
    exact ⟨rfl, rfl⟩

end Bind

/-! ## The loop over the hosts -/

/-- What a pass over a pool starts with: the store, and the pool as it was read. -/
structure Setting where
  outside : Outside
  reconciler : ProvisionReconciler
  cluster : String
  pool : String
  start : Store
  np : NodePool
  pooled : Pooled cluster pool start
  named : cluster ≠ ""

namespace Setting

variable (S : Setting)

/-- The listing. -/
def hosts : List Host := S.start.listHosts S.cluster S.pool

/-- The addresses that are claimed before the loop. -/
def claims : List String :=
  (S.start.listMachines S.cluster "").map (·.talosEndpoint) ++ (S.hosts.map (·.addr)).filter (· != "")

/-- The host as it is now. -/
def cur (db : DB) (h : Host) : Host := now S.cluster db h

end Setting

/-- A pass that has listed the nodes of the cluster. -/
structure Course extends Setting where
  nodes : List NodeInfo
  listed : outside.allows ⟨.kube reconciler.client "" .listNodes, .ok nodes⟩

namespace Course

variable (C : Course)

def Fated (h h' : Host) : Prop := Fate C.outside C.reconciler C.np C.nodes C.claims h h'

/-- What the loop leaves alone: the buckets beside, and the replicas of the pool. -/
structure Around (db : DB) : Prop where
  pool : ∃ np, db.nodePools[ckey C.cluster C.pool]? = some np ∧ np.replicas = C.np.replicas
  beside : beside db = beside C.start.db

/-- In the loop, or where it was given up: some hosts have met their fate. -/
structure Midway (b : Bench) : Prop where
  quiet : b.log = []
  tracks : Tracks C.cluster C.pool C.start b.db
  fates : ∀ h ∈ C.hosts, C.cur b.db h = h ∨ C.Fated h (C.cur b.db h)

/-- Between two hosts of the loop: those done, those to come, and what was counted. -/
structure Between (done todo : List Host) (count : HostCount) (b : Bench) : Prop where
  split : C.hosts = done ++ todo
  quiet : b.log = []
  around : C.Around b.db
  tracks : Tracks C.cluster C.pool C.start b.db
  fates : ∀ h ∈ done, C.Fated h (C.cur b.db h)
  still : ∀ h ∈ todo, C.cur b.db h = h
  claimed : C.claims ⊆ count.claimed
  inflight : count.inflight = (done.map (C.cur b.db)).countP (·.state = .provisioning)
  ready : count.ready = (done.map (C.cur b.db)).countP (·.state = .ready)
  failed : count.failed = (done.map (C.cur b.db)).countP (·.state = .failed)

variable {C} {done todo : List Host} {count count' : HostCount} {b b' : Bench} {h : Host}

theorem Between.midway (hb : C.Between done todo count b) : C.Midway b where
  quiet := hb.quiet
  tracks := hb.tracks
  fates h hh := by
    rw [hb.split, List.mem_append] at hh
    rcases hh with hd | ht
    · exact Or.inr (hb.fates h hd)
    · exact Or.inl (hb.still h ht)

section Next

variable (hb : C.Between done (h :: todo) count b)

include hb

theorem Between.mem : h ∈ C.hosts := by
  rw [hb.split]
  exact List.mem_append_right _ List.mem_cons_self

theorem Between.stored : b.db.hosts[ckey C.cluster h.mac]? = some h := by
  have hlisted := (hb.tracks.listed h hb.mem).1
  have hstill : now C.cluster b.db h = h := hb.still h List.mem_cons_self
  rw [hlisted, hstill]

theorem Between.mac_ne {x : Host} (hx : x ∈ done ++ todo) : x.mac ≠ h.mac := by
  have hapart := C.pooled.apart
  rw [show C.start.listHosts C.cluster C.pool = done ++ h :: todo from hb.split,
    List.pairwise_append, List.pairwise_cons] at hapart
  rcases List.mem_append.1 hx with hd | ht
  · exact hapart.2.2 x hd h List.mem_cons_self
  · exact (hapart.2.1.1 x ht).symm

/-- One host more is done. -/
theorem Between.next (hquiet : b'.log = [])
    (haround : C.Around b'.db)
    (htracks : Tracks C.cluster C.pool C.start b'.db)
    (hrest : ∀ x : Host, x.mac ≠ h.mac → C.cur b'.db x = C.cur b.db x)
    (hfate : C.Fated h (C.cur b'.db h)) (hclaimed : count.claimed ⊆ count'.claimed)
    (hinflight : count'.inflight =
      count.inflight + if (C.cur b'.db h).state = .provisioning then 1 else 0)
    (hready : count'.ready = count.ready + if (C.cur b'.db h).state = .ready then 1 else 0)
    (hfailed : count'.failed = count.failed + if (C.cur b'.db h).state = .failed then 1 else 0) :
    C.Between (done ++ [h]) todo count' b' := by
  have hsame : ∀ x ∈ done ++ todo, C.cur b'.db x = C.cur b.db x :=
    fun x hx => hrest x (hb.mac_ne hx)
  have hdone : done.map (C.cur b'.db) = done.map (C.cur b.db) :=
    List.map_congr_left fun x hx => hsame x (List.mem_append_left _ hx)
  refine { split := ?_, quiet := hquiet, around := haround, tracks := htracks, fates := ?_,
           still := ?_, claimed := List.Subset.trans hb.claimed hclaimed, inflight := ?_, ready := ?_,
           failed := ?_ }
  · rw [hb.split, List.append_assoc, List.singleton_append]
  · intro x hx
    rcases List.mem_append.1 hx with hd | ht
    · rw [hsame x (List.mem_append_left _ hd)]
      exact hb.fates x hd
    · obtain rfl := List.mem_singleton.1 ht
      exact hfate
  · intro x hx
    rw [hsame x (List.mem_append_right _ hx)]
    exact hb.still x (List.mem_cons_of_mem _ hx)
  · rw [List.map_append, List.countP_append, hdone, ← hb.inflight, hinflight]
    simp [List.countP_cons]
  · rw [List.map_append, List.countP_append, hdone, ← hb.ready, hready]
    simp [List.countP_cons]
  · rw [List.map_append, List.countP_append, hdone, ← hb.failed, hfailed]
    simp [List.countP_cons]

/-- The host stays as it is. -/
theorem Between.pass (hfate : C.Fated h h) (hclaimed : count'.claimed = count.claimed)
    (hinflight : count'.inflight = count.inflight + if h.state = .provisioning then 1 else 0)
    (hready : count'.ready = count.ready + if h.state = .ready then 1 else 0)
    (hfailed : count'.failed = count.failed + if h.state = .failed then 1 else 0) :
    C.Between (done ++ [h]) todo count' b := by
  have hstill : C.cur b.db h = h := hb.still h List.mem_cons_self
  apply hb.next hb.quiet hb.around hb.tracks (fun _ _ => rfl)
  · rwa [hstill]
  · rw [hclaimed]
    exact List.Subset.refl _
  · rwa [hstill]
  · rwa [hstill]
  · rwa [hstill]

theorem Between.skip (hst : h.state ≠ .provisioning) :
    C.Between (done ++ [h]) todo (count.passed h) b := by
  apply hb.pass (.settled hst)
  · cases hs : h.state <;> simp [HostCount.passed, hs]
  · cases hs : h.state <;> simp_all [HostCount.passed]
  · cases hs : h.state <;> simp [HostCount.passed, hs]
  · cases hs : h.state <;> simp [HostCount.passed, hs]

/-- A record is put for the host; the others stay. -/
theorem Between.put (h' : Host) (hsame : SameHost h h')
    (hfate : C.Fated h { h' with revision := b.db.revision + 1 }) (hlog : b'.log = b.log)
    (hhosts : b'.db.hosts = (b.db.putHost h').hosts) :
    C.Midway b' ∧ C.cur b'.db h = { h' with revision := b.db.revision + 1 } ∧
      ∀ x : Host, x.mac ≠ h.mac → C.cur b'.db x = C.cur b.db x := by
  have hput := hhosts.trans (putHost_insert C.pooled hb.mem hsame b.db)
  have hcur : C.cur b'.db h = { h' with revision := b.db.revision + 1 } := Tracks.now_put hput
  have hrest : ∀ x : Host, x.mac ≠ h.mac → C.cur b'.db x = C.cur b.db x :=
    fun x hx => Tracks.now_put_other hput hx
  have htracks : Tracks C.cluster C.pool C.start b'.db :=
    Tracks.put hput C.pooled hb.mem ⟨hsame.cluster, hsame.mac, hsame.pool⟩ hb.tracks
  refine ⟨⟨hlog.trans hb.quiet, htracks, ?_⟩, hcur, hrest⟩
  intro x hx
  by_cases hmac : x.mac = h.mac
  · obtain rfl := C.pooled.eq_of_mac hx hb.mem hmac
    rw [hcur]
    exact Or.inr hfate
  · rw [hrest x hmac]
    exact hb.midway.fates x hx

end Next

section Loop

open ProvisionReconciler Bench

variable {I : Bench → Prop} (hI : ∀ b : Bench, b.log = [] → I b)

include hI

theorem timedOut_stays (r : ProvisionReconciler) (h : Host) (hquiet : b.log = []) :
    (r.timedOut h).Stays (handles C.outside) I (fun late b' => b' = b ∧
      (late = false → ∀ t0, started h = some t0 → ∃ t : Nat, C.outside.allows ⟨.now, t⟩ ∧
        (t : Int) - t0 ≤ r.provisionTimeout)) b := by
  rw [ProvisionReconciler.timedOut, ← started]
  cases hstart : started h with
  | none =>
    refine ⟨rfl, fun _ t0 ht0 => ?_⟩
    cases ht0
  | some t1 =>
    refine stays_outside (by simp) (hI b hquiet) ?_
    intro t ht
    rw [noted_of_idle rfl]
    refine ⟨rfl, fun hlate t0 ht0 => ?_⟩
    cases ht0
    refine ⟨t, ht, ?_⟩
    have hle := of_decide_eq_false hlate
    omega

/-- One host of the loop. -/
theorem advanceHost_stays (hb : C.Between done (h :: todo) count b) :
    (C.reconciler.advanceHost C.cluster C.pool C.np C.nodes count h).Stays (handles C.outside) I
      (Ends (fun b' => C.outside.Fails ∧ C.Midway b')
        fun count' => C.Between (done ++ [h]) todo count') b := by
  have hquiet : ∀ b' : Bench, b'.log = b.log → I b' := fun b' hlog => hI b' (hlog.trans hb.quiet)
  have hskip : h.state ≠ .provisioning →
      (Program.done (.ok (count.passed h)) : Prog (Except String HostCount)).Stays (handles C.outside) I
        (Ends (fun b' => C.outside.Fails ∧ C.Midway b')
          fun count' => C.Between (done ++ [h]) todo count') b := hb.skip
  obtain ⟨np, hpool, hreplicas⟩ := hb.around.pool
  rw [advanceHost]
  cases hst : h.state with
  | ready | failed | unspecified | registered | allocated | deprovisioning =>
    simp only [HostCount.passed, hst] at hskip
    exact hskip (by simp)
  | provisioning =>
    dsimp only
    cases hn : newJoinedNode C.nodes count.claimed C.np.role with
    | some n =>
      let h' : Host := { h with addr := n.internalIP, state := .ready, message := "" }
      have hfate : C.Fated h { h' with revision := b.db.revision + 1 } :=
        .joined n _ hst (newJoinedNode_mono hb.claimed hn)
      apply Program.Stays.bind (Q := Ends (fun b' => C.outside.Fails ∧ C.Midway b')
        fun _ => C.Between (done ++ [h]) todo (count.bound n))
      · apply bind_stays C.named (newJoinedNode_some hn).2.1 hb.stored hpool hquiet
        · exact fun hf => ⟨hf, hb.midway⟩
        · exact fun hf b' hlog hhosts => ⟨hf, (hb.put h' ⟨rfl, rfl, rfl⟩ hfate hlog hhosts).1⟩
        · intro b' np' hlog hhosts hpool' hreplicas' hbeside
          obtain ⟨hmid, hcur, hrest⟩ := hb.put h' ⟨rfl, rfl, rfl⟩ hfate hlog hhosts
          have haround : C.Around b'.db :=
            ⟨⟨np', hpool', hreplicas'.trans hreplicas⟩, hbeside.trans hb.around.beside⟩
          apply hb.next hmid.quiet haround hmid.tracks hrest
          · rwa [hcur]
          · exact List.subset_cons_self _ _
          · simp [hcur, h', HostCount.bound]
          · simp [hcur, h', HostCount.bound]
          · simp [hcur, h', HostCount.bound]
      · rintro (e | ⟨⟩) b' hb'
        · exact hb'
        · exact hb'
    | none =>
      apply (timedOut_stays hI C.reconciler h hb.quiet).bind
      rintro late b' ⟨rfl, hlate⟩
      cases late with
      | false =>
        show C.Between _ _ { count with inflight := count.inflight + 1 } _
        apply hb.pass (.waiting hst (hlate rfl))
        · rfl
        · simp [hst]
        · simp [hst]
        · simp [hst]
      | true =>
        let h' : Host := { h with
          state := .failed, message := "provision timed out: node did not join" }
        have hfate : C.Fated h { h' with revision := b'.db.revision + 1 } := .expired _ hst
        apply Program.Stays.bind (Q := Ends (fun b' => C.outside.Fails ∧ C.Midway b')
          fun _ => C.Between (done ++ [h]) todo { count with failed := count.failed + 1 })
        · apply editHost_stays hb.stored ⟨rfl, rfl⟩ (hquiet _ rfl)
          · exact fun hf => ⟨hf, hb.midway⟩
          · intro b1 hdb hlog
            obtain ⟨hmid, hcur, hrest⟩ :=
              hb.put h' ⟨rfl, rfl, rfl⟩ hfate hlog (congrArg DB.hosts hdb)
            have haround : C.Around b1.db := by
              rw [hdb]
              exact ⟨⟨np, hpool, hreplicas⟩, hb.around.beside⟩
            refine hb.next hmid.quiet haround hmid.tracks hrest ?_ (List.Subset.refl _) ?_ ?_ ?_
            · rwa [hcur]
            · simp [hcur, h']
            · simp [hcur, h']
            · simp [hcur, h']
        · rintro (e | ⟨⟩) b' hb'
          · exact hb'
          · exact hb'

/-- The whole loop. -/
theorem advanceHosts_stays (hb : C.Between done todo count b) :
    (C.reconciler.advanceHosts C.cluster C.pool C.np C.nodes todo count).Stays (handles C.outside) I
      (Ends (fun b' => C.outside.Fails ∧ C.Midway b') fun count' => C.Between C.hosts [] count') b := by
  induction todo generalizing done count b with
  | nil =>
    have hall : C.hosts = done := by rw [hb.split, List.append_nil]
    rw [hall]
    exact hb
  | cons h todo ih =>
    apply (advanceHost_stays hI hb).bind
    rintro (e | count') b' hb'
    · exact hb'
    · exact ih hb'

end Loop

end Course

end SolePass

end Medea
