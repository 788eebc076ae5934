import Medea.ControlPlane.HostLoop

/-!
# A provisioning pass by itself

What `ReconcilePool` can have done, at every operation it issues and at its end. After the loop over the
hosts a pass stages one host, releases one, or does neither; `Course.Staging` and `Course.Releasing` say
under which conditions, and how far it has come. `reconcileHosts_stays` puts a whole pass together.
-/

set_option autoImplicit false

namespace Medea

open Medea.Interaction

namespace SolePass

variable {cluster pool : String} {Q : Except String Unit → Bench → Prop} {cl : Cluster} {o : Outside}

/-! ## Staging and releasing -/

namespace Course

variable (C : Course)

/-- The loop is over. -/
structure Through (b : Bench) : Prop where
  quiet : b.log = []
  tracks : Tracks C.cluster C.pool C.start b.db
  fates : ∀ h ∈ C.hosts, C.Fated h (C.cur b.db h)

/-- After the loop no host is in flight and none has failed. -/
structure Clear (s₁ : Store) : Prop where
  reachable : s₁.Reachable
  tracks : Tracks C.cluster C.pool C.start s₁.db
  fates : ∀ h ∈ C.hosts, C.Fated h (C.cur s₁.db h)
  idle : ∀ h ∈ C.hosts, (C.cur s₁.db h).state ≠ .provisioning ∧ (C.cur s₁.db h).state ≠ .failed
  around : C.Around s₁.db

/-- The READY hosts of the listing. -/
def ready (db : DB) : Nat := (C.hosts.map (C.cur db)).countP (·.state = .ready)

/-- The record of a host that was staged. -/
def stagedHost (h : Host) (startedAt : String) : Host :=
  { h with
    state := .provisioning, message := "staged; awaiting boot + join"
    provisioningStartedAt := startedAt }

/-- A host is being staged, or has been. -/
structure Staging (h : Host) (s₁ : Store) (b : Bench) : Prop where
  clear : C.Clear s₁
  short : C.ready s₁.db < C.np.replicas
  picked : pickAvailable C.hosts C.np.selector = some h
  log : ∃ profile cfg, b.log = [(.provisioner C.cluster (.stage h.mac profile cfg), s₁)]
  hosts : b.db.hosts = s₁.db.hosts ∨
    ∃ startedAt, b.db.hosts = (s₁.db.putHost (stagedHost h startedAt)).hosts

end Course

/-- The pool without a member. -/
def dropped (np : NodePool) (addr : String) (rev : Nat) : NodePool :=
  { np with members := np.members.filter (· != addr), revision := rev }

/-- The host back in the inventory. -/
def freed (h : Host) (rev : Nat) : Host :=
  { h with state := .registered, addr := "", message := "released (scale-in)", revision := rev }

/-- Some of the writes of a release were made, in their order or not; the host was not. -/
structure Cut (cluster pool addr : String) (db db' : DB) : Prop where
  hosts : db'.hosts = db.hosts
  machines : db'.machines = db.machines ∨
    addr ≠ "" ∧ db'.machines = db.machines.erase (ckey cluster addr)
  nodePools : db'.nodePools = db.nodePools ∨ addr ≠ "" ∧ ∃ np rev,
    db.nodePools[ckey cluster pool]? = some np ∧
      db'.nodePools = db.nodePools.insert (ckey cluster pool) (dropped np addr rev)
  beside : beside db' = beside db

/-- All writes of a release were made. -/
structure Released (cluster pool : String) (v : Host) (db db' : DB) : Prop where
  hosts : ∃ h rev, db.hosts[ckey cluster v.mac]? = some h ∧
    db'.hosts = db.hosts.insert (ckey cluster v.mac) (freed h rev)
  machines : db'.machines = if v.addr = "" then db.machines else db.machines.erase (ckey cluster v.addr)
  nodePools : if v.addr = "" then db'.nodePools = db.nodePools else ∃ np rev,
    db.nodePools[ckey cluster pool]? = some np ∧
      db'.nodePools = db.nodePools.insert (ckey cluster pool) (dropped np v.addr rev)
  beside : beside db' = beside db

theorem cut_refl (cluster pool addr : String) (db : DB) : Cut cluster pool addr db db :=
  ⟨rfl, Or.inl rfl, Or.inl rfl, rfl⟩

theorem bucket_erase_erase {V : Type} (b : Bucket V) (k : String) : (b.erase k).erase k = b.erase k := by
  refine Std.ExtTreeMap.ext_getElem? fun k' => ?_
  rw [Bucket.get_erase, Bucket.get_erase]
  split_ifs <;> rfl

theorem bucket_insert_insert {V : Type} (b : Bucket V) (k : String) (v v' : V) :
    (b.insert k v).insert k v' = b.insert k v' := by
  refine Std.ExtTreeMap.ext_getElem? fun k' => ?_
  rw [Bucket.get_insert, Bucket.get_insert, Bucket.get_insert]
  split_ifs <;> rfl

theorem dropped_dropped (np : NodePool) (addr : String) (rev rev' : Nat) :
    dropped (dropped np addr rev) addr rev' = dropped np addr rev' := by
  simp [dropped]

/-- The operations of a release on machines: the drain, if the node is listed, and the unstaging. -/
def releaseOps (r : ProvisionReconciler) (cluster : String) (nodes : List NodeInfo) (v : Host) : List Op :=
  (if nodeNameFor nodes v.addr = "" then []
    else [.kube r.client v.addr
      (.drain (nodeNameFor nodes v.addr) ProvisionReconciler.scaleInDrainTimeout)]) ++
    [.provisioner cluster (.unstage v.mac)]

/-- A release that starts over ends as one that was never cut short. -/
theorem Cut.released {v : Host} {db db1 db2 : DB} (hcut : Cut cluster pool v.addr db db1)
    (hrel : Released cluster pool v db1 db2) : Released cluster pool v db db2 where
  hosts := by
    obtain ⟨h, rev, hk, hhosts⟩ := hrel.hosts
    rw [hcut.hosts] at hk hhosts
    exact ⟨h, rev, hk, hhosts⟩
  machines := by
    rw [hrel.machines]
    rcases hcut.machines with hm | ⟨haddr, hm⟩
    · rw [hm]
    · rw [hm, if_neg haddr, if_neg haddr, bucket_erase_erase]
  nodePools := by
    have hpools := hrel.nodePools
    rcases hcut.nodePools with hp | ⟨haddr, np, rev, hk, hp⟩
    · rwa [hp] at hpools
    · rw [if_neg haddr] at hpools ⊢
      obtain ⟨np', rev', hk', hp'⟩ := hpools
      -- the members were filtered before, and are once more
      rw [hp, Bucket.get_insert, if_pos rfl] at hk'
      cases hk'
      rw [hp, bucket_insert_insert, dropped_dropped] at hp'
      exact ⟨np, rev', hk, hp'⟩
  beside := hrel.beside.trans hcut.beside

namespace Course

variable (C : Course)
variable {I : Bench → Prop}

/-- The operations of a release, with the store at their time. -/
def releaseLog (v : Host) (s₁ : Store) : List (Op × Store) :=
  (releaseOps C.reconciler C.cluster C.nodes v).map fun op => (op, s₁)

/-- A host is being released. -/
structure Releasing (v : Host) (s₁ : Store) (b : Bench) : Prop where
  clear : C.Clear s₁
  surplus : C.np.replicas < C.ready s₁.db
  victim : victimOf C.hosts = some v
  log : b.log ≠ [] ∧ b.log <+: C.releaseLog v s₁
  cut : Cut C.cluster C.pool v.addr s₁.db b.db

/-- A host has been released. -/
structure Done (v : Host) (s₁ : Store) (b : Bench) : Prop where
  clear : C.Clear s₁
  surplus : C.np.replicas < C.ready s₁.db
  victim : victimOf C.hosts = some v
  log : b.log = C.releaseLog v s₁
  released : Released C.cluster C.pool v s₁.db b.db

/-- What holds when a pass that has listed the nodes issues an operation. -/
def OnTheWay (b : Bench) : Prop :=
  b.log = [] ∨ (∃ h s₁, C.Staging h s₁ b) ∨ ∃ v s₁, C.Releasing v s₁ b

/-- What holds when it ends with an error: a write has failed in the loop, or an operation later. -/
def Stopped (b : Bench) : Prop :=
  (C.outside.Fails ∧ C.Midway b) ∨ C.Through b ∨ (∃ h s₁, C.Staging h s₁ b) ∨
    ∃ v s₁, C.Releasing v s₁ b

/-- What holds when it ends without. -/
def Finished (b : Bench) : Prop :=
  C.Through b ∨ (∃ h s₁, C.Staging h s₁ b) ∨ ∃ v s₁, C.Done v s₁ b

variable {C} {b : Bench} {h : Host}

open ProvisionReconciler Bench

/-! ### Releasing -/

/-- The writes of a release. -/
theorem forget_stays {v : Host} {E D : Bench → Prop} {np : NodePool} (hcluster : cluster ≠ "")
    (hk : b.db.hosts[ckey cluster v.mac]? = some h)
    (hpool : b.db.nodePools[ckey cluster pool]? = some np)
    (hI : ∀ b' : Bench, b'.log = b.log → Cut cluster pool v.addr b.db b'.db → I b')
    (hE : o.Fails → ∀ b' : Bench, b'.log = b.log → Cut cluster pool v.addr b.db b'.db → E b')
    (hD : ∀ b' : Bench, b'.log = b.log → Released cluster pool v b.db b'.db → D b') :
    (forget cluster pool v.addr v.mac).Stays (handles o) I (Ends E fun _ => D) b := by
  have hstart := cut_refl cluster pool v.addr b.db
  rw [forget]
  split_ifs with haddr
  · obtain ⟨hok, hdb⟩ := exec_deleteMachine (s := b.store) hcluster haddr
    apply stays_write hok (hI b rfl hstart)
    on_goal 2 => exact fun hf _ => hE hf b rfl hstart
    intro b1 hb1 hlog1
    have hdb1 : b1.db = b.db.dropMachine cluster v.addr := hb1.trans hdb
    have hcut1 : Cut cluster pool v.addr b.db b1.db := by
      rw [hdb1]
      exact ⟨rfl, Or.inr ⟨haddr, rfl⟩, Or.inl rfl, rfl⟩
    have hpool1 : b1.db.nodePools[ckey cluster pool]? = some np := by
      rw [hdb1]
      exact hpool
    apply Program.Stays.bind (Q := Ends E fun _ b' => b'.log = b.log ∧
      b'.db = b1.db.putPool { np with members := np.members.filter (· != v.addr) })
    · refine editPool_stays hpool1 ?_ (hI b1 hlog1 hcut1) (fun hf => hE hf b1 hlog1 hcut1) ?_ ?_
      · rintro np' ⟨⟩
        exact ⟨rfl, rfl⟩
      · rintro ⟨⟩
      · rintro np' b2 ⟨⟩ hdb2 hlog2
        exact ⟨hlog2.trans hlog1, hdb2⟩
    rintro (e | ⟨⟩) b2 h2
    · exact h2
    obtain ⟨hlog2, hdb2⟩ := h2
    have hpools2 : b2.db.nodePools =
        b.db.nodePools.insert (ckey cluster pool) (dropped np v.addr (b1.db.revision + 1)) := by
      rw [hdb2, ← b1.reachable.nodePool_key hpool1, hdb1]
      rfl
    have hcut2 : Cut cluster pool v.addr b.db b2.db := by
      refine ⟨?_, Or.inr ⟨haddr, ?_⟩, Or.inr ⟨haddr, np, _, hpool, hpools2⟩, ?_⟩
      · rw [hdb2, hdb1]
        rfl
      · rw [hdb2, hdb1]
        rfl
      · rw [hdb2, hdb1]
        rfl
    have hk2 : b2.db.hosts[ckey cluster v.mac]? = some h := by
      rw [hcut2.hosts]
      exact hk
    apply editHost_stays hk2 ⟨rfl, rfl⟩ (hI b2 hlog2 hcut2) fun hf => hE hf b2 hlog2 hcut2
    intro b3 hdb3 hlog3
    refine hD b3 (hlog3.trans hlog2) ⟨⟨h, b2.db.revision + 1, hk, ?_⟩, ?_, ?_, ?_⟩
    · rw [hdb3, ← b2.reachable.host_key hk2, ← hcut2.hosts]
      rfl
    · rw [if_neg haddr, hdb3, hdb2, hdb1]
      rfl
    · rw [if_neg haddr, hdb3]
      exact ⟨np, _, hpool, hpools2⟩
    · rw [hdb3]
      exact hcut2.beside
  · have hnone : v.addr = "" := not_not.1 haddr
    apply editHost_stays hk ⟨rfl, rfl⟩ (hI b rfl hstart) fun hf => hE hf b rfl hstart
    intro b1 hdb1 hlog1
    refine hD b1 hlog1 ⟨⟨h, b.db.revision + 1, hk, ?_⟩, ?_, ?_, ?_⟩
    · rw [hdb1, ← b.reachable.host_key hk]
      rfl
    · rw [if_pos hnone, hdb1]
      rfl
    · rw [if_pos hnone, hdb1]
      rfl
    · rw [hdb1]
      rfl

/-- A host that was not in flight is stored as it was listed. -/
theorem Clear.stored {s₁ : Store} (hclear : C.Clear s₁) {h : Host} (hh : h ∈ C.hosts)
    (hst : h.state ≠ .provisioning) : s₁.db.hosts[ckey C.cluster h.mac]? = some h := by
  have hcur : now C.cluster s₁.db h = h := (hclear.fates h hh).of_settled hst
  rw [(hclear.tracks.listed h hh).1, hcur]

section Release

variable {v : Host} {s₁ : Store} (hclear : C.Clear s₁) (hsurplus : C.np.replicas < C.ready s₁.db)

include hclear hsurplus

/-- The unstaging and the writes of a release. -/
theorem unstage_stays (hv : victimOf C.hosts = some v) (hstore : b.store = s₁)
    (hlog : b.log ++ [(.provisioner C.cluster (.unstage v.mac), s₁)] = C.releaseLog v s₁)
    (hway : C.OnTheWay b) :
    (unstage C.cluster C.pool v).Stays (handles C.outside) C.OnTheWay
      (Ends (fun b' => C.outside.Refuses ∧ C.Releasing v s₁ b') fun _ => C.Done v s₁) b := by
  obtain ⟨hmem, hready, -⟩ := victimOf_some hv
  have hk := hclear.stored hmem (by simp [hready])
  obtain ⟨np, hpool, -⟩ := hclear.around.pool
  subst hstore
  apply stays_outside (by simp) hway
  intro rep hrep
  generalize hb1 : b.noted _ = b1
  have hlog1 : b1.log = C.releaseLog v b.store := by
    rw [← hlog, ← hb1]
    rfl
  have hdb1 : b1.db = b.db := by
    rw [← hb1]
    rfl
  have hrel : ∀ b2 : Bench, b2.log = b1.log → Cut C.cluster C.pool v.addr b1.db b2.db →
      C.Releasing v b.store b2 := by
    intro b2 hlog2 hcut
    rw [hdb1] at hcut
    rw [hlog1] at hlog2
    refine ⟨hclear, hsurplus, hv, ⟨?_, ?_⟩, hcut⟩
    · rw [hlog2, ← hlog]
      simp
    · simp [hlog2]
  cases rep with
  | error e => exact ⟨Or.inr (Or.inr ⟨_, _, e, hrep⟩), hrel b1 rfl (cut_refl ..)⟩
  | ok _ =>
    have hk1 : b1.db.hosts[ckey C.cluster v.mac]? = some v := hdb1 ▸ hk
    have hpool1 : b1.db.nodePools[ckey C.cluster C.pool]? = some np := hdb1 ▸ hpool
    apply forget_stays C.named hk1 hpool1
    · exact fun b2 hlog2 hcut => Or.inr (Or.inr ⟨v, b.store, hrel b2 hlog2 hcut⟩)
    · exact fun hf b2 hlog2 hcut => ⟨Or.inl hf, hrel b2 hlog2 hcut⟩
    · intro b2 hlog2 hreleased
      rw [hdb1] at hreleased
      exact ⟨hclear, hsurplus, hv, hlog2.trans hlog1, hreleased⟩

/-- A release from its beginning. -/
theorem scaleIn_stays (hv : victimOf C.hosts = some v) (hstore : b.store = s₁) (hquiet : b.log = []) :
    (C.reconciler.scaleIn C.cluster C.pool C.hosts C.nodes).Stays (handles C.outside) C.OnTheWay
      (Ends (fun b' => C.outside.Refuses ∧ C.Releasing v s₁ b') fun _ => C.Done v s₁) b := by
  subst hstore
  rw [scaleIn, hv]
  dsimp only
  split_ifs with hname
  · apply stays_outside (by simp) (Or.inl hquiet)
    intro rep hrep
    generalize hb1 : b.noted _ = b1
    have hstore1 : b1.store = b.store := by
      rw [← hb1]
      rfl
    have hlog1 : b1.log ++ [(.provisioner C.cluster (.unstage v.mac), b.store)] =
        C.releaseLog v b.store := by
      rw [← hb1, noted, hquiet, releaseLog, releaseOps, if_neg hname]
      rfl
    have hrel : C.Releasing v b.store b1 := by
      refine ⟨hclear, hsurplus, hv, ⟨?_, _, hlog1⟩, ?_⟩
      · rw [← hb1, noted]
        simp [Op.acts]
      · rw [show b1.db = b.db from congrArg Store.db hstore1]
        exact cut_refl ..
    cases rep with
    | error e => exact ⟨Or.inr (Or.inl ⟨_, _, _, _, e, hrep⟩), hrel⟩
    | ok _ =>
      exact unstage_stays hclear hsurplus hv hstore1 hlog1 (Or.inr (Or.inr ⟨v, b.store, hrel⟩))
  · apply unstage_stays hclear hsurplus hv rfl ?_ (Or.inl hquiet)
    rw [hquiet, releaseLog, releaseOps, if_pos (not_not.1 hname)]
    rfl

end Release

/-! ### Staging -/

/-- The host is marked as staged. -/
theorem startProvisioning_stays {E D : Bench → Prop} {mac : String}
    (hk : b.db.hosts[ckey cluster mac]? = some h) (hI : I b) (hE : o.Fails → E b)
    (hD : ∀ (b' : Bench) (startedAt : String), b'.log = b.log →
      b'.db = b.db.putHost (stagedHost h startedAt) → D b') :
    (startProvisioning cluster mac).Stays (handles o) I (Ends E fun _ => D) b := by
  apply stays_read rfl rfl hI
  have hread : (StoreOp.exec b.store (.getHost cluster mac)).1 = .ok (some h, h.revision) :=
    congrArg Except.ok (getHost_of_get hk)
  rw [hread]
  apply stays_outside (by simp) hI
  intro t _
  rw [noted_of_idle rfl]
  have hexp : b.store.Expects (.host, ckey h.cluster h.mac) h.revision := by
    rw [b.reachable.host_key hk]
    exact Or.inr ⟨_, DB.entry_of_host hk⟩
  have hid := b.reachable.named (DB.entry_of_host hk)
  obtain ⟨hok, hdb⟩ := exec_desired (d := .host (stagedHost h (formatRFC3339 t))) hid hexp
  refine stays_write hok hI ?_ ?_
  · exact fun b' hb' hlog => hD b' (formatRFC3339 t) hlog (hb'.trans hdb)
  · exact fun hf _ => hE hf

theorem secretsFor_stays (name : String) (hI : I b) :
    (secretsFor name).Stays (handles o) I (fun _ b' => b' = b) b := by
  apply stays_outside (by simp) hI
  intro rep _
  rw [noted_of_idle rfl]
  cases rep with
  | error e => rfl
  | ok raw =>
    apply stays_outside (by simp) hI
    intro rep' _
    rw [noted_of_idle rfl]
    cases rep' with
    | error e => rfl
    | ok bundle => rfl

theorem renderWorkerConfig_stays (name endpoint version disk image : String) (secrets : Bytes)
    (hI : I b) :
    (renderWorkerConfig name endpoint version disk image secrets).Stays (handles o) I
      (fun _ b' => b' = b) b := by
  rw [renderWorkerConfig]
  split_ifs
  · rfl
  · rw [← Program.bind_done (call _)]
    apply stays_outside (by simp) hI
    intro rep _
    exact noted_of_idle rfl

/-! ### After the loop -/

section Act

variable {count : HostCount} (hb : C.Between C.hosts [] count b)

include hb

theorem Between.through : C.Through b := ⟨hb.quiet, hb.tracks, hb.fates⟩

theorem Between.clear (hinflight : count.inflight = 0) (hfailed : count.failed = 0) : C.Clear b.store where
  reachable := b.reachable
  tracks := hb.tracks
  fates := hb.fates
  idle h hh := by
    have hmem : C.cur b.db h ∈ C.hosts.map (C.cur b.db) := List.mem_map_of_mem hh
    have hfl := List.countP_eq_zero.1 (hb.inflight.symm.trans hinflight) _ hmem
    have hfa := List.countP_eq_zero.1 (hb.failed.symm.trans hfailed) _ hmem
    simp only [decide_eq_true_eq] at hfl hfa
    exact ⟨hfl, hfa⟩
  around := hb.around

/-- The boot configuration is published, and the host marked as staged. -/
theorem publish_stays (hclear : C.Clear b.store) (hshort : C.ready b.db < C.np.replicas)
    (hpick : pickAvailable C.hosts C.np.selector = some h) (hname : cl.name = C.cluster)
    (schematic version : String) (cfg : Bytes) :
    (C.reconciler.publish cl h schematic version cfg).Stays (handles C.outside) C.OnTheWay
      (Ends C.Stopped fun _ => C.Finished) b := by
  obtain ⟨hmem, hregistered⟩ := pickAvailable_some hpick
  have hstored : b.db.hosts[ckey C.cluster h.mac]? = some h := hclear.stored hmem (by simp [hregistered])
  rw [publish, hname]
  apply stays_outside (by simp) (Or.inl hb.quiet)
  intro rep _
  generalize hb1 : b.noted _ = b1
  have hlog1 : b1.log = [(.provisioner C.cluster
      (.stage h.mac (bootProfile C.reconciler.factoryHost schematic version) cfg), b.store)] := by
    rw [← hb1, noted, hb.quiet]
    rfl
  have hdb1 : b1.db = b.db := by
    rw [← hb1]
    rfl
  have hstaging : C.Staging h b.store b1 :=
    ⟨hclear, hshort, hpick, ⟨_, _, hlog1⟩, Or.inl (congrArg DB.hosts hdb1)⟩
  cases rep with
  | error e => exact Or.inr (Or.inr (Or.inl ⟨h, b.store, hstaging⟩))
  | ok _ =>
    have hk1 : b1.db.hosts[ckey C.cluster h.mac]? = some h := hdb1 ▸ hstored
    apply startProvisioning_stays hk1 (Or.inr (Or.inl ⟨h, b.store, hstaging⟩))
    · exact fun _ => Or.inr (Or.inr (Or.inl ⟨h, b.store, hstaging⟩))
    · intro b2 startedAt hlog2 hdb2
      refine Or.inr (Or.inl ⟨h, b.store, hclear, hshort, hpick, ⟨_, _, hlog2.trans hlog1⟩,
        Or.inr ⟨startedAt, ?_⟩⟩)
      rw [hdb2, hdb1]
      rfl

theorem stage_stays (hclear : C.Clear b.store) (hshort : C.ready b.db < C.np.replicas)
    (hpick : pickAvailable C.hosts C.np.selector = some h) (hname : cl.name = C.cluster) :
    (C.reconciler.stage cl C.np h).Stays (handles C.outside) C.OnTheWay
      (Ends C.Stopped fun _ => C.Finished) b := by
  -- nothing is written before the boot configuration is published
  have hstop : C.Stopped b := Or.inr (Or.inl hb.through)
  have hway : C.OnTheWay b := Or.inl hb.quiet
  rw [stage]
  split_ifs
  · exact hstop
  apply stays_outside (by simp) hway
  intro rep _
  rw [noted_of_idle rfl]
  cases rep with
  | error e => exact hstop
  | ok schematic =>
    apply (secretsFor_stays cl.name hway).bind
    rintro rep b' rfl
    cases rep with
    | error e => exact hstop
    | ok bundle =>
      apply (renderWorkerConfig_stays _ _ _ _ _ _ hway).bind
      rintro rep b'' rfl
      cases rep with
      | error e => exact hstop
      | ok cfg => exact publish_stays hb hclear hshort hpick hname _ _ cfg

theorem converge_stays (hname : cl.name = C.cluster) :
    (C.reconciler.converge C.cluster C.pool cl C.np C.hosts C.nodes count).Stays (handles C.outside)
      C.OnTheWay (Ends C.Stopped fun _ => C.Finished) b := by
  have hready : count.ready = C.ready b.db := hb.ready
  rw [converge]
  split_ifs with hinflight hfailed hmore hless
  · exact Or.inl hb.through
  · exact Or.inl hb.through
  · have hclear := hb.clear (by omega) (by omega)
    have hsurplus : C.np.replicas < C.ready b.store.db := Nat.lt_of_lt_of_eq hmore hready
    cases hv : victimOf C.hosts with
    | none =>
      rw [scaleIn, hv]
      exact Or.inl hb.through
    | some v =>
      apply (scaleIn_stays hclear hsurplus hv rfl hb.quiet).mono fun _ h => h
      rintro (e | ⟨⟩) b' hb'
      · exact Or.inr (Or.inr (Or.inr ⟨v, _, hb'.2⟩))
      · exact Or.inr (Or.inr ⟨v, _, hb'⟩)
  · cases hpick : pickAvailable C.hosts C.np.selector with
    | none => exact Or.inl hb.through
    | some h => exact stage_stays hb (hb.clear (by omega) (by omega)) (by omega) hpick hname
  · exact Or.inl hb.through

end Act

end Course

/-! ## A whole pass -/

namespace Setting

variable (S : Setting)

open ProvisionReconciler Bench

/-- What holds when the pass issues an operation. -/
def OnTheWay (b : Bench) : Prop := b.log = [] ∨ ∃ C : Course, C.toSetting = S ∧ C.OnTheWay b

/-- What holds when it ends with an error; the listing of the nodes may have failed. -/
def Stopped (b : Bench) : Prop :=
  (b.log = [] ∧ b.store = S.start ∧
      ∃ e, S.outside.allows ⟨.kube S.reconciler.client "" .listNodes, .error e⟩) ∨
    ∃ C : Course, C.toSetting = S ∧ C.Stopped b

/-- What holds when it ends without. -/
def Finished (b : Bench) : Prop := ∃ C : Course, C.toSetting = S ∧ C.Finished b

/-- A pass lists the hosts, the nodes and the claimed addresses, and then works from these lists. -/
theorem lists_stays {b : Bench} {I : Bench → Prop}
    (hstore : b.store = S.start) (hI : I b)
    (hE : ∀ e msg, S.outside.allows ⟨.kube S.reconciler.client "" .listNodes, .error e⟩ → Q (.error msg) b)
    (hgo : ∀ nodes, S.outside.allows ⟨.kube S.reconciler.client "" .listNodes, .ok nodes⟩ →
      (S.reconciler.advanceHosts S.cluster S.pool S.np nodes S.hosts { claimed := S.claims } >>=
        fun rep => match rep with
          | .error e => .done (.error e)
          | .ok count => S.reconciler.converge S.cluster S.pool cl S.np S.hosts nodes count).Stays
        (handles S.outside) I Q b) :
    (S.reconciler.reconcileHosts S.cluster S.pool cl S.np).Stays (handles S.outside) I Q b := by
  apply stays_read rfl rfl hI
  have hread : (StoreOp.exec b.store (.listHosts S.cluster S.pool)).1 = .ok S.hosts := by
    rw [hstore]
    rfl
  rw [hread]
  apply stays_outside (by simp) hI
  intro rep hrep
  rw [noted_of_idle rfl]
  cases rep with
  | error e => exact hE e _ hrep
  | ok nodes =>
    apply Program.Stays.bind (Q := fun rep b' => rep = .ok S.claims ∧ b' = b)
    · apply stays_read rfl rfl hI
      refine ⟨?_, rfl⟩
      rw [hstore]
      rfl
    rintro rep b' ⟨rfl, rfl⟩
    exact hgo nodes hrep

end Setting

/-- Before the first host. -/
theorem Course.between_start {C : Course} {b : Bench} (hstore : b.store = C.start) (hquiet : b.log = [])
    (hpool : b.db.nodePools[ckey C.cluster C.pool]? = some C.np) :
    C.Between [] C.hosts { claimed := C.claims } b := by
  have hdb : b.db = C.start.db := congrArg Store.db hstore
  refine { split := rfl, quiet := hquiet, around := ⟨⟨_, hpool, rfl⟩, congrArg beside hdb⟩, tracks := ?_,
           fates := ?_, still := ?_, claimed := List.Subset.refl _, inflight := rfl, ready := rfl
           failed := rfl }
  · rw [hdb]
    exact tracks_self C.pooled
  · exact fun h hh => absurd hh List.not_mem_nil
  · intro h hh
    refine now_of_get ?_
    rw [hdb]
    exact (C.pooled.mem_iff.1 hh).1

namespace Course

variable {C : Course} {b : Bench} {done todo : List Host} {count : HostCount}

open ProvisionReconciler Bench

theorem Between.settle (hb : C.Between done todo count b) (hst : ∀ h ∈ todo, h.state ≠ .provisioning) :
    C.Between (done ++ todo) [] (todo.foldl HostCount.passed count) b := by
  induction todo generalizing done count with
  | nil => simpa using hb
  | cons h todo ih =>
    have hnext := ih (hb.skip (hst h List.mem_cons_self)) fun x hx => hst x (List.mem_cons_of_mem _ hx)
    simpa using hnext

/-- A pass that finds too many hosts, and none in flight or failed, releases one of them. -/
theorem surplus_stays {v : Host} (hstore : b.store = C.start) (hquiet : b.log = [])
    (hpool : b.db.nodePools[ckey C.cluster C.pool]? = some C.np)
    (hidle : ∀ h ∈ C.hosts, h.state ≠ .provisioning ∧ h.state ≠ .failed)
    (hsurplus : C.np.replicas < C.hosts.countP (·.state = .ready)) (hv : victimOf C.hosts = some v) :
    (C.reconciler.advanceHosts C.cluster C.pool C.np C.nodes C.hosts { claimed := C.claims } >>=
      fun rep => match rep with
        | .error e => .done (.error e)
        | .ok count => C.reconciler.converge C.cluster C.pool cl C.np C.hosts C.nodes count).Stays
      (handles C.outside) C.OnTheWay
      (Ends (fun b' => C.outside.Refuses ∧ C.Releasing v b.store b') fun _ => C.Done v b.store) b := by
  have hstart := between_start hstore hquiet hpool
  have hb := hstart.settle fun h hh => (hidle h hh).1
  have hmap : C.hosts.map (C.cur b.db) = C.hosts := (List.map_congr_left hstart.still).trans (List.map_id _)
  rw [advanceHosts_settled _ _ _ _ _ fun h hh => (hidle h hh).1]
  generalize C.hosts.foldl HostCount.passed { claimed := C.claims } = count at hb ⊢
  -- what was counted is what is stored
  have hinflight : count.inflight = 0 := by
    rw [hb.inflight, List.nil_append, hmap, List.countP_eq_zero]
    simpa using fun h hh => (hidle h hh).1
  have hfailed : count.failed = 0 := by
    rw [hb.failed, List.nil_append, hmap, List.countP_eq_zero]
    simpa using fun h hh => (hidle h hh).2
  have hready : count.ready = C.ready b.db := hb.ready
  have hmore : C.np.replicas < count.ready := by rwa [hready, ready, hmap]
  show Program.Stays _ _ _ (C.reconciler.converge ..) _
  rw [converge, if_neg (by omega), if_neg (by omega), if_pos hmore]
  exact scaleIn_stays (hb.clear hinflight hfailed) (Nat.lt_of_lt_of_eq hmore hready) hv rfl hquiet

end Course

namespace Setting

variable {S : Setting}

open ProvisionReconciler Bench

/-- The part of a pass that talks to the cluster. -/
theorem reconcileHosts_stays (hname : cl.name = S.cluster) {b : Bench} (hstore : b.store = S.start)
    (hquiet : b.log = []) (hpool : b.db.nodePools[ckey S.cluster S.pool]? = some S.np) :
    (S.reconciler.reconcileHosts S.cluster S.pool cl S.np).Stays (handles S.outside) S.OnTheWay
      (Ends S.Stopped fun _ => S.Finished) b := by
  have hway : ∀ b' : Bench, b'.log = [] → S.OnTheWay b' := fun b' h => Or.inl h
  apply S.lists_stays hstore (hway b hquiet)
  · exact fun e _ hrep => Or.inl ⟨hquiet, hstore, e, hrep⟩
  intro nodes hlisted
  let C : Course := { S with nodes := nodes, listed := hlisted }
  have hstart : C.Between [] C.hosts { claimed := C.claims } b := Course.between_start hstore hquiet hpool
  apply Program.Stays.bind (Course.advanceHosts_stays hway hstart)
  rintro (e | count) b1 h1
  · exact Or.inr ⟨C, rfl, Or.inl h1⟩
  · apply (Course.converge_stays h1 hname).mono
    · exact fun b2 h2 => Or.inr ⟨C, rfl, h2⟩
    · rintro (e | ⟨⟩) b2 h2
      · exact Or.inr ⟨C, rfl, h2⟩
      · exact ⟨C, rfl, h2⟩

end Setting

/-- A pass works on the hosts only if the cluster is enabled and the pool has replicas. -/
theorem reconcilePool_stays (r : ProvisionReconciler) {I : Bench → Prop} {b : Bench} (hI : I b)
    (hidle : (∀ cl np, b.db.clusters[cluster]? = some cl → cl.provisioningEnabled = true →
      b.db.nodePools[ckey cluster pool]? = some np → np.replicas = 0) → ∀ res, Q res b)
    (hgo : ∀ (cl : Cluster) (np : NodePool) (seen : Option ClusterObserved),
      b.db.clusters[cluster]? = some cl → cl.provisioningEnabled = true →
      b.db.nodePools[ckey cluster pool]? = some np → np.replicas ≠ 0 →
      (r.reconcileHosts cluster pool { cl with observed := seen } np).Stays (Bench.handles o) I Q b) :
    (r.reconcilePool cluster pool).Stays (Bench.handles o) I Q b := by
  apply Bench.stays_read rfl rfl hI
  cases hcl : b.store.db.clusters[cluster]? with
  | none =>
    have hread : (StoreOp.exec b.store (.getCluster cluster)).1 = .ok (none, 0) := by
      rw [StoreOp.exec, Store.getCluster, hcl]
    rw [hread]
    refine hidle (fun cl np hcl' => ?_) _
    cases hcl.symm.trans hcl'
  | some cl =>
    have hread : (StoreOp.exec b.store (.getCluster cluster)).1 =
        .ok (some { cl with observed := b.store.obsCluster[cluster]? }, cl.revision) := by
      rw [StoreOp.exec, Store.getCluster, hcl]
    rw [hread]
    show Program.Stays _ _ _ (if !cl.provisioningEnabled then _ else _) _
    split_ifs with hoff
    · refine hidle (fun cl' np hcl' hen' => ?_) _
      cases hcl.symm.trans hcl'
      rw [hen'] at hoff
      cases hoff
    · have hen : cl.provisioningEnabled = true := by simpa using hoff
      apply Bench.stays_read rfl rfl hI
      cases hnp : b.store.db.nodePools[ckey cluster pool]? with
      | none =>
        have hread : (StoreOp.exec b.store (.getNodePool cluster pool)).1 = .ok (none, 0) := by
          rw [StoreOp.exec, Store.getNodePool, hnp]
        rw [hread]
        refine hidle (fun cl' np _ _ hnp' => ?_) _
        cases hnp.symm.trans hnp'
      | some np =>
        have hread : (StoreOp.exec b.store (.getNodePool cluster pool)).1 =
            .ok (some np, np.revision) := congrArg Except.ok (getNodePool_of_get hnp)
        rw [hread]
        show Program.Stays _ _ _ (if np.replicas = 0 then _ else _) _
        split_ifs with hzero
        · refine hidle (fun cl' np' _ _ hnp' => ?_) _
          cases hnp.symm.trans hnp'
          exact hzero
        · exact hgo cl np _ hcl hen hnp hzero

/-- The cluster is enabled and the pool has replicas. -/
structure Setting.Enabled (S : Setting) : Prop where
  enabled : ∃ cl, S.start.db.clusters[S.cluster]? = some cl ∧ cl.provisioningEnabled = true
  stored : S.start.db.nodePools[ckey S.cluster S.pool]? = some S.np
  positive : 0 < S.np.replicas

/-- A pass over a pool with its own hosts does nothing, or has such a setting. -/
theorem enabled_stays {r : ProvisionReconciler} {I : Bench → Prop} {b : Bench}
    (hpool : ∀ np, b.db.nodePools[ckey cluster pool]? = some np → Pooled cluster pool b.store)
    (hI : I b) (hidle : ∀ res, Q res b)
    (hgo : ∀ S : Setting, S.outside = o → S.reconciler = r → S.cluster = cluster → S.pool = pool →
      S.start = b.store → S.Enabled → ∀ cl : Cluster, cl.name = S.cluster →
      (S.reconciler.reconcileHosts S.cluster S.pool cl S.np).Stays (Bench.handles S.outside) I Q b) :
    (r.reconcilePool cluster pool).Stays (Bench.handles o) I Q b := by
  apply reconcilePool_stays r hI fun _ => hidle
  intro cl np seen hcl hen hnp hreplicas
  have hname : cl.name = cluster := b.reachable.cluster_key hcl
  have hnamed : cluster ≠ "" := hname ▸ b.reachable.named (DB.entry_of_cluster hcl)
  exact hgo ⟨o, r, cluster, pool, b.store, np, hpool np hnp, hnamed⟩ rfl rfl rfl rfl rfl
    ⟨⟨cl, hcl, hen⟩, hnp, Nat.pos_of_ne_zero hreplicas⟩ _ hname

end SolePass

end Medea
