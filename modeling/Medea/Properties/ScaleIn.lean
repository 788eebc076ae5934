import Medea.ControlPlane.SolePass

/-!
# Releases that are cut short

`scaleIn` drains the node of the victim, unstages it, deletes its machine and its membership, and at last
puts the host back into the inventory. Each step can be repeated, and until the last one the victim is
READY and the pool has too many hosts, so the next pass scales in again. It starts over with the host that
has the lowest MAC among those that are READY then.

The first pass has chosen among the hosts that were READY when it began. A host that it has bound itself
was not one of them, but is one for the next pass: if its MAC is lower, another host is released, and the
first victim stays READY without a machine. `scaleIn_resumes_iff` says that nothing else can go wrong.
-/

set_option autoImplicit false
set_option maxRecDepth 100000

namespace Medea

open Medea.Interaction Bench

/-- The operations by which a host is released. -/
def Op.releases : Op → Bool
  | .provisioner _ (.unstage _) | .kube _ _ (.drain _ _) => true
  | _ => false

namespace ScaleIn

open SolePass

variable {cluster pool : String}

/-- The same records, up to revisions. -/
structure Alike (db db' : DB) : Prop where
  hosts : ∀ k : String, db'.hosts[k]?.map ({ · with revision := 0 }) =
    db.hosts[k]?.map ({ · with revision := 0 })
  machines : db'.machines = db.machines
  nodePools : ∀ k : String, db'.nodePools[k]?.map ({ · with revision := 0 }) =
    db.nodePools[k]?.map ({ · with revision := 0 })
  beside : beside db' = beside db

/-- The victim among the listed hosts was released, and the records are those that a release without
interruption would have left. The store at the beginning of the release was `s₁`. -/
structure Resumed (r : ProvisionReconciler) (cluster pool : String) (nodes : List NodeInfo)
    (hosts : List Host) (s₁ : Store) (res : Except String Unit) (b : Bench) : Prop where
  ok : res = .ok ()
  victim : ∃ v, victimOf hosts = some v ∧ b.log.map Prod.fst = releaseOps r cluster nodes v ∧
    SolePass.Released cluster pool v s₁.db b.db
  uninterrupted : ∀ b₁ : Bench, b₁.db = s₁.db → b₁.log = [] →
    (r.scaleIn cluster pool hosts nodes).Ensures (Bench.handles (.steady nodes))
      (fun res' b' => res' = .ok () ∧ Alike b'.db b.db) b₁

/-- Two releases of one host from the same records. -/
theorem alike_of_released {v : Host} {db db1 db2 : DB} (h1 : SolePass.Released cluster pool v db db1)
    (h2 : SolePass.Released cluster pool v db db2) : Alike db1 db2 where
  hosts k := by
    obtain ⟨h, rev, hk, hhosts⟩ := h1.hosts
    obtain ⟨h', rev', hk', hhosts'⟩ := h2.hosts
    cases hk.symm.trans hk'
    rw [hhosts, hhosts', Bucket.get_insert, Bucket.get_insert]
    split_ifs
    · rfl
    · rfl
  machines := h2.machines.trans h1.machines.symm
  nodePools k := by
    have hpools1 := h1.nodePools
    have hpools2 := h2.nodePools
    split_ifs at hpools1 hpools2 with haddr
    · rw [hpools1, hpools2]
    · obtain ⟨np, rev, hk, hpools⟩ := hpools1
      obtain ⟨np', rev', hk', hpools'⟩ := hpools2
      cases hk.symm.trans hk'
      rw [hpools, hpools', Bucket.get_insert, Bucket.get_insert]
      split_ifs
      · rfl
      · rfl
  beside := h2.beside.trans h1.beside.symm

/-! ## A release without interruption -/

/-- What was counted does not depend on the answers to come. -/
theorem clear_steady {C : Course} {s₁ s2 : Store} (hclear : C.Clear s₁) (hs2 : s2.Reachable)
    (hdb : s2.db = s₁.db) :
    ({ C with outside := .steady C.nodes, listed := rfl } : Course).Clear s2 := by
  refine ⟨hs2, ?_, ?_, ?_, ?_⟩
  · rw [hdb]
    exact hclear.tracks
  · intro h hh
    have hidle := (hclear.idle h hh).1
    have hfate := hclear.fates h hh
    show Fate _ _ _ _ _ h (C.cur s2.db h)
    rw [hdb]
    generalize C.cur s₁.db h = h' at hidle hfate
    cases hfate with
    | settled hst => exact .settled hst
    | joined n rev hp hn => exact .joined n rev hp hn
    | expired rev hp => exact .expired rev hp
    | waiting hp => exact absurd hp hidle
  · show ∀ h ∈ C.hosts, (C.cur s2.db h).state ≠ .provisioning ∧ (C.cur s2.db h).state ≠ .failed
    rw [hdb]
    exact hclear.idle
  · rw [hdb]
    exact ⟨hclear.around.pool, hclear.around.beside⟩

theorem uninterrupted_released {C : Course} {v : Host} {s₁ : Store} {b1 : Bench} (hclear : C.Clear s₁)
    (hsurplus : C.np.replicas < C.ready s₁.db) (hv : victimOf C.hosts = some v) (hdb : b1.db = s₁.db)
    (hlog : b1.log = []) :
    (C.reconciler.scaleIn C.cluster C.pool C.hosts C.nodes).Ensures (handles (.steady C.nodes))
      (fun res b' => res = .ok () ∧ SolePass.Released C.cluster C.pool v s₁.db b'.db) b1 := by
  let D : Course := { C with outside := .steady C.nodes, listed := rfl }
  have hclear' : D.Clear b1.store := clear_steady hclear b1.reachable hdb
  have hsurplus' : D.np.replicas < D.ready b1.store.db := by
    show C.np.replicas < C.ready b1.store.db
    rwa [show b1.store.db = s₁.db from hdb]
  apply (Course.scaleIn_stays hclear' hsurplus' hv rfl hlog).ensures.mono
  rintro (e | ⟨⟩) b' hb'
  · exact absurd hb'.1 (Outside.not_refuses_steady _)
  · refine ⟨rfl, ?_⟩
    rw [← hdb]
    exact hb'.released

/-! ## The next pass -/

section Next

variable {C : Course} {v : Host} {s₁ : Store} {b b₂ : Bench} (hrel : C.Releasing v s₁ b)
  (hdb : b₂.db = b.db)

include hrel hdb

/-- The hosts are those of the beginning of the release. -/
theorem next_hosts : b₂.db.hosts = s₁.db.hosts := by
  rw [hdb]
  exact hrel.cut.hosts

theorem next_perm :
    (b₂.store.listHosts C.cluster C.pool).Perm (C.hosts.map (C.cur s₁.db)) := by
  have hhosts := next_hosts hrel hdb
  have hperm := (hrel.clear.tracks.congr hhosts).listed_perm C.pooled b₂.reachable
  have hsame : C.hosts.map (now C.cluster b₂.db) = C.hosts.map (C.cur s₁.db) :=
    List.map_congr_left fun h _ => now_congr h hhosts
  exact hsame ▸ hperm

theorem next_mem {h : Host} : h ∈ b₂.store.listHosts C.cluster C.pool ↔
    ∃ x ∈ C.hosts, C.cur s₁.db x = h := by
  rw [(next_perm hrel hdb).mem_iff, List.mem_map]

theorem next_pooled : Pooled C.cluster C.pool b₂.store := by
  refine ⟨b₂.reachable, C.pooled.named, ?_⟩
  intro h hh
  obtain ⟨x, hx, rfl⟩ := (next_mem hrel hdb).1 hh
  exact ((hrel.clear.tracks.listed x hx).2.cluster).trans (C.pooled.own x hx)

theorem next_pool : ∃ np, b₂.db.nodePools[ckey C.cluster C.pool]? = some np ∧
    np.replicas = C.np.replicas := by
  obtain ⟨np, hnp, hreplicas⟩ := hrel.clear.around.pool
  rw [hdb]
  rcases hrel.cut.nodePools with hsame | ⟨-, np', rev, hnp', hput⟩
  · exact ⟨np, by rw [hsame]; exact hnp, hreplicas⟩
  · cases hnp.symm.trans hnp'
    refine ⟨dropped np v.addr rev, ?_, hreplicas⟩
    rw [hput, Bucket.get_insert, if_pos rfl]

theorem next_cluster : b₂.db.clusters = C.start.db.clusters := by
  rw [hdb]
  exact congrArg Prod.fst (hrel.cut.beside.trans hrel.clear.around.beside)

theorem next_idle : ∀ h ∈ b₂.store.listHosts C.cluster C.pool,
    h.state ≠ .provisioning ∧ h.state ≠ .failed := by
  intro h hh
  obtain ⟨x, hx, rfl⟩ := (next_mem hrel hdb).1 hh
  exact hrel.clear.idle x hx

theorem next_ready :
    (b₂.store.listHosts C.cluster C.pool).countP (·.state = .ready) = C.ready s₁.db :=
  (next_perm hrel hdb).countP_eq _

/-- The victim of the first pass is still READY. -/
theorem next_victim : v ∈ b₂.store.listHosts C.cluster C.pool ∧ v.state = .ready := by
  obtain ⟨hmem, hready, -⟩ := victimOf_some hrel.victim
  exact ⟨(next_mem hrel hdb).2 ⟨v, hmem, now_of_get (hrel.clear.stored hmem (by simp [hready]))⟩, hready⟩

/-- The next pass has a victim. -/
theorem exists_victim : ∃ w, victimOf (b₂.store.listHosts C.cluster C.pool) = some w := by
  obtain ⟨hmem, hready⟩ := next_victim hrel hdb
  have hspec := victimOf_spec (b₂.store.listHosts C.cluster C.pool)
  cases hw : victimOf (b₂.store.listHosts C.cluster C.pool) with
  | none =>
    rw [hw] at hspec
    exact absurd hready (hspec v hmem)
  | some w => exact ⟨w, rfl⟩

/-- The victim of the next pass is the one of the first exactly when every host that the first pass has
bound has a higher MAC. -/
theorem same_victim_iff {w : Host} (hw : victimOf (b₂.store.listHosts C.cluster C.pool) = some w) :
    w = v ↔ ∀ h ∈ C.hosts, h.state = .provisioning → v.mac < h.mac := by
  obtain ⟨hmem, hready, hlowest⟩ := victimOf_some hrel.victim
  obtain ⟨hwmem, hwready, hwlowest⟩ := victimOf_some hw
  constructor
  · rintro rfl h hh hst
    -- it was bound, so it is a candidate now
    have hnow : (C.cur s₁.db h).state = .ready := by
      have hidle := hrel.clear.idle h hh
      have hfate := hrel.clear.fates h hh
      generalize C.cur s₁.db h = h' at hidle hfate
      cases hfate with
      | settled hne => exact absurd hst hne
      | joined => rfl
      | expired => exact absurd rfl hidle.2
      | waiting => exact absurd hst hidle.1
    have hmac : (C.cur s₁.db h).mac = h.mac := (hrel.clear.tracks.listed h hh).2.mac
    have hle := hwlowest _ ((next_mem hrel hdb).2 ⟨h, hh, rfl⟩) hnow
    rw [hmac] at hle
    refine String.not_le.1 fun hge => ?_
    have hsame := C.pooled.eq_of_mac hmem hh (String.le_antisymm hle hge)
    rw [hsame, hst] at hready
    cases hready
  · intro hfirst
    obtain ⟨x, hx, rfl⟩ := (next_mem hrel hdb).1 hwmem
    have hmac : (C.cur s₁.db x).mac = x.mac := (hrel.clear.tracks.listed x hx).2.mac
    obtain ⟨hvmem, -⟩ := next_victim hrel hdb
    have hle := hwlowest v hvmem hready
    rw [hmac] at hle
    by_cases hst : x.state = .provisioning
    · exact absurd (hfirst x hx hst) (String.not_lt.2 hle)
    · have hstill : C.cur s₁.db x = x := now_of_get (hrel.clear.stored hx hst)
      rw [hstill] at hwready ⊢
      exact C.pooled.eq_of_mac hx hmem (String.le_antisymm hle (hlowest x hx hwready))

/-- The next pass releases its victim. -/
theorem next_released (hC : C.Enabled) (hquiet : b₂.log = []) {w : Host}
    (hw : victimOf (b₂.store.listHosts C.cluster C.pool) = some w) :
    (C.reconciler.reconcilePool C.cluster C.pool).Ensures (handles (.steady C.nodes))
      (fun res b' => res = .ok () ∧ SolePass.Released C.cluster C.pool w b.db b'.db ∧
        b'.log.map Prod.fst = releaseOps C.reconciler C.cluster C.nodes w) b₂ := by
  obtain ⟨np, hnp, hreplicas⟩ := next_pool hrel hdb
  obtain ⟨cl, hcl, hen⟩ := hC.enabled
  have hcl2 : b₂.db.clusters[C.cluster]? = some cl := by
    rw [next_cluster hrel hdb]
    exact hcl
  have hpositive : np.replicas ≠ 0 := by
    rw [hreplicas]
    exact Nat.ne_of_gt hC.positive
  let S : Setting := ⟨.steady C.nodes, C.reconciler, C.cluster, C.pool, b₂.store, np, next_pooled hrel hdb,
    C.named⟩
  apply Program.Stays.ensures (I := fun _ => True)
  apply reconcilePool_stays C.reconciler trivial
  · exact fun hzero => absurd (hzero cl np hcl2 hen hnp) hpositive
  intro cl' np' seen _ _ hnp' _
  cases hnp.symm.trans hnp'
  apply S.lists_stays rfl trivial
  · exact fun e msg hrep => absurd hrep (by rintro ⟨⟩)
  intro nodes hnodes
  obtain rfl : nodes = C.nodes := Except.ok.inj hnodes
  let D : Course := { S with nodes := C.nodes, listed := rfl }
  have hsurplus : D.np.replicas < D.hosts.countP (·.state = .ready) := by
    show np.replicas < (b₂.store.listHosts C.cluster C.pool).countP (·.state = .ready)
    rw [next_ready hrel hdb, hreplicas]
    exact hrel.surplus
  have hidle : ∀ h ∈ D.hosts, h.state ≠ .provisioning ∧ h.state ≠ .failed :=
    next_idle (C := C) hrel hdb
  apply (Course.surplus_stays (C := D) rfl hquiet hnp hidle hsurplus hw).mono fun _ _ => trivial
  rintro (e | ⟨⟩) b' hb'
  · exact absurd hb'.1 (Outside.not_refuses_steady _)
  · refine ⟨rfl, ?_, ?_⟩
    · rw [← hdb]
      exact hb'.released
    · rw [hb'.log, Course.releaseLog, List.map_map]
      exact List.map_id _

end Next

/-! ## The point of interruption -/

section Cut

variable {r : ProvisionReconciler} {nodes : List NodeInfo} {s : Store} {tr : Trace medeaSig}
  {rest : Prog (Except String Unit)} {b : Bench} {op : Op} {s₁ : Store}

/-- Where a pass can be cut off, or stop with an error. -/
def AtCut (S : Setting) (b : Bench) : Prop :=
  b.log = [] ∨ ∃ C : Course, C.toSetting = S ∧ ((∃ h s₁, C.Staging h s₁ b) ∨ ∃ v s₁, C.Releasing v s₁ b)

theorem atCut_of_onTheWay {S : Setting} (h : S.OnTheWay b) : AtCut S b := by
  rcases h with hquiet | ⟨C, hC, hquiet | h⟩
  · exact Or.inl hquiet
  · exact Or.inl hquiet
  · exact Or.inr ⟨C, hC, h⟩

theorem atCut_of_stopped {S : Setting} (h : S.Stopped b) : AtCut S b := by
  rcases h with ⟨hquiet, -⟩ | ⟨C, hC, ⟨-, hmid⟩ | hthrough | h⟩
  · exact Or.inl hquiet
  · exact Or.inl hmid.quiet
  · exact Or.inl hthrough.quiet
  · exact Or.inr ⟨C, hC, h⟩

/-- A pass that has not come to its end, or only to an error. -/
theorem atCut_of_steps (hs : Pooled cluster pool s)
    (hsteps : (r.reconcilePool cluster pool).Steps tr rest)
    (hans : Answered (handles (.showing nodes)) ⟨s, hs.reachable, []⟩ tr b)
    (hcut : rest ≠ .done (.ok ())) : b.log = [] ∨ ∃ S : Setting, S.outside = .showing nodes ∧
      S.reconciler = r ∧ S.cluster = cluster ∧ S.pool = pool ∧ S.start = s ∧ S.Enabled ∧ AtCut S b := by
  let I (b : Bench) : Prop := b.log = [] ∨ ∃ S : Setting, S.outside = .showing nodes ∧
    S.reconciler = r ∧ S.cluster = cluster ∧ S.pool = pool ∧ S.start = s ∧ S.Enabled ∧ AtCut S b
  have hstays : (r.reconcilePool cluster pool).Stays (handles (.showing nodes)) I
      (Ends I fun _ _ => True) ⟨s, hs.reachable, []⟩ := by
    refine enabled_stays (b := ⟨s, hs.reachable, []⟩) (fun _ _ => hs) (Or.inl rfl) ?_ ?_
    · rintro (e | ⟨⟩)
      · exact Or.inl rfl
      · trivial
    · intro S ho hr hcluster hpool hstart hS cl hname
      have hstored : (⟨s, hs.reachable, []⟩ : Bench).db.nodePools[ckey S.cluster S.pool]? = some S.np := by
        show s.db.nodePools[_]? = _
        rw [← show S.start = s from hstart]
        exact hS.stored
      apply (Setting.reconcileHosts_stays hname hstart.symm rfl hstored).mono
      · exact fun b' h => Or.inr ⟨S, ho, hr, hcluster, hpool, hstart, hS, atCut_of_onTheWay h⟩
      · rintro (e | ⟨⟩) b' h
        · exact Or.inr ⟨S, ho, hr, hcluster, hpool, hstart, hS, atCut_of_stopped h⟩
        · trivial
  have hrest := hstays.steps hsteps hans
  cases rest with
  | done res =>
    cases res with
    | error e => exact hrest
    | ok u => exact absurd rfl hcut
  | request op next => exact hrest.1

/-- A pass that has begun to release a host and has not come to its end. -/
theorem releasing_of_cut (hs : Pooled cluster pool s)
    (hsteps : (r.reconcilePool cluster pool).Steps tr rest)
    (hans : Answered (handles (.showing nodes)) ⟨s, hs.reachable, []⟩ tr b)
    (hcut : rest ≠ .done (.ok ())) (hlog : (op, s₁) ∈ b.log) (hop : op.releases = true) :
    ∃ C : Course, C.reconciler = r ∧ C.cluster = cluster ∧ C.pool = pool ∧ C.start = s ∧
      C.nodes = nodes ∧ C.Enabled ∧ ∃ v, C.Releasing v s₁ b := by
  rcases atCut_of_steps hs hsteps hans hcut with hquiet | ⟨S, ho, hr, hcluster, hpool, hstart, hS, hb⟩
  · rw [hquiet] at hlog
    cases hlog
  rcases hb with hquiet | ⟨C, rfl, ⟨h, s2, hb⟩ | ⟨v, s2, hb⟩⟩
  · rw [hquiet] at hlog
    cases hlog
  · obtain ⟨profile, cfg, hstage⟩ := hb.log
    rw [hstage, List.mem_singleton] at hlog
    cases hlog
    cases hop
  · have hnodes : C.nodes = nodes := by
      have hlisted := C.listed
      rw [ho] at hlisted
      exact hlisted
    obtain ⟨op', -, heq⟩ := List.mem_map.1 (hb.log.2.subset hlog)
    obtain rfl : s2 = s₁ := congrArg Prod.snd heq
    exact ⟨C, hr, hcluster, hpool, hstart, hnodes, hS, v, hb⟩

end Cut

/-- A host cannot be freed and READY. -/
theorem victim_of_released {C : Course} {v w : Host} {s₁ : Store} {b : Bench} {db : DB}
    (hrel : C.Releasing v s₁ b) (hv : SolePass.Released C.cluster C.pool v s₁.db db)
    (hw : SolePass.Released C.cluster C.pool w b.db db) : w.mac = v.mac := by
  by_contra hne
  obtain ⟨hmem, hready, -⟩ := victimOf_some hrel.victim
  obtain ⟨h, rev, -, hfreed⟩ := hv.hosts
  obtain ⟨x, rev', -, hother⟩ := hw.hosts
  have hstored := hrel.clear.stored hmem (by simp [hready])
  have hkept : db.hosts[ckey C.cluster v.mac]? = some v := by
    rw [hother, Bucket.get_insert, if_neg fun heq => hne (ckey_right heq), hrel.cut.hosts]
    exact hstored
  rw [hfreed, Bucket.get_insert, if_pos rfl] at hkept
  have hstate := congrArg Host.state (Option.some.inj hkept)
  rw [hready] at hstate
  cases hstate

end ScaleIn

open SolePass ScaleIn in
/-- Let a pass over a pool with its own hosts be cut off, or end with an error, after it has begun to release
a host, and let `s₁` be stored when it began. The next pass that lists the same nodes, with no call failing,
releases the same victim and leaves the records of a release without interruption, exactly when every host
that was PROVISIONING at the start of the first pass has a higher MAC than the victim. -/
theorem scaleIn_resumes_iff {r : ProvisionReconciler} {cluster pool : String} {nodes : List NodeInfo}
    {s : Store} (hs : Pooled cluster pool s) {tr : Trace medeaSig} {rest : Prog (Except String Unit)}
    {b : Bench} (hsteps : (r.reconcilePool cluster pool).Steps tr rest)
    (hans : Answered (Bench.handles (.showing nodes)) ⟨s, hs.reachable, []⟩ tr b)
    (hcut : rest ≠ .done (.ok ())) {op : Op} {s₁ : Store} (hlog : (op, s₁) ∈ b.log)
    (hop : op.releases = true) :
    (∀ b₂ : Bench, b₂.db = b.db → b₂.log = [] →
      (r.reconcilePool cluster pool).Ensures (Bench.handles (.steady nodes))
        (Resumed r cluster pool nodes (s.listHosts cluster pool) s₁) b₂) ↔
      ∀ v, victimOf (s.listHosts cluster pool) = some v → ∀ h ∈ s.listHosts cluster pool,
        h.state = .provisioning → v.mac < h.mac := by
  obtain ⟨C, rfl, rfl, rfl, rfl, rfl, hC, v, hrel⟩ := releasing_of_cut hs hsteps hans hcut hlog hop
  have hvictim : victimOf (C.start.listHosts C.cluster C.pool) = some v := hrel.victim
  constructor
  · intro hall v' hv' h hh hst
    cases hvictim.symm.trans hv'
    let b₂ : Bench := { b with log := [] }
    have hdb : b₂.db = b.db := rfl
    obtain ⟨w, hw⟩ := exists_victim hrel hdb
    -- both victims were released, and only one host was
    obtain ⟨_, b', hresumed, -, hreleased, -⟩ :=
      (hall b₂ rfl rfl).meet (next_released hrel hdb hC rfl hw)
    obtain ⟨v', hv', -, hreleased'⟩ := hresumed.victim
    cases hvictim.symm.trans hv'
    have hmac := victim_of_released hrel hreleased' hreleased
    obtain ⟨hmem, -⟩ := next_victim hrel hdb
    have hsame := (next_pooled hrel hdb).eq_of_mac (victimOf_some hw).1 hmem hmac
    exact (same_victim_iff hrel hdb hw).1 hsame h hh hst
  · intro hfirst b₂ hdb hquiet
    obtain ⟨w, hw⟩ := exists_victim hrel hdb
    obtain rfl := (same_victim_iff hrel hdb hw).2 (hfirst v hvictim)
    apply (next_released hrel hdb hC hquiet hw).mono
    rintro res b' ⟨hok, hreleased, hops⟩
    have hfinal := hrel.cut.released hreleased
    refine ⟨hok, ⟨w, hvictim, hops, hfinal⟩, ?_⟩
    intro b1 hdb1 hlog1
    apply (uninterrupted_released hrel.clear hrel.surplus hvictim hdb1 hlog1).mono
    rintro res' b'' ⟨hok', hreleased'⟩
    exact ⟨hok', alike_of_released hreleased' hfinal⟩

namespace ScaleIn

/-- A worker with a number. -/
def worker (name addr : String) : NodeInfo := ⟨name, addr, "worker", "v1.30.0", true⟩

def workers : List NodeInfo := [worker "n1" "10.0.0.1", worker "n2" "10.0.0.2", worker "n3" "10.0.0.3"]

/-- A pool of one replica with two READY hosts, and one with a lower MAC in the given state. -/
def crowded (first : HostState) : Bench :=
  .after [.putClusterDesired Scene.cluster 0,
    .putNodePoolDesired { cluster := "c", name := "p", role := .worker, replicas := 1
                          members := ["10.0.0.2", "10.0.0.3"] } 0,
    .putHostDesired { cluster := "c", mac := "m1", pool := "p", state := first } 0,
    .putHostDesired { cluster := "c", mac := "m2", pool := "p", state := .ready, addr := "10.0.0.2" } 0,
    .putHostDesired { cluster := "c", mac := "m3", pool := "p", state := .ready, addr := "10.0.0.3" } 0,
    .putMachineDesired { cluster := "c", pool := "p", talosEndpoint := "10.0.0.2" } 0,
    .putMachineDesired { cluster := "c", pool := "p", talosEndpoint := "10.0.0.3" } 0]

/-- The pass over this pool. -/
def pass : Prog (Except String Unit) := (Bench.reconciler "c" "p").reconcilePool "c" "p"

/-- The pass is cut off after some operations. -/
def interrupted (first : HostState) (n : Nat) : Prog (Except String Unit) × Bench :=
  Bench.cut workers n pass (crowded first)

theorem exists_release (log : List (Op × Store)) (h : (log.any fun e => e.1.releases) = true) :
    ∃ op s₁, (op, s₁) ∈ log ∧ op.releases = true := by
  obtain ⟨⟨op, s₁⟩, hmem, hop⟩ := List.any_eq_true.1 h
  exact ⟨op, s₁, hmem, hop⟩

end ScaleIn

open SolePass ScaleIn in
/-- No host is in flight, and the process crashes when the machine is deleted. -/
theorem release_resumed : ∃ (s : Store) (hs : Pooled "c" "p" s) (tr : Trace medeaSig)
    (rest : Prog (Except String Unit)) (b : Bench) (op : Op) (s₁ : Store),
    (pass.Steps tr rest ∧ Answered (Bench.handles (.showing workers)) ⟨s, hs.reachable, []⟩ tr b ∧
      rest ≠ .done (.ok ()) ∧ (op, s₁) ∈ b.log ∧ op.releases = true) ∧
    (∀ b₂ : Bench, b₂.db = b.db → b₂.log = [] → pass.Ensures (Bench.handles (.steady workers))
      (Resumed (Bench.reconciler "c" "p") "c" "p" workers (s.listHosts "c" "p") s₁) b₂) ∧
    (b.store.listMachines "c" "").map (·.talosEndpoint) = ["10.0.0.3"] := by
  have hown : ∀ h ∈ (crowded .registered).store.listHosts "c" "p",
      h.cluster = "c" ∧ h.state ≠ .provisioning := by decide +kernel
  have hs : Pooled "c" "p" (crowded .registered).store :=
    ⟨(crowded .registered).reachable, by decide, fun h hh => (hown h hh).1⟩
  obtain ⟨tr, hsteps, hans⟩ := cut_steps workers 8 pass (crowded .registered)
  have hcut : (interrupted .registered 8).1 ≠ .done (.ok ()) :=
    Program.ne_done_of_pending (by decide +kernel) _
  obtain ⟨op, s₁, hlog, hop⟩ := exists_release (interrupted .registered 8).2.log (by decide +kernel)
  refine ⟨_, hs, tr, _, _, op, s₁, ⟨hsteps, hans, hcut, hlog, hop⟩, ?_, by decide +kernel⟩
  refine (scaleIn_resumes_iff hs hsteps hans hcut hlog hop).2 ?_
  exact fun v _ h hh hst => absurd hst (hown h hh).2

open SolePass ScaleIn in
/-- The first pass binds a node to `m1`, releases `m2`, and is cut off when the machine of `m2` is deleted.
The next pass, in which every call succeeds, releases `m1`; `m2` stays READY without a machine. -/
theorem another_host_released : ∃ (s : Store) (hs : Pooled "c" "p" s) (tr : Trace medeaSig)
    (rest : Prog (Except String Unit)) (b : Bench) (op : Op) (s₁ : Store) (b' : Bench),
    (pass.Steps tr rest ∧ Answered (Bench.handles (.showing workers)) ⟨s, hs.reachable, []⟩ tr b ∧
      rest ≠ .done (.ok ()) ∧ (op, s₁) ∈ b.log ∧ op.releases = true) ∧
    (victimOf (s.listHosts "c" "p")).map (·.mac) = some "m2" ∧
    pass.Yields (Bench.handles (.steady workers)) { b with log := [] } (.ok ()) b' ∧
    (b'.store.listHosts "c" "p").map (fun h => (h.mac, h.state)) =
      [("m1", .registered), ("m2", .ready), ("m3", .ready)] ∧
    (b'.store.listMachines "c" "").map (·.talosEndpoint) = ["10.0.0.3"] := by
  have hown : ∀ h ∈ (crowded .provisioning).store.listHosts "c" "p", h.cluster = "c" := by decide +kernel
  obtain ⟨tr, hsteps, hans⟩ := cut_steps workers 14 pass (crowded .provisioning)
  have hcut : (interrupted .provisioning 14).1 ≠ .done (.ok ()) :=
    Program.ne_done_of_pending (by decide +kernel) _
  obtain ⟨op, s₁, hlog, hop⟩ :=
    exists_release (interrupted .provisioning 14).2.log (by decide +kernel)
  refine ⟨_, ⟨(crowded .provisioning).reachable, by decide, hown⟩, tr, _, _, op, s₁, _,
    ⟨hsteps, hans, hcut, hlog, hop⟩, by decide +kernel, run_yields workers pass _, ?_⟩
  decide +kernel

end Medea
