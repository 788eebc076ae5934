import Medea.Provision.Reconciler

/-!
# Proof outlines for a provisioning pass

A pass over a pool reads the cluster, the pool, the hosts, the nodes and the machines, advances the
hosts one after the other, and then releases a host, stages one, or does neither. `Point` names the
places in between, `Outline` attaches an assertion to each of them, with the conditions to check: the
assertions survive interference and the operations that only look around, and each of the five pieces
that do something (bind a node, give up on a host, release one, publish a boot configuration, list the
hosts) leads from one assertion to the next.

`Outline.runOnce_keeps`: whoever has such an outline has a contract for whole passes of the executor.
-/

set_option autoImplicit false

namespace Medea

open Medea.Interaction ProvisionReconciler

/-- What a pass over a pool has read before it advances the hosts. -/
structure Round where
  cluster : String
  pool : String
  cl : Cluster
  np : NodePool
  hosts : List Host
  nodes : List NodeInfo

/-- The places in a pass. -/
inductive Point where
  /-- Between two pools, and after every error. -/
  | rest
  | entered (cluster : String)
  | opened (cluster pool : String)
  | listed (cluster pool : String) (hosts : List Host)
  | seen (cluster pool : String) (hosts : List Host) (nodes : List NodeInfo)
  /-- In the loop, with the hosts still to come. -/
  | advancing (R : Round) (todo : List Host) (count : HostCount)

/-- The operations that only look around: no write, no call on the provisioner, and not the listing of
the hosts, which begins the work on a pool. -/
def Op.quiet : Op → Bool
  | .store (.listHosts _ _) => false
  | .store op => !op.writes
  | .provisioner _ _ => false
  | _ => true

/-- The count after a host that is not in flight. -/
def HostCount.passed (count : HostCount) (h : Host) : HostCount :=
  match h.state with
  | .ready => { count with ready := count.ready + 1 }
  | .failed => { count with failed := count.failed + 1 }
  | _ => count

/-- The count after a node was bound. -/
def HostCount.bound (count : HostCount) (n : NodeInfo) : HostCount :=
  { count with claimed := n.internalIP :: count.claimed, ready := count.ready + 1 }

/-- Nothing is in flight and nothing has failed. -/
def HostCount.Clear (count : HostCount) : Prop := count.inflight = 0 ∧ count.failed = 0

/-- What holds at the end of a call: `E` after an error, `D` with a value. -/
def Ends {M α : Type} (E : M → Prop) (D : α → M → Prop) : Except String α → M → Prop
  | .error _, m => E m
  | .ok a, m => D a m

/-- An assertion for every place of a pass, and what has to be checked. -/
structure Outline {M : Type} (K : Contract medeaSig M) where
  holds : Point → M → Prop
  drift : ∀ {p m m'}, holds p m → K.drift m m' → holds p m'
  quiet : ∀ {p m} {op : Op} {r : op.Reply}, holds p m → op.quiet = true → K.admits m ⟨op, r⟩ →
    K.allows m ⟨op, r⟩ ∧ holds p (K.next m ⟨op, r⟩)
  rests : ∀ {p m}, holds p m → holds .rest m
  enters : ∀ {m c cl rev}, holds .rest m →
    K.admits m (ev (.store (.getCluster c)) (.ok (some cl, rev))) →
    cl.name = c ∧ holds (.entered c) (K.next m (ev (.store (.getCluster c)) (.ok (some cl, rev))))
  opens : ∀ {m c p np rev}, holds (.entered c) m →
    K.admits m (ev (.store (.getNodePool c p)) (.ok (some np, rev))) →
    holds (.opened c p) (K.next m (ev (.store (.getNodePool c p)) (.ok (some np, rev))))
  listHosts : ∀ {m c p rep}, holds (.opened c p) m →
    K.admits m (ev (.store (.listHosts c p)) rep) →
    K.allows m (ev (.store (.listHosts c p)) rep) ∧
      match rep with
      | .error _ => holds .rest (K.next m (ev (.store (.listHosts c p)) rep))
      | .ok hosts => holds (.listed c p hosts) (K.next m (ev (.store (.listHosts c p)) rep))
  listNodes : ∀ {m client c p hosts member nodes}, holds (.listed c p hosts) m → client.cluster = c →
    K.admits m (ev (.kube client member .listNodes) (.ok nodes)) →
    holds (.seen c p hosts nodes) (K.next m (ev (.kube client member .listNodes) (.ok nodes)))
  listMachines : ∀ {m} {R : Round} {ms}, holds (.seen R.cluster R.pool R.hosts R.nodes) m →
    K.admits m (ev (.store (.listMachines R.cluster "")) (.ok ms)) →
    holds (.advancing R R.hosts
        { claimed := ms.map (·.talosEndpoint) ++ (R.hosts.map (·.addr)).filter (· != "") })
      (K.next m (ev (.store (.listMachines R.cluster "")) (.ok ms)))
  skip : ∀ {m R h todo count}, holds (.advancing R (h :: todo) count) m → h.state ≠ .provisioning →
    holds (.advancing R todo (count.passed h)) m
  park : ∀ {m R h todo count}, holds (.advancing R (h :: todo) count) m → h.state = .provisioning →
    holds (.advancing R todo { count with inflight := count.inflight + 1 }) m
  bind : ∀ {m R h todo count n}, holds (.advancing R (h :: todo) count) m →
    h.state = .provisioning → newJoinedNode R.nodes count.claimed R.np.role = some n →
    (bind R.cluster R.pool h.mac n R.np.role).Keeps K
      (Ends (holds .rest) fun _ => holds (.advancing R todo (count.bound n))) m
  fail : ∀ {m R h todo count}, holds (.advancing R (h :: todo) count) m → h.state = .provisioning →
    (setHostState R.cluster h.mac .failed "provision timed out: node did not join").Keeps K
      (Ends (holds .rest) fun _ =>
        holds (.advancing R todo { count with failed := count.failed + 1 })) m
  release : ∀ {m R count v}, holds (.advancing R [] count) m → count.Clear →
    victimOf R.hosts = some v → (unstage R.cluster R.pool v).Keeps K (fun _ => holds .rest) m
  publish : ∀ {m R count h} (r : ProvisionReconciler) (schematic version : String) (cfg : Bytes),
    holds (.advancing R [] count) m → count.Clear → R.cl.name = R.cluster →
    pickAvailable R.hosts R.np.selector = some h →
    (r.publish R.cl h schematic version cfg).Keeps K (fun _ => holds .rest) m

namespace Outline

variable {M α β : Type} {K : Contract medeaSig M} (O : Outline K) {p : Point} {m : M}

/-- Stopping is possible everywhere. -/
theorem stop {a : α} (h : O.holds p m) :
    (Program.done a : Prog α).Keeps K (fun _ => O.holds .rest) m :=
  fun _ hm => O.rests (O.drift h hm)

/-- An operation that looks around, with what its answer tells. -/
theorem looks {Q : α → M → Prop} {op : Op} {next : op.Reply → Prog α} (h : O.holds p m)
    (hq : op.quiet = true) (hnext : ∀ m' r, O.holds p m' → K.admits m' ⟨op, r⟩ →
      O.holds p (K.next m' ⟨op, r⟩) → (next r).Keeps K Q (K.next m' ⟨op, r⟩)) :
    (call op >>= next).Keeps K Q m := by
  intro m' hm r hr
  have hp := O.drift h hm
  obtain ⟨hall, hp'⟩ := O.quiet hp hq hr
  exact ⟨hall, hnext m' r hp hr hp'⟩

/-- An operation that looks around, whatever it finds. -/
theorem passes {Q : α → M → Prop} {op : Op} {next : op.Reply → Prog α} (h : O.holds p m)
    (hq : op.quiet = true) (hnext : ∀ m' r, O.holds p m' → (next r).Keeps K Q m') :
    (call op >>= next).Keeps K Q m :=
  O.looks h hq fun _ r _ _ hp => hnext _ r hp

end Outline

/-! ## Reading and swapping

The rules for the calls that read a record, change it and swap it in: `A` holds before, `B` once the
record is read, and the contract has to allow the swap. -/

namespace ProvisionReconciler

variable {M : Type} {K : Contract medeaSig M} {A E D : M → Prop} {m : M} {cluster : String}

section Within

variable {allowed : Op → Prop} {mac pool : String}

theorem editHost_within {edit : Host → Host} (hget : allowed (.store (.getHost cluster mac)))
    (hput : ∀ h rev, allowed (.store (.putHostDesired (edit h) rev))) :
    (editHost cluster mac edit).Within (fun _ => True) allowed fun _ => True := by
  refine ⟨hget, ?_⟩
  rintro (e | ⟨_ | host, rev⟩) -
  · trivial
  · trivial
  refine ⟨hput host rev, ?_⟩
  rintro (e | rev') -
  · trivial
  · trivial

theorem editPool_within {edit : NodePool → Option NodePool}
    (hget : allowed (.store (.getNodePool cluster pool)))
    (hput : ∀ np rev, allowed (.store (.putNodePoolDesired np rev))) :
    (editPool cluster pool edit).Within (fun _ => True) allowed fun _ => True := by
  refine ⟨hget, ?_⟩
  rintro (e | ⟨_ | np, rev⟩) -
  · trivial
  · trivial
  dsimp only [Program.bind]
  cases edit np with
  | none => trivial
  | some np' =>
    refine ⟨hput np' rev, ?_⟩
    rintro (e | rev') -
    · trivial
    · trivial

/-- The operations of a release. -/
theorem unstage_within {victim : Host}
    (hunstage : allowed (.provisioner cluster (.unstage victim.mac)))
    (hdelete : allowed (.store (.deleteMachine cluster victim.addr)))
    (hpool : allowed (.store (.getNodePool cluster pool)))
    (hmembers : ∀ np rev, allowed (.store (.putNodePoolDesired np rev)))
    (hhost : allowed (.store (.getHost cluster victim.mac)))
    (hput : ∀ h rev, h.state = .registered → allowed (.store (.putHostDesired h rev))) :
    (unstage cluster pool victim).Within (fun _ => True) allowed fun _ => True := by
  have hrelease : (releaseHost cluster victim.mac).Within (fun _ => True) allowed fun _ => True :=
    editHost_within hhost fun _ rev => hput _ rev rfl
  refine ⟨hunstage, ?_⟩
  rintro (e | ⟨⟩) -
  · trivial
  show (forget _ _ _ _).Within _ _ _
  rw [forget]
  split_ifs
  · refine ⟨hdelete, ?_⟩
    rintro (e | ⟨⟩) -
    · trivial
    refine Program.Within.bind (p := removeMember cluster pool victim.addr)
      (editPool_within hpool hmembers) ?_
    rintro (e | ⟨⟩) -
    · trivial
    · exact hrelease
  · exact hrelease

end Within

section Hosts

variable {mac : String} {B : Host → Nat → M → Prop}
  (hA : ∀ {m m'}, A m → K.drift m m' → A m')
  (hB : ∀ {h rev m m'}, B h rev m → K.drift m m' → B h rev m')
  (hE : ∀ {m m'}, E m → K.drift m m' → E m') (hD : ∀ {m m'}, D m → K.drift m m' → D m')
  (hget : ∀ {m} {rep : (Op.store (.getHost cluster mac)).Reply}, A m →
    K.admits m (ev (.store (.getHost cluster mac)) rep) →
    K.allows m (ev (.store (.getHost cluster mac)) rep) ∧
      match rep with
      | .ok (some h, rev) => B h rev (K.next m (ev (.store (.getHost cluster mac)) rep))
      | _ => E (K.next m (ev (.store (.getHost cluster mac)) rep)))
include hA hB hE hD hget

theorem editHost_keeps {edit : Host → Host}
    (hput : ∀ {m h rev} {rep : (Op.store (.putHostDesired (edit h) rev)).Reply}, B h rev m →
      K.admits m (ev (.store (.putHostDesired (edit h) rev)) rep) →
      K.allows m (ev (.store (.putHostDesired (edit h) rev)) rep) ∧
        match rep with
        | .ok _ => D (K.next m (ev (.store (.putHostDesired (edit h) rev)) rep))
        | .error _ => E (K.next m (ev (.store (.putHostDesired (edit h) rev)) rep)))
    (h : A m) : (editHost cluster mac edit).Keeps K (Ends E fun _ => D) m := by
  intro m1 hm1 rep hrep
  obtain ⟨hall, hread⟩ := hget (hA h hm1) hrep
  refine ⟨hall, ?_⟩
  rcases rep with e | ⟨_ | host, rev⟩
  · exact fun _ hm => hE hread hm
  · exact fun _ hm => hE hread hm
  intro m2 hm2 rep hrep
  obtain ⟨hall, hwritten⟩ := hput (hB hread hm2) hrep
  refine ⟨hall, ?_⟩
  cases rep with
  | error e => exact fun _ hm => hE hwritten hm
  | ok rev' => exact fun _ hm => hD hwritten hm

theorem startProvisioning_keeps
    (hnow : ∀ {m h rev} {t : Nat}, B h rev m → K.admits m (ev .now t) →
      K.allows m (ev .now t) ∧ B h rev (K.next m (ev .now t)))
    (hput : ∀ {m h h' rev} {rep : (Op.store (.putHostDesired h' rev)).Reply}, B h rev m →
      (∃ msg started, h' = { h with
        state := .provisioning, message := msg, provisioningStartedAt := started }) →
      K.admits m (ev (.store (.putHostDesired h' rev)) rep) →
      K.allows m (ev (.store (.putHostDesired h' rev)) rep) ∧
        match rep with
        | .ok _ => D (K.next m (ev (.store (.putHostDesired h' rev)) rep))
        | .error _ => E (K.next m (ev (.store (.putHostDesired h' rev)) rep)))
    (h : A m) : (startProvisioning cluster mac).Keeps K (Ends E fun _ => D) m := by
  intro m1 hm1 rep hrep
  obtain ⟨hall, hread⟩ := hget (hA h hm1) hrep
  refine ⟨hall, ?_⟩
  rcases rep with e | ⟨_ | host, rev⟩
  · exact fun _ hm => hE hread hm
  · exact fun _ hm => hE hread hm
  intro m2 hm2 now hnow'
  obtain ⟨hall, hread'⟩ := hnow (hB hread hm2) hnow'
  refine ⟨hall, ?_⟩
  intro m3 hm3 rep hrep
  obtain ⟨hall, hwritten⟩ := hput (hB hread' hm3) ⟨_, _, rfl⟩ hrep
  refine ⟨hall, ?_⟩
  cases rep with
  | error e => exact fun _ hm => hE hwritten hm
  | ok rev' => exact fun _ hm => hD hwritten hm

end Hosts

end ProvisionReconciler

namespace Outline

variable {M α β : Type} {K : Contract medeaSig M} (O : Outline K) {p : Point} {m : M}

/-! ## Functions of the reconciler -/

section Reconciler

variable (r : ProvisionReconciler) {R : Round} {count : HostCount}

theorem timedOut_keeps (h : O.holds p m) (host : Host) :
    (r.timedOut host).Keeps K (fun _ => O.holds p) m := by
  rw [timedOut]
  split
  · exact fun _ hm => O.drift h hm
  · exact O.passes h rfl fun _ _ hp _ hm => O.drift hp hm

/-- One host of the loop. -/
theorem advanceHost_keeps {host : Host} {todo : List Host}
    (h : O.holds (.advancing R (host :: todo) count) m) :
    (r.advanceHost R.cluster R.pool R.np R.nodes count host).Keeps K
      (Ends (O.holds .rest) fun count => O.holds (.advancing R todo count)) m := by
  have hskip : host.state ≠ .provisioning →
      (Program.done (.ok (count.passed host)) : Prog (Except String HostCount)).Keeps K
        (Ends (O.holds .rest) fun count => O.holds (.advancing R todo count)) m :=
    fun hne _ hm => O.skip (O.drift h hm) hne
  rw [advanceHost]
  cases hs : host.state with
  | ready | failed | unspecified | registered | allocated | deprovisioning =>
    simp only [HostCount.passed, hs] at hskip
    exact hskip (by simp)
  | provisioning =>
    dsimp only
    cases hn : newJoinedNode R.nodes count.claimed R.np.role with
    | some n =>
      refine (O.bind h hs hn).bind ?_
      rintro (e | ⟨⟩) m' hm'
      · exact fun _ hm => O.drift hm' hm
      · exact fun _ hm => O.drift hm' hm
    | none =>
      refine (O.timedOut_keeps r h host).bind ?_
      rintro (_ | _) m' hm'
      · exact fun _ hm => O.drift (O.park hm' hs) hm
      · refine (O.fail hm' hs).bind ?_
        rintro (e | ⟨⟩) m'' hm''
        · exact fun _ hm => O.drift hm'' hm
        · exact fun _ hm => O.drift hm'' hm

/-- The whole loop. -/
theorem advanceHosts_keeps {todo : List Host} (h : O.holds (.advancing R todo count) m) :
    (r.advanceHosts R.cluster R.pool R.np R.nodes todo count).Keeps K
      (Ends (O.holds .rest) fun count => O.holds (.advancing R [] count)) m := by
  induction todo generalizing count m with
  | nil => exact fun _ hm => O.drift h hm
  | cons host todo ih =>
    refine (O.advanceHost_keeps r h).bind ?_
    rintro (e | count') m' hm'
    · exact fun _ hm => O.drift hm' hm
    · exact ih hm'

theorem scaleIn_keeps (h : O.holds (.advancing R [] count) m) (hclear : count.Clear) :
    (r.scaleIn R.cluster R.pool R.hosts R.nodes).Keeps K (fun _ => O.holds .rest) m := by
  rw [scaleIn]
  cases hv : victimOf R.hosts with
  | none => exact O.stop h
  | some v =>
    dsimp only
    split
    · refine O.passes h rfl ?_
      rintro m' (e | ⟨⟩) hm'
      · exact O.stop hm'
      · exact O.release hm' hclear hv
    · exact O.release h hclear hv

theorem secretsFor_keeps (h : O.holds p m) (cluster : String) :
    (secretsFor cluster).Keeps K (fun _ => O.holds p) m := by
  refine O.passes h rfl ?_
  rintro m' (e | raw) hm'
  · exact fun _ hm => O.drift hm' hm
  · refine O.passes hm' rfl ?_
    rintro m'' (e | bundle) hm''
    · exact fun _ hm => O.drift hm'' hm
    · exact fun _ hm => O.drift hm'' hm

theorem renderWorkerConfig_keeps (h : O.holds p m) (name endpoint version disk image : String)
    (secrets : Bytes) :
    (renderWorkerConfig name endpoint version disk image secrets).Keeps K
      (fun _ => O.holds p) m := by
  rw [renderWorkerConfig]
  split
  · exact fun _ hm => O.drift h hm
  · intro m' hm rep hr
    obtain ⟨hall, hp⟩ := O.quiet (O.drift h hm) rfl hr
    exact ⟨hall, fun _ hm' => O.drift hp hm'⟩

theorem stage_keeps {host : Host} (h : O.holds (.advancing R [] count) m) (hclear : count.Clear)
    (hname : R.cl.name = R.cluster) (hpick : pickAvailable R.hosts R.np.selector = some host) :
    (r.stage R.cl R.np host).Keeps K (fun _ => O.holds .rest) m := by
  rw [stage]
  split
  · exact O.stop h
  refine O.passes h rfl ?_
  rintro m1 (e | schematic) h1
  · exact O.stop h1
  refine (O.secretsFor_keeps h1 _).bind ?_
  rintro (e | bundle) m2 h2
  · exact O.stop h2
  refine (O.renderWorkerConfig_keeps h2 _ _ _ _ _ _).bind ?_
  rintro (e | cfg) m3 h3
  · exact O.stop h3
  exact O.publish r _ _ cfg h3 hclear hname hpick

theorem converge_keeps (h : O.holds (.advancing R [] count) m) (hname : R.cl.name = R.cluster) :
    (r.converge R.cluster R.pool R.cl R.np R.hosts R.nodes count).Keeps K
      (fun _ => O.holds .rest) m := by
  rw [converge]
  split_ifs with hfl hfa hmore hless
  · exact O.stop h
  · exact O.stop h
  · exact O.scaleIn_keeps r h ⟨by omega, by omega⟩
  · split
    next => exact O.stop h
    next host hpick => exact O.stage_keeps r h ⟨by omega, by omega⟩ hname hpick
  · exact O.stop h

theorem reconcileHosts_keeps {cluster pool : String} {cl : Cluster} (np : NodePool)
    (h : O.holds (.opened cluster pool) m) (hname : cl.name = cluster)
    (hclient : r.client.cluster = cluster) :
    (r.reconcileHosts cluster pool cl np).Keeps K (fun _ => O.holds .rest) m := by
  intro m0 hm0 rep hrep
  obtain ⟨hall, hlist⟩ := O.listHosts (O.drift h hm0) hrep
  refine ⟨hall, ?_⟩
  rcases rep with e | hosts
  · exact O.stop hlist
  refine O.looks hlist rfl ?_
  rintro m1 (e | nodes) h1 hadm1 hp1
  · exact O.stop hp1
  have hseen := O.listNodes h1 hclient hadm1
  refine Program.keeps_bind ?_
  refine O.looks hseen rfl ?_
  rintro m2 (e | ms) h2 hadm2 hp2
  · exact fun _ hm => O.stop (O.drift hp2 hm)
  have hloop := O.listMachines (R := ⟨cluster, pool, cl, np, hosts, nodes⟩) h2 hadm2
  intro m3 hm3
  refine (O.advanceHosts_keeps r (O.drift hloop hm3)).bind ?_
  rintro (e | count) m4 h4
  · exact O.stop h4
  · exact O.converge_keeps r h4 hname

theorem reconcilePool_keeps {cluster pool : String} (h : O.holds .rest m)
    (hclient : r.client.cluster = cluster) :
    (r.reconcilePool cluster pool).Keeps K (fun _ => O.holds .rest) m := by
  refine O.looks h rfl ?_
  rintro m1 (e | ⟨_ | cl, rev⟩) h1 hadm1 hp1
  · exact O.stop hp1
  · exact O.stop hp1
  obtain ⟨hname, hent⟩ := O.enters h1 hadm1
  dsimp only
  split_ifs
  · exact O.stop hp1
  refine O.looks hent rfl ?_
  rintro m2 (e | ⟨_ | np, rev'⟩) h2 hadm2 hp2
  · exact O.stop hp2
  · exact O.stop hp2
  have hopen := O.opens h2 hadm2
  dsimp only
  split_ifs
  · exact O.stop hp2
  · exact O.reconcileHosts_keeps r np hopen hname hclient

end Reconciler

/-! ## The executor -/

section Executor

variable (e : ProvisionExecutor)

theorem runPool_keeps (cl : Cluster) (np : NodePool) (h : O.holds .rest m) :
    (e.runPool cl np).Keeps K (fun _ => O.holds .rest) m := by
  rw [ProvisionExecutor.runPool]
  split
  · exact O.stop h
  refine O.passes h rfl ?_
  rintro m' (err | ⟨⟩) h'
  · exact O.stop h'
  · exact (O.reconcilePool_keeps (e.reconciler cl np) h' rfl).bind fun _ _ hm => O.stop hm

theorem forEach_keeps {body : α → Prog Unit}
    (hbody : ∀ a m, O.holds .rest m → (body a).Keeps K (fun _ => O.holds .rest) m) (as : List α)
    (h : O.holds .rest m) : (Program.forEach body as).Keeps K (fun _ => O.holds .rest) m := by
  induction as generalizing m with
  | nil => exact O.stop h
  | cons a as ih => exact (hbody a m h).bind fun _ _ hm => ih hm

theorem untilSome_keeps {body : α → Prog (Option β)}
    (hbody : ∀ a m, O.holds .rest m → (body a).Keeps K (fun _ => O.holds .rest) m) (as : List α)
    (h : O.holds .rest m) : (Program.untilSome body as).Keeps K (fun _ => O.holds .rest) m := by
  induction as generalizing m with
  | nil => exact O.stop h
  | cons a as ih =>
    refine (hbody a m h).bind ?_
    rintro (_ | b) m' hm'
    · exact ih hm'
    · exact O.stop hm'

theorem runCluster_keeps (cl : Cluster) (h : O.holds .rest m) :
    (e.runCluster cl).Keeps K (fun _ => O.holds .rest) m := by
  rw [ProvisionExecutor.runCluster]
  split
  · refine O.passes h rfl ?_
    rintro m' (err | pools) h'
    · exact O.stop h'
    · exact (O.forEach_keeps (fun np _ hm => O.runPool_keeps e cl np hm) pools h').bind fun _ _ hm => O.stop hm
  · exact O.stop h

/-- A whole pass of the executor keeps the contract and ends where it started. -/
theorem runOnce_keeps (h : O.holds .rest m) : e.runOnce.Keeps K (fun _ => O.holds .rest) m := by
  refine O.passes h rfl ?_
  rintro m' (err | clusters) h'
  · exact O.stop h'
  · exact O.untilSome_keeps (fun cl _ hm => O.runCluster_keeps e cl hm) clusters h'

end Executor

end Outline

end Medea
