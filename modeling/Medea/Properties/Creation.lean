import Medea.ControlPlane.Provisioning
import Medea.Properties.ClusterDeletion

/-!
# Creating a cluster

A confirmed `CreateCluster` looks for the cluster and for its bootstrap, registers the control-plane
host, and stores the bootstrap. These are four calls on the store, two of them writes, and the calls of
other clients fall in between. `Creation.Outline` attaches an assertion to each place of a call.

* `createCluster_atomic_iff`: a call that fails, or that is cut off between its writes, has changed no
  record or can be repeated, if and only if its host was not registered.
* `creation_has_one_winner`: of any number of calls for a new name with one and the same MAC at most one
  succeeds, its bootstrap is the one that is stored, and its host the only one of the cluster.
-/

set_option autoImplicit false
set_option maxRecDepth 100000

namespace Medea

open Medea.Interaction Medea.Versioned Server

/-- The bootstrap that a confirmed request arms. -/
def CreateClusterRequest.armed (req : CreateClusterRequest) : ClusterBootstrap :=
  { Server.requestedBootstrap req with message := "armed; awaiting the bootstrap executor" }

namespace Creation

/-! ## The places of a call -/

inductive Place where
  | checking
  | registered
  | armed
  | refused

/-- An assertion for every place of a confirmed call, and what has to be checked. -/
structure Outline {M : Type} (K : Contract medeaSig M) (req : CreateClusterRequest) where
  holds : Place → M → Prop
  drift : ∀ {p m m'}, holds p m → K.drift m m' → holds p m'
  refuse : ∀ {m}, holds .checking m → holds .refused m
  getCluster : ∀ {m rep}, holds .checking m →
    K.admits m (ev (.store (.getCluster req.name)) rep) →
    K.allows m (ev (.store (.getCluster req.name)) rep) ∧
      holds .checking (K.next m (ev (.store (.getCluster req.name)) rep))
  getBootstrap : ∀ {m rep}, holds .checking m →
    K.admits m (ev (.store (.getClusterBootstrap req.name)) rep) →
    K.allows m (ev (.store (.getClusterBootstrap req.name)) rep) ∧
      holds .checking (K.next m (ev (.store (.getClusterBootstrap req.name)) rep))
  putHost : ∀ {m rep}, holds .checking m →
    K.admits m (ev (.store (.putHostDesired (Server.controlPlaneHost req) 0)) rep) →
    K.allows m (ev (.store (.putHostDesired (Server.controlPlaneHost req) 0)) rep) ∧
      holds (if rep.isOk then .registered else .refused)
        (K.next m (ev (.store (.putHostDesired (Server.controlPlaneHost req) 0)) rep))
  putBootstrap : ∀ {m rep}, holds .registered m →
    K.admits m (ev (.store (.putClusterBootstrap req.armed)) rep) →
    K.allows m (ev (.store (.putClusterBootstrap req.armed)) rep) ∧
      holds (if rep.isOk then .armed else .refused)
        (K.next m (ev (.store (.putClusterBootstrap req.armed)) rep))

namespace Outline

variable {M : Type} {K : Contract medeaSig M} {req : CreateClusterRequest} (O : Outline K req) {m : M}

/-- What holds when the call returns. -/
def Returned : Except Status Response → M → Prop
  | .ok res, m => res = .bootstrap req.armed ∧ O.holds .armed m
  | .error _, m => O.holds .refused m

theorem refused_keeps {st : Status} (h : O.holds .refused m) :
    (Program.done (.error st) : Prog (Except Status Response)).Keeps K O.Returned m :=
  fun _ hd => O.drift h hd

/-- A confirmed call goes from place to place. -/
theorem createCluster_keeps (hconfirm : req.confirm = true) (h : O.holds .checking m) :
    (createCluster req).Keeps K O.Returned m := by
  rw [createCluster]
  split
  next => exact O.refused_keeps (O.refuse h)
  split
  next => exact O.refused_keeps (O.refuse h)
  -- the cluster
  intro m1 hd1 rep1 hadm1
  obtain ⟨hall1, h1⟩ := O.getCluster (O.drift h hd1) hadm1
  refine ⟨hall1, ?_⟩
  rcases rep1 with e | ⟨_ | cl, rev⟩
  · exact O.refused_keeps (O.refuse h1)
  swap
  · exact O.refused_keeps (O.refuse h1)
  -- its bootstrap
  intro m2 hd2 rep2 hadm2
  obtain ⟨hall2, h2⟩ := O.getBootstrap (O.drift h1 hd2) hadm2
  refine ⟨hall2, ?_⟩
  rcases rep2 with e | _ | cb
  · exact O.refused_keeps (O.refuse h2)
  swap
  · exact O.refused_keeps (O.refuse h2)
  simp only [orStatus, hconfirm, Bool.not_true, Bool.false_eq_true, if_false]
  -- the host
  intro m3 hd3 rep3 hadm3
  obtain ⟨hall3, h3⟩ := O.putHost (O.drift h2 hd3) hadm3
  refine ⟨hall3, ?_⟩
  rcases rep3 with e | rev
  · exact O.refused_keeps h3
  -- the bootstrap
  intro m4 hd4 rep4 hadm4
  obtain ⟨hall4, h4⟩ := O.putBootstrap (O.drift h3 hd4) hadm4
  refine ⟨hall4, ?_⟩
  rcases rep4 with e | u
  · exact O.refused_keeps h4
  · exact fun _ hd => ⟨rfl, O.drift h4 hd⟩

end Outline

/-! ## The writes -/

section Writes

variable {s : Store} {req : CreateClusterRequest}

/-- What registering the host does to the file. -/
theorem db_after_putHost {rev : Nat}
    (hfit : Ev.Fits s (ev (.store (.putHostDesired (controlPlaneHost req) 0)) (.ok rev))) :
    (Ev.after s (ev (.store (.putHostDesired (controlPlaneHost req) 0)) (.ok rev))).db =
      { s.db with
        hosts := s.db.hosts.insert (ckey req.name req.cpMac)
          { controlPlaneHost req with revision := s.db.revision + 1 }
        revision := s.db.revision + 1 } := by
  obtain ⟨db, hc, hdb⟩ := db_after_write rfl hfit
  cases hc
  exact hdb

/-- What storing the bootstrap does to the file. -/
theorem db_after_putBootstrap {u : Unit}
    (hfit : Ev.Fits s (ev (.store (.putClusterBootstrap req.armed)) (.ok u))) :
    (Ev.after s (ev (.store (.putClusterBootstrap req.armed)) (.ok u))).db =
      { s.db with
        bootstraps := s.db.bootstraps.insert req.name
          { req.armed with revision := s.db.revision + 1 }
        revision := s.db.revision + 1 } := by
  obtain ⟨db, hc, hdb⟩ := db_after_write rfl hfit
  cases hc
  exact hdb

/-- The host of a new cluster is registered only where there is none with its MAC. -/
theorem host_fresh {rev : Nat} (hs : s.Revisions)
    (hfit : Ev.Fits s (ev (.store (.putHostDesired (controlPlaneHost req) 0)) (.ok rev))) :
    s.db.hosts[ckey req.name req.cpMac]? = none := by
  obtain ⟨-, hexpects, -⟩ := CompareAndSwap.put_value
    (d := .host (controlPlaneHost req)) (Ev.Fits.ok hfit)
  rcases hexpects with ⟨hnone, -⟩ | ⟨v, hsome⟩
  · exact Option.map_eq_none_iff.1 hnone
  · -- no record has revision zero
    have hpos := (hs.range _ _ _ hsome).1
    omega

/-- Where the host is registered already, a confirmed call fails. -/
theorem createCluster_fails {h : Host} (hconfirm : req.confirm = true)
    (hk : s.db.hosts[ckey req.name req.cpMac]? = some h) (hrev : h.revision ≠ 0) :
    (createCluster req).Ensures Store.answers (fun res _ => ∃ st, res = .error st) s := by
  have hconflict : ¬(req.name = "" ∨ req.cpMac = "") →
      ((StoreOp.putHostDesired (controlPlaneHost req) 0).exec s).1 = .error .conflict := by
    intro hnames
    have hmatch : Store.matches? Store.hostTable s (ckey req.name req.cpMac) 0 = false := by
      simp [Store.matches?, Store.hostTable, hk, hrev]
    simp [StoreOp.exec, Store.putHostDesired, Store.putCAS, controlPlaneHost, hnames, hmatch]
  rw [createCluster]
  split
  next => exact ⟨_, rfl⟩
  next hfields =>
    split
    next => exact ⟨_, rfl⟩
    next =>
      apply Store.ensures_callStore
      simp only [StoreOp.exec]
      rcases s.getCluster req.name with ⟨_ | cl, rev⟩
      swap
      · exact ⟨_, rfl⟩
      simp only [orStatus]
      apply Store.ensures_callStore
      simp only [StoreOp.exec]
      cases s.getClusterBootstrap req.name with
      | some cb => exact ⟨_, rfl⟩
      | none =>
        simp only [hconfirm, Bool.not_true, Bool.false_eq_true, if_false]
        apply Store.ensures_callStore
        rw [hconflict fun h => hfields (h.imp_right fun h => Or.inr (Or.inl h))]
        exact ⟨_, rfl⟩

end Writes

/-! ## All or nothing -/

/-- The event has registered a host. -/
def registers : Ev → Bool
  | ⟨.store (.putHostDesired _ _), .ok _⟩ => true
  | _ => false

/-- A call that has failed, or whose process stops before the second write, and the store that is left
behind. -/
inductive CutShort (s : Store) : Prog (Except Status Response) → Store → Prop
  | failed (st : Status) : CutShort s (.done (.error st)) s
  | stopped (cb : ClusterBootstrap)
      (next : Except StoreError Unit → Prog (Except Status Response)) :
      CutShort s (.request (.store (.putClusterBootstrap cb)) next) s.open

/-- The records are those from before the call, or the same request succeeds now. -/
def AllOrNothing (req : CreateClusterRequest) (s s' : Store) : Prop :=
  s'.db.entry = s.db.entry ∨ req.Succeeds s'

/-- The store, and whether the call has registered its host. -/
structure Progress where
  store : Store
  registered : Bool

/-- The host has been registered since the store was `s`. -/
structure Kept (req : CreateClusterRequest) (s : Store) (m : Progress) : Prop where
  registered : m.registered = true
  host : ∃ h, m.store.db.hosts[ckey req.name req.cpMac]? = some h ∧ h.revision = s.db.revision + 1

/-- A call that runs alone; its second write comes after its first. -/
def alone (req : CreateClusterRequest) (s : Store) : Contract medeaSig Progress :=
  .quiet (fun m e => Ev.Fits m.store e)
    (fun m e => ∀ cb, e.op = .store (.putClusterBootstrap cb) → Kept req s m)
    fun m e => ⟨Ev.after m.store e, m.registered || registers e⟩

section Alone

variable {s : Store} {req : CreateClusterRequest} {t : Trace medeaSig}
  {q : Prog (Except Status Response)}

def outlineAlone (req : CreateClusterRequest) (s : Store) : Outline (alone req s) req where
  holds
    | .checking, m => m = ⟨s, false⟩
    | .registered, m | .armed, m => Kept req s m
    | .refused, m => m = ⟨s, false⟩ ∨ Kept req s m
  drift h hd := hd ▸ h
  refuse h := Or.inl h
  getCluster {m rep} h _ := by
    subst h
    refine ⟨by rintro cb ⟨⟩, ?_⟩
    cases rep with
    | error e => rfl
    | ok v => rfl
  getBootstrap {m rep} h _ := by
    subst h
    refine ⟨by rintro cb ⟨⟩, ?_⟩
    cases rep with
    | error e => rfl
    | ok v => rfl
  putHost {m rep} h hadm := by
    subst h
    refine ⟨by rintro cb ⟨⟩, ?_⟩
    cases rep with
    | error e => exact Or.inl rfl
    | ok rev =>
      refine ⟨rfl, { Server.controlPlaneHost req with revision := s.db.revision + 1 }, ?_, rfl⟩
      have hdb := db_after_putHost hadm
      show (Ev.after s _).db.hosts[_]? = _
      rw [hdb, Bucket.get_insert, if_pos rfl]
  putBootstrap {m rep} h hadm := by
    refine ⟨fun _ _ => h, ?_⟩
    cases rep with
    | error e =>
      refine Or.inr ⟨?_, h.host⟩
      show (m.registered || _) = true
      rw [h.registered, Bool.true_or]
    | ok u =>
      refine ⟨?_, ?_⟩
      · show (m.registered || _) = true
        rw [h.registered, Bool.true_or]
      · have hdb := db_after_putBootstrap hadm
        show ∃ h, (Ev.after m.store _).db.hosts[_]? = some h ∧ _
        rw [hdb]
        exact h.host

theorem progress_foldl (t : Trace medeaSig) (m : Progress) :
    t.foldl (alone req s).next m = ⟨t.foldl Ev.after m.store, m.registered || t.any registers⟩ := by
  induction t generalizing m with
  | nil => simp
  | cons e t ih =>
    rw [List.foldl_cons, ih, List.foldl_cons, List.any_cons, ← Bool.or_assoc]
    rfl

/-- The trace of a call alone, as the outline sees it. -/
theorem along_progress {m : Progress} (h : Along Ev.after Ev.Fits m.store t) :
    Along (alone req s).next (alone req s).admits m t := by
  induction t generalizing m with
  | nil => trivial
  | cons e t ih => exact ⟨h.1, ih h.2⟩

/-- Where a call was cut short, it has either registered its host or done nothing. -/
theorem cutShort_cases {s' : Store} (hconfirm : req.confirm = true)
    (ht : (createCluster req).Steps t q) (hfit : Along Ev.after Ev.Fits s t)
    (hq : CutShort (t.foldl Ev.after s) q s') :
    (t.any registers = false ∧ s'.db = s.db) ∨
      (t.any registers = true ∧ ∃ h, s'.db.hosts[ckey req.name req.cpMac]? = some h ∧
        h.revision = s.db.revision + 1) := by
  have hkeeps := (outlineAlone req s).createCluster_keeps (m := ⟨s, false⟩) hconfirm rfl
  have hend := (hkeeps.steps ht (along_progress hfit)).2
  rw [progress_foldl, Bool.false_or] at hend
  cases hq with
  | failed st =>
    rcases hend.of_done with hnone | hkept
    · obtain ⟨hstore, hany⟩ := Progress.mk.inj hnone
      exact Or.inl ⟨hany, congrArg Store.db hstore⟩
    · exact Or.inr ⟨hkept.registered, hkept.host⟩
  | stopped cb next =>
    -- the second write may fail, so the contract speaks about it
    have hfail : (alone req s).admits ⟨t.foldl Ev.after s, t.any registers⟩
        (ev (.store (.putClusterBootstrap cb)) (.error (.other ""))) := Or.inr ⟨rfl, "", rfl⟩
    have hkept := (hend _ rfl (.error (.other "")) hfail).1 cb rfl
    exact Or.inr ⟨hkept.registered, hkept.host⟩

/-- A call that was cut short is all or nothing if and only if it has not registered its host. -/
theorem createCluster_atomic_iff {s : Store} (hs : s.Reachable) {req : CreateClusterRequest}
    (hconfirm : req.confirm = true) (ht : (Server.createCluster req).Steps t q)
    (hfit : Along Ev.after Ev.Fits s t) {s' : Store} (hq : CutShort (t.foldl Ev.after s) q s') :
    AllOrNothing req s s' ↔ ∀ e ∈ t, registers e = false := by
  have hcond : (∀ e ∈ t, registers e = false) ↔ t.any registers = false := by
    simp [List.any_eq_false]
  rw [hcond]
  rcases cutShort_cases hconfirm ht hfit hq with ⟨hany, hdb⟩ | ⟨hany, h, hk, hrev⟩
  · constructor
    · intro _
      exact hany
    · intro _
      exact Or.inl (congrArg DB.entry hdb)
  · rw [hany]
    constructor
    · rintro (hentry | hagain)
      · -- the revision of the host is new
        have hold := (congrFun hentry _).symm.trans (DB.entry_of_host hk)
        have hle := (hs.revisions.range _ _ _ hold).2
        omega
      · obtain ⟨res, _, ⟨cb, rfl⟩, st, hres⟩ :=
          hagain.meet (createCluster_fails hconfirm hk (by omega))
        cases hres
    · intro h
      cases h

/-- A request for cluster `c`. -/
def order : CreateClusterRequest where
  name := "c"
  cpMac := "m"
  cpEndpoint := "https://c:6443"
  cpIp := "10.0.0.1"
  talosVersion := "v1.7.0"
  kubernetesVersion := "v1.30.0"
  confirm := true

/-- The calls it makes, up to the first write. -/
def checks : Trace medeaSig :=
  [ev (.store (.getCluster "c")) (.ok (none, 0)),
    ev (.store (.getClusterBootstrap "c")) (.ok none)]

/-- The disk is full when the host is to be written. -/
theorem unregistered_all_or_nothing : AllOrNothing order {} {} := by
  let full : StoreError := .other "no space left on device"
  let t : Trace medeaSig :=
    checks ++ [ev (.store (.putHostDesired (controlPlaneHost order) 0)) (.error full)]
  have ht : (createCluster order).Steps t (.done (.error (mapErr full))) :=
    .head _ (.head _ (.head _ (.refl _)))
  have hfit : Along Ev.after Ev.Fits {} t :=
    ⟨Or.inl rfl, Or.inl rfl, Or.inr ⟨rfl, _, rfl⟩, trivial⟩
  exact (createCluster_atomic_iff ⟨[], trivial, rfl⟩ rfl ht hfit (.failed _)).2 (by decide)

/-- The disk is full when the bootstrap is to be written: the host stays registered, and is in the way
of every later attempt. -/
theorem registered_in_the_way :
    ∃ (t : Trace medeaSig) (q : Prog (Except Status Response)) (s' : Store),
      order.Valid ∧ ({} : Store).Reachable ∧ (Server.createCluster order).Steps t q ∧
      Along Ev.after Ev.Fits {} t ∧ CutShort (t.foldl Ev.after {}) q s' ∧ ¬AllOrNothing order {} s' := by
  let full : StoreError := .other "no space left on device"
  let t : Trace medeaSig :=
    checks ++ [ev (.store (.putHostDesired (controlPlaneHost order) 0)) (.ok 1),
      ev (.store (.putClusterBootstrap order.armed)) (.error full)]
  have ht : (createCluster order).Steps t (.done (.error (mapErr full))) :=
    .head _ (.head _ (.head _ (.head _ (.refl _))))
  have hfit : Along Ev.after Ev.Fits {} t :=
    ⟨Or.inl rfl, Or.inl rfl, Or.inl rfl, Or.inr ⟨rfl, _, rfl⟩, trivial⟩
  refine ⟨t, _, _, ⟨by decide, by decide, by decide, by decide, by decide, by decide, rfl⟩,
    ⟨[], trivial, rfl⟩, ht, hfit, .failed _, ?_⟩
  have hk : (t.foldl Ev.after {}).db.hosts[ckey "c" "m"]? =
      some { controlPlaneHost order with revision := 1 } := by decide +kernel
  rintro (hentry | hagain)
  · have hnone := (congrFun hentry _).symm.trans (DB.entry_of_host hk)
    exact absurd hnone (by decide +kernel)
  · obtain ⟨res, _, ⟨cb, rfl⟩, st, hres⟩ :=
      hagain.meet (createCluster_fails rfl hk (by decide))
    cases hres

end Alone

/-! ## One winner -/

/-- The client that was told of its success, with what it was told. -/
def winner : Lbl → Option (Who × Response)
  | .act i ⟨.respond (.ok res), _⟩ => some (i, res)
  | _ => none

/-- The client that was started on a request. -/
def entrant : Lbl → Option (Who × CreateClusterRequest)
  | .start i (.request (.createCluster req)) => some (i, req)
  | _ => none

/-- The store holds the bootstrap and the host of the request, and no other host of the cluster. -/
structure Settled (req : CreateClusterRequest) (s : Store) : Prop where
  bootstrap : ∃ r, s.db.bootstraps[req.name]? = some { req.armed with revision := r }
  host : ∃ r, s.db.hosts[ckey req.name req.cpMac]? =
    some { Server.controlPlaneHost req with revision := r }
  only : ∀ (k : String) (h : Host), s.db.hosts[k]? = some h → h.cluster = req.name →
    k = ckey req.name req.cpMac

/-- At most one call has succeeded, and what is stored is of that call. -/
structure OneWinner (ls : List Lbl) (s : Store) : Prop where
  unique : (ls.filterMap winner).length ≤ 1
  settled : ∀ i res, (i, res) ∈ ls.filterMap winner → ∃ req,
    (i, req) ∈ ls.filterMap entrant ∧ res = .bootstrap req.armed ∧ Settled req s

/-- How far the calls have come together. -/
inductive Stage where
  | free
  /-- A client has registered the host. -/
  | held (i : Who)
  /-- It has stored its bootstrap as well. -/
  | stored (i : Who) (cb : ClusterBootstrap)
  /-- It was told so. -/
  | told (i : Who) (cb : ClusterBootstrap)

structure Race where
  store : Store
  entrants : List (Who × CreateClusterRequest) := []
  winners : List (Who × Response) := []
  stage : Stage := .free

/-- The host with the given MAC is registered, and no other host of the cluster. -/
structure Registered (name mac : String) (hosts : Bucket Host) : Prop where
  host : ∃ r, hosts[ckey name mac]? =
    some { cluster := name, mac, pool := "controlplane", role := .controlplane, state := .registered
           revision := r }
  only : ∀ (k : String) (h : Host), hosts[k]? = some h → h.cluster = name → k = ckey name mac

namespace Race

/-- The stage after an event of a client. -/
def stageAfter (st : Stage) (i : Who) : Ev → Stage
  | ⟨.store (.putHostDesired _ _), .ok _⟩ => .held i
  | ⟨.store (.putClusterBootstrap cb), .ok _⟩ => .stored i cb
  | ⟨.respond (.ok (.bootstrap cb)), _⟩ => .told i cb
  | _ => st

def next (m : Race) (l : Lbl) : Race where
  store := match l with
    | .act _ e => Ev.after m.store e
    | .start _ _ => m.store
    | .crash => m.store.open
  entrants := m.entrants ++ (entrant l).toList
  winners := m.winners ++ (winner l).toList
  stage := match l with
    | .act i e => stageAfter m.stage i e
    | _ => m.stage

/-- A client has stored the bootstrap of its request. -/
structure Stored (name : String) (m : Race) (i : Who) (cb : ClusterBootstrap) : Prop where
  request : ∃ req, (i, req) ∈ m.entrants ∧ req.armed = cb
  bootstrap : ∃ r, m.store.db.bootstraps[name]? = some { cb with revision := r }

/-- What is stored, and who was told, at a stage. -/
def At (name mac : String) (m : Race) : Stage → Prop
  | .free => (∀ (k : String) (h : Host), m.store.db.hosts[k]? = some h → h.cluster ≠ name) ∧
      m.winners = []
  | .held _ => Registered name mac m.store.db.hosts ∧ m.winners = []
  | .stored i cb => Registered name mac m.store.db.hosts ∧ Stored name m i cb ∧ m.winners = []
  | .told i cb => Registered name mac m.store.db.hosts ∧ Stored name m i cb ∧
      m.winners = [(i, .bootstrap cb)]

structure Sound (name mac : String) (m : Race) : Prop where
  reachable : m.store.Reachable
  calls : ∀ i req, (i, req) ∈ m.entrants → req.name = name ∧ req.cpMac = mac
  stage : m.At name mac m.stage

/-- What a client may do. -/
inductive Allowed (name mac : String) (m : Race) (i : Who) : Ev → Prop
  | read (op : StoreOp) (rep : (Op.store op).Reply) : op.writes = false →
      Allowed name mac m i (ev (.store op) rep)
  | host (req : CreateClusterRequest) (rep : Except StoreError Nat) : req.name = name →
      req.cpMac = mac →
      Allowed name mac m i (ev (.store (.putHostDesired (Server.controlPlaneHost req) 0)) rep)
  | bootstrap (req : CreateClusterRequest) (rep : Except StoreError Unit) :
      (i, req) ∈ m.entrants → m.stage = .held i →
      Allowed name mac m i (ev (.store (.putClusterBootstrap req.armed)) rep)
  | refuse (st : Status) (u : Unit) : Allowed name mac m i (ev (.respond (.error st)) u)
  | succeed (cb : ClusterBootstrap) (u : Unit) : m.stage = .stored i cb →
      Allowed name mac m i (ev (.respond (.ok (.bootstrap cb))) u)

/-- Others leave a client the host it has registered and the bootstrap it has stored. -/
structure Leaves (i : Who) (m m' : Race) : Prop where
  entrants : ∀ e, e ∈ m.entrants → e ∈ m'.entrants
  held : m.stage = .held i → m'.stage = .held i
  stored : ∀ cb, m.stage = .stored i cb → m'.stage = .stored i cb

def contract (name mac : String) (i : Who) : Contract medeaSig Race where
  drift := Leaves i
  admits m e := Ev.Fits m.store e
  allows m e := Allowed name mac m i e
  next m e := m.next (.act i e)
  drift_refl _ := ⟨fun _ h => h, fun h => h, fun _ h => h⟩
  drift_trans h h' := ⟨fun e he => h'.entrants e (h.entrants e he), fun hs => h'.held (h.held hs),
    fun cb hs => h'.stored cb (h.stored cb hs)⟩

section Steps

variable {name mac : String} {m : Race} {i : Who} {req : CreateClusterRequest}

/-- A call of a client for the name and the MAC. -/
def outline (hname : req.name = name) (hmac : req.cpMac = mac) (i : Who) :
    Outline (contract name mac i) req where
  holds
    | .checking, m => (i, req) ∈ m.entrants
    | .registered, m => (i, req) ∈ m.entrants ∧ m.stage = .held i
    | .armed, m => m.stage = .stored i req.armed
    | .refused, _ => True
  drift {p m m'} h hd := by
    cases p with
    | checking => exact hd.entrants _ h
    | registered => exact ⟨hd.entrants _ h.1, hd.held h.2⟩
    | armed => exact hd.stored _ h
    | refused => trivial
  refuse _ := trivial
  getCluster h _ := ⟨.read _ _ rfl, List.mem_append_left _ h⟩
  getBootstrap h _ := ⟨.read _ _ rfl, List.mem_append_left _ h⟩
  putHost {m rep} h _ := by
    refine ⟨.host _ _ hname hmac, ?_⟩
    cases rep with
    | error e => trivial
    | ok rev => exact ⟨List.mem_append_left _ h, rfl⟩
  putBootstrap {m rep} h _ := by
    refine ⟨.bootstrap _ _ h.1 h.2, ?_⟩
    cases rep with
    | error e => trivial
    | ok u => rfl

/-- A call keeps to what its client may do. -/
theorem handle_keeps (server : Server) (hname : req.name = name) (hmac : req.cpMac = mac)
    (hconfirm : req.confirm = true) (h : (i, req) ∈ m.entrants) :
    (server.handle (.createCluster req)).Keeps (contract name mac i) (fun _ _ => True) m := by
  refine ((outline hname hmac i).createCluster_keeps hconfirm h).bind ?_
  intro res m1 hres m2 hd u _
  cases res with
  | error st => exact ⟨.refuse st u, fun _ _ => trivial⟩
  | ok res =>
    obtain ⟨rfl, harmed⟩ := hres
    exact ⟨.succeed _ u (hd.stored _ harmed), fun _ _ => trivial⟩

/-- What is known of a stage depends on two buckets and two lists. -/
theorem At.congr {m' : Race} {st : Stage} (h : m.At name mac st)
    (hhosts : m'.store.db.hosts = m.store.db.hosts)
    (hboots : m'.store.db.bootstraps = m.store.db.bootstraps)
    (hentrants : ∀ e, e ∈ m.entrants → e ∈ m'.entrants) (hwinners : m'.winners = m.winners) :
    m'.At name mac st := by
  have hstored : ∀ {i cb}, Stored name m i cb → Stored name m' i cb := by
    rintro i cb ⟨⟨req, hreq, harmed⟩, hboot⟩
    exact ⟨⟨req, hentrants _ hreq, harmed⟩, hboots ▸ hboot⟩
  cases st with
  | free | held => exact ⟨hhosts ▸ h.1, hwinners.trans h.2⟩
  | stored | told => exact ⟨hhosts ▸ h.1, hstored h.2.1, hwinners.trans h.2.2⟩

/-- An event that changes neither the records nor the stage. -/
theorem Sound.idle (h : m.Sound name mac) {e : Ev} (hfit : Ev.Fits m.store e)
    (hdb : (Ev.after m.store e).db = m.store.db) (hstage : stageAfter m.stage i e = m.stage)
    (hwinner : winner (.act i e) = none) :
    (m.next (.act i e)).Sound name mac ∧ ∀ j, j ≠ i → Leaves j m (m.next (.act i e)) := by
  have hentrants : (m.next (.act i e)).entrants = m.entrants := List.append_nil _
  have hwinners : (m.next (.act i e)).winners = m.winners := by
    simp only [next, hwinner, Option.toList_none, List.append_nil]
  have hstage' : (m.next (.act i e)).stage = m.stage := hstage
  refine ⟨⟨h.reachable.after hfit, hentrants ▸ h.calls, ?_⟩, ?_⟩
  · rw [hstage']
    exact h.stage.congr (congrArg DB.hosts hdb) (congrArg DB.bootstraps hdb)
      (fun e he => hentrants ▸ he) hwinners
  · intro j _
    exact ⟨fun e he => hentrants ▸ he, fun hs => hstage'.trans hs, fun cb hs => hstage'.trans hs⟩

/-- The host is registered only once. -/
theorem Sound.free (h : m.Sound name mac) (hname : req.name = name) (hmac : req.cpMac = mac)
    {rev : Nat}
    (hfit : Ev.Fits m.store (ev (.store (.putHostDesired (controlPlaneHost req) 0)) (.ok rev))) :
    m.stage = .free := by
  have hnone := host_fresh h.reachable.revisions hfit
  rw [hname, hmac] at hnone
  have hat := h.stage
  have hreg : Registered name mac m.store.db.hosts → m.stage = .free := by
    rintro ⟨⟨r, hhost⟩, -⟩
    rw [hnone] at hhost
    cases hhost
  cases hstage : m.stage with
  | free => rfl
  | held | stored | told =>
    rw [hstage] at hat hreg
    exact hreg hat.1

theorem Sound.putHost (h : m.Sound name mac) (hname : req.name = name) (hmac : req.cpMac = mac)
    {rev : Nat}
    (hfit : Ev.Fits m.store (ev (.store (.putHostDesired (controlPlaneHost req) 0)) (.ok rev))) :
    (m.next (.act i (ev (.store (.putHostDesired (controlPlaneHost req) 0)) (.ok rev)))).Sound
      name mac := by
  have hfree := h.free hname hmac hfit
  have hat := h.stage
  rw [hfree] at hat
  refine ⟨h.reachable.after hfit, fun j req' hreq => h.calls j req' ?_, ?_, ?_⟩
  · rwa [← List.append_nil m.entrants]
  · show Registered name mac (Ev.after m.store _).db.hosts
    rw [db_after_putHost hfit]
    subst hname hmac
    refine ⟨⟨m.store.db.revision + 1, ?_⟩, ?_⟩
    · exact (Bucket.get_insert ..).trans (if_pos rfl)
    · intro k h' hk hcluster
      have hk' := (Bucket.get_insert ..).symm.trans hk
      by_cases heq : ckey req.name req.cpMac = k
      · exact heq.symm
      · rw [if_neg heq] at hk'
        exact absurd hcluster (hat.1 k h' hk')
  · exact (List.append_nil _).trans hat.2

theorem Sound.putBootstrap (h : m.Sound name mac) (hreq : (i, req) ∈ m.entrants)
    (hheld : m.stage = .held i) {u : Unit}
    (hfit : Ev.Fits m.store (ev (.store (.putClusterBootstrap req.armed)) (.ok u))) :
    (m.next (.act i (ev (.store (.putClusterBootstrap req.armed)) (.ok u)))).Sound name mac := by
  have hat := h.stage
  rw [hheld] at hat
  obtain ⟨hname, -⟩ := h.calls i req hreq
  refine ⟨h.reachable.after hfit, fun j req' hreq => h.calls j req' ?_, ?_, ⟨?_, ?_⟩, ?_⟩
  · rwa [← List.append_nil m.entrants]
  · show Registered name mac (Ev.after m.store _).db.hosts
    rw [db_after_putBootstrap hfit]
    exact hat.1
  · exact ⟨req, List.mem_append_left _ hreq, rfl⟩
  · refine ⟨m.store.db.revision + 1, ?_⟩
    show (Ev.after m.store _).db.bootstraps[name]? = _
    rw [db_after_putBootstrap hfit, ← hname]
    exact (Bucket.get_insert ..).trans (if_pos rfl)
  · exact (List.append_nil _).trans hat.2

/-- One event of a client: what is stored stays in step with the stage, and the other clients keep
what they have. -/
theorem Allowed.sound {e : Ev} (hall : m.Allowed name mac i e) (h : m.Sound name mac)
    (hfit : Ev.Fits m.store e) :
    (m.next (.act i e)).Sound name mac ∧ ∀ j, j ≠ i → Leaves j m (m.next (.act i e)) := by
  cases hall with
  | read op rep hread =>
    have hstage : stageAfter m.stage i (ev (.store op) rep) = m.stage := by
      cases op <;> first | rfl | cases hread
    exact h.idle hfit (db_after_read hread rep) hstage rfl
  | refuse st u => exact h.idle hfit rfl rfl rfl
  | host req rep hname hmac =>
    cases rep with
    | error e => exact h.idle hfit rfl rfl rfl
    | ok rev =>
      refine ⟨h.putHost hname hmac hfit, fun j _ => ⟨?_, ?_, ?_⟩⟩
      · exact fun e he => List.mem_append_left _ he
      · rw [h.free hname hmac hfit]
        exact nofun
      · rw [h.free hname hmac hfit]
        exact nofun
  | bootstrap req rep hreq hheld =>
    cases rep with
    | error e => exact h.idle hfit rfl rfl rfl
    | ok u =>
      refine ⟨h.putBootstrap hreq hheld hfit, fun j hj => ⟨?_, ?_, ?_⟩⟩
      · exact fun e he => List.mem_append_left _ he
      · rw [hheld]
        rintro ⟨⟩
        exact absurd rfl hj
      · rw [hheld]
        exact nofun
  | succeed cb u hstored =>
    have hat := h.stage
    rw [hstored] at hat
    obtain ⟨hreg, ⟨⟨req, hreq, harmed⟩, hboot⟩, hnone⟩ := hat
    refine ⟨⟨h.reachable, fun j req' hreq => h.calls j req' ?_, hreg, ⟨⟨req, ?_, harmed⟩, hboot⟩, ?_⟩,
      fun j hj => ⟨?_, ?_, ?_⟩⟩
    · rwa [← List.append_nil m.entrants]
    · exact List.mem_append_left _ hreq
    · show m.winners ++ _ = _
      rw [hnone]
      rfl
    · exact fun e he => List.mem_append_left _ he
    · rw [hstored]
      exact nofun
    · rw [hstored]
      rintro cb' ⟨⟩
      exact absurd rfl hj

end Steps

/-! ## Runs of calls -/

/-- The label starts nothing but calls for the name and the MAC. -/
def calls (name mac : String) : Lbl → Bool
  | .start _ (.request (.createCluster req)) => req.name == name && req.cpMac == mac && req.confirm
  | .start _ _ => false
  | _ => true

theorem request_of_calls {name mac : String} {i : Who} {t : Task}
    (h : calls name mac (.start i t) = true) : ∃ req, t = .request (.createCluster req) ∧
      req.name = name ∧ req.cpMac = mac ∧ req.confirm = true := by
  unfold calls at h
  split at h
  next req heq =>
    cases heq
    simp only [Bool.and_eq_true, beq_iff_eq] at h
    exact ⟨req, rfl, h.1.1, h.1.2, h.2⟩
  next => cases h
  next hne => exact absurd rfl (hne i t)

def supervision (cfg : Settings) (name mac : String) : Supervision (controlPlane cfg) Race where
  contract := contract name mac
  mark := next
  assumes _ l := calls name mac l = true
  rel w m := w.store = m.store ∧ m.Sound name mac
  idle _ _ := True
  idle_drift _ _ := trivial
  admits {i e w w' m} _ hrel hw := by
    obtain ⟨hfit, -⟩ := World.handles_event hw
    rw [hrel.1] at hfit
    exact hfit
  act {i e w w' m} _ hrel hw hall := by
    obtain ⟨hfit, hstore⟩ := World.handles_event hw
    rw [hrel.1] at hfit hstore
    obtain ⟨hsound, hleaves⟩ := Allowed.sound hall hrel.2 hfit
    exact ⟨⟨hstore, hsound⟩, hleaves⟩
  start {i t w m} _ hass hrel _ := by
    obtain ⟨req, rfl, hname, hmac, hconfirm⟩ := request_of_calls hass
    let l : Lbl := .start i (.request (.createCluster req))
    have hsub : ∀ e, e ∈ m.entrants → e ∈ (m.next l).entrants :=
      fun e he => List.mem_append_left _ he
    have hmem : (i, req) ∈ (m.next l).entrants :=
      List.mem_append_right _ (List.mem_singleton_self _)
    refine ⟨⟨hrel.1, hrel.2.reachable, ?_, ?_⟩, ?_, ?_⟩
    · intro j req' hreq'
      rcases List.mem_append.1 hreq' with hold | hnew
      · exact hrel.2.calls j req' hold
      · cases List.mem_singleton.1 hnew
        exact ⟨hname, hmac⟩
    · exact hrel.2.stage.congr rfl rfl hsub (List.append_nil _)
    · exact handle_keeps cfg.server hname hmac hconfirm hmem
    · exact fun j _ => ⟨hsub, fun h => h, fun _ h => h⟩
  crash {w m} _ hrel := by
    refine ⟨⟨congrArg Store.open hrel.1, hrel.2.reachable.reopen, fun j req hreq => ?_, ?_⟩,
      fun _ => trivial⟩
    · exact hrel.2.calls j req (by rwa [← List.append_nil m.entrants])
    · exact hrel.2.stage.congr rfl rfl (fun e he => List.mem_append_left _ he) (List.append_nil _)

theorem track_eq {cfg : Settings} {name mac : String} (m : Race) (l : Lbl) :
    (supervision cfg name mac).track m l = m.next l := by
  cases l <;> rfl

/-- The lists of a run. -/
theorem foldl_next (ls : List Lbl) (m : Race) :
    (ls.foldl next m).entrants = m.entrants ++ ls.filterMap entrant ∧
      (ls.foldl next m).winners = m.winners ++ ls.filterMap winner := by
  induction ls generalizing m with
  | nil => simp
  | cons l ls ih =>
    obtain ⟨hentrants, hwinners⟩ := ih (m.next l)
    rw [List.foldl_cons, hentrants, hwinners]
    constructor
    · show (m.entrants ++ (entrant l).toList) ++ _ = _
      cases hl : entrant l <;> simp [hl]
    · show (m.winners ++ (winner l).toList) ++ _ = _
      cases hl : winner l <;> simp [hl]

end Race

/-- Of any number of calls for one new name and one MAC at most one succeeds, and what is stored of the
cluster is its own. -/
theorem creation_has_one_winner (name mac : String) {cfg : Settings} {s : Store} (hs : s.Reachable)
    (hnew : ∀ key r v, s.db.entry key = some (r, v) → v.clusterName ≠ name) {ls : List Lbl}
    {c : State} (hr : (controlPlane cfg).Runs (Config.idle medeaSig Who ⟨s⟩) ls c)
    (hcalls : ∀ l ∈ ls, Race.calls name mac l = true) : OneWinner ls c.world.store := by
  let m0 : Race := { store := s }
  have hfree : m0.Sound name mac :=
    ⟨hs, nofun, fun k h hk => hnew _ _ _ (DB.entry_of_host hk), rfl⟩
  have hass : Along Race.next (fun _ l => Race.calls name mac l = true) m0 ls :=
    along_of_split fun pre l post hls => hcalls l (by rw [hls]; simp)
  obtain ⟨⟨hstore, -, hrequests, hat⟩, -⟩ := (Race.supervision cfg name mac).runs_inv Race.track_eq hr
    (Supervision.inv_idle _ ⟨rfl, hfree⟩ fun _ => trivial) hass
  obtain ⟨hentrants, hwinners⟩ := Race.foldl_next ls m0
  rw [show m0.entrants = [] from rfl, List.nil_append] at hentrants
  rw [show m0.winners = [] from rfl, List.nil_append] at hwinners
  have hnobody : (ls.foldl Race.next m0).winners = [] → OneWinner ls c.world.store := by
    intro hnone
    rw [hwinners] at hnone
    refine ⟨by simp [hnone], fun i res hmem => ?_⟩
    rw [hnone] at hmem
    cases hmem
  cases hstage : (ls.foldl Race.next m0).stage with
  | free | held =>
    rw [hstage] at hat
    exact hnobody hat.2
  | stored i cb =>
    rw [hstage] at hat
    exact hnobody hat.2.2
  | told i cb =>
    rw [hstage] at hat
    obtain ⟨hreg, ⟨⟨req, hreq, rfl⟩, hboot⟩, hone⟩ := hat
    obtain ⟨rfl, rfl⟩ := hrequests i req hreq
    rw [hwinners] at hone
    rw [hentrants] at hreq
    refine ⟨by simp [hone], fun j res hmem => ?_⟩
    rw [hone] at hmem
    cases List.mem_singleton.1 hmem
    rw [hstore]
    exact ⟨req, hreq, rfl, hboot, hreg.host, hreg.only⟩

/-- The calls of two clients, one operation of each at a time. -/
def duel (mac mac' : String) : List Lbl × State :=
  runScript Script.settings
    (.start (.client 0) (.request (.createCluster { order with cpMac := mac })) ::
      .start (.client 1) (.request (.createCluster { order with cpMac := mac' })) ::
      (List.replicate 5 [Move.step (.client 0) (.working "" []),
        .step (.client 1) (.working "" [])]).flatten)
    (Config.idle medeaSig Who {})

/-- With one MAC the first one wins. -/
theorem duel_one_winner : (duel "m" "m").1.filterMap winner =
      [(.client 0, .bootstrap { order.armed with cpMac := "m" })] ∧
    OneWinner (duel "m" "m").1 (duel "m" "m").2.world.store := by
  refine ⟨by decide +kernel, creation_has_one_winner "c" "m" ⟨[], trivial, rfl⟩ ?_
    (runScript_runs _ _ _) ?_⟩
  · rintro ⟨kind, k⟩ r v hentry
    cases kind <;> cases hentry
  · decide +kernel

/-- With two MACs both win, and the later bootstrap replaces the earlier one. -/
theorem duel_two_winners :
    (controlPlane Script.settings).Runs (Config.idle medeaSig Who {}) (duel "m" "n").1
        (duel "m" "n").2 ∧
      ¬OneWinner (duel "m" "n").1 (duel "m" "n").2.world.store := by
  refine ⟨runScript_runs _ _ _, ?_⟩
  intro h
  exact absurd h.unique (by decide +kernel)

end Creation

end Medea
