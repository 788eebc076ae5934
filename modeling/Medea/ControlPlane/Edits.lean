import Medea.ControlPlane.Discipline
import Medea.Interaction.Memory
import Medea.Properties.CompareAndSwap

/-!
# Read-modify-write

The calls that change desired records, and the provisioning pass, all work alike: read a record,
change the copy, and swap it in at the revision that was read. `Edit` is a change as a function of the
version it is applied to, `Task.performs` says which changes a task makes to which record.

`Settings.task_edits` says of every such task that each record it writes is one of its changes,
applied to a version it has read before, at the revision it has read, and at the pinned revision if
there is one. `CommitsOnce` says of a call that it has committed one write if it returns a value, and
none if it returns an error; `Server.handle_settled` says so of every request that changes one record.
-/

set_option autoImplicit false

namespace Medea

open Medea.Interaction
open Program (justified_done justified_request justified_seen)

/-! ## Changes -/

/-- A change of a desired record. -/
inductive Edit where
  | cluster (f : Cluster → Cluster)
  | nodePool (f : NodePool → NodePool)
  | host (f : Host → Host)
  /-- A registration, of a new host or of one that is there. -/
  | registration (req : RegisterHostRequest) (role : Role)
  /-- A machine that is recorded unless it is there. -/
  | machine (new : Machine)

/-- The record that a change makes of the current version. -/
def Edit.apply : Edit → Option Record → Option Desired
  | .cluster f, some (.cluster c) => some (.cluster (f c))
  | .nodePool f, some (.nodePool np) => some (.nodePool (f np))
  | .host f, some (.host h) => some (.host (f h))
  | .registration req role, none => some (.host (Server.registeredHost req role none))
  | .registration req role, some (.host h) =>
    some (.host (Server.registeredHost req role (some h)))
  | .machine new, none => some (.machine new)
  | .machine _, some (.machine m) => some (.machine m)
  | _, _ => none

theorem Edit.cluster_of_apply {u : Edit} {cur : Option Record} {cl : Cluster}
    (h : u.apply cur = some (.cluster cl)) :
    ∃ f c, u = .cluster f ∧ cur = some (.cluster c) ∧ cl = f c := by
  rcases cur with _ | v
  · cases u <;> cases h
  · cases u <;> cases v <;> cases h
    exact ⟨_, _, rfl, rfl, rfl⟩

theorem Edit.nodePool_of_apply {u : Edit} {cur : Option Record} {np : NodePool}
    (h : u.apply cur = some (.nodePool np)) :
    ∃ f np0, u = .nodePool f ∧ cur = some (.nodePool np0) ∧ np = f np0 := by
  rcases cur with _ | v
  · cases u <;> cases h
  · cases u <;> cases v <;> cases h
    exact ⟨_, _, rfl, rfl, rfl⟩

/-- What a change is made to and what it makes of it. A machine that is there stays. -/
def Edit.Makes (cur : Option Record) (d : Desired) : Edit → Prop
  | .cluster f => ∃ c, cur = some (.cluster c) ∧ d = .cluster (f c)
  | .nodePool f => ∃ np, cur = some (.nodePool np) ∧ d = .nodePool (f np)
  | .host f => ∃ h, cur = some (.host h) ∧ d = .host (f h)
  | .registration req role => ∃ h : Option Host, cur = h.map .host ∧
      d = .host (Server.registeredHost req role h)
  | .machine _ => True

theorem Edit.makes_of_apply {u : Edit} {cur : Option Record} {d : Desired}
    (h : u.apply cur = some d) : u.Makes cur d := by
  cases u with
  | machine => trivial
  | registration =>
    rcases cur with _ | v
    · cases h
      exact ⟨none, rfl, rfl⟩
    · cases v <;> cases h
      exact ⟨some _, rfl, rfl⟩
  | _ =>
    rcases cur with _ | v
    · cases h
    · cases v <;> cases h
      exact ⟨_, rfl, rfl⟩

/-- The changes of the provisioning reconciler, each with the record it is made to. -/
inductive Provisions : EventKind × String → Edit → Prop
  | bindHost (cluster mac addr : String) : Provisions (.host, ckey cluster mac)
      (.host fun h => { h with addr := addr, state := .ready, message := "" })
  | fail (cluster mac : String) : Provisions (.host, ckey cluster mac)
      (.host fun h => { h with
        state := .failed, message := "provision timed out: node did not join" })
  | releaseHost (cluster mac : String) : Provisions (.host, ckey cluster mac)
      (.host fun h => { h with state := .registered, addr := "", message := "released (scale-in)" })
  | startProvisioning (cluster mac : String) (now : Nat) : Provisions (.host, ckey cluster mac)
      (.host fun h => { h with
        state := .provisioning, message := "staged; awaiting boot + join"
        provisioningStartedAt := formatRFC3339 now })
  | bindMachine (m : Machine) : Provisions (.machine, ckey m.cluster m.talosEndpoint) (.machine m)
  | addMember (cluster pool addr : String) : Provisions (.nodepool, ckey cluster pool)
      (.nodePool fun np => { np with members := sortStrings (np.members ++ [addr]) })
  | removeMember (cluster pool addr : String) : Provisions (.nodepool, ckey cluster pool)
      (.nodePool fun np => { np with members := np.members.filter (· != addr) })

theorem Provisions.host_cluster {key : EventKind × String} {f : Host → Host}
    (h : Provisions key (.host f)) (cur : Host) : (f cur).cluster = cur.cluster := by
  cases h <;> rfl

theorem Provisions.nodePool_same {key : EventKind × String} {f : NodePool → NodePool}
    (h : Provisions key (.nodePool f)) (np : NodePool) : (f np).cluster = np.cluster ∧
      (f np).strategy = np.strategy ∧ (f np).replicas = np.replicas := by
  cases h <;> exact ⟨rfl, rfl, rfl⟩

/-- The changes that a request makes, each with the record it is made to. -/
def Request.performs (key : EventKind × String) (u : Edit) : Request → Prop
  | .setClusterVersions cluster t k _ =>
    key = (.cluster, cluster) ∧ u = .cluster (Server.withClusterVersions t k)
  | .setNodePoolVersion cluster pool t _ =>
    key = (.nodepool, ckey cluster pool) ∧ u = .nodePool (Server.withPoolVersion t)
  | .pauseRollout cluster pool =>
    key = (.nodepool, ckey cluster pool) ∧ u = .nodePool fun np => { np with paused := true }
  | .resumeRollout cluster pool =>
    key = (.nodepool, ckey cluster pool) ∧ u = .nodePool fun np => { np with paused := false }
  | .enableRollouts cluster =>
    key = (.cluster, cluster) ∧ u = .cluster fun c => { c with rolloutsEnabled := true }
  | .disableRollouts cluster =>
    key = (.cluster, cluster) ∧ u = .cluster fun c => { c with rolloutsEnabled := false }
  | .enableProvisioning cluster =>
    key = (.cluster, cluster) ∧ u = .cluster fun c => { c with provisioningEnabled := true }
  | .disableProvisioning cluster =>
    key = (.cluster, cluster) ∧ u = .cluster fun c => { c with provisioningEnabled := false }
  | .createRollout req =>
    (key = (.nodepool, ckey req.cluster req.pool) ∧
        u = .nodePool (Server.withPoolVersion (some req.targetVersion))) ∨
      (key = (.cluster, req.cluster) ∧
        u = .cluster (Server.withClusterVersions none (some req.targetVersion)))
  | .registerHost req =>
    key = (.host, ckey req.cluster req.mac) ∧ ∃ role, u = .registration req role
  | _ => False

/-- The changes that a task makes. -/
def Task.performs (key : EventKind × String) (u : Edit) : Task → Prop
  | .request req => req.performs key u
  | .provisionPass => Provisions key u
  | _ => False

/-- The request changes one record and nothing else. -/
def Request.single : Request → Bool
  | .setClusterVersions .. | .setNodePoolVersion .. | .pauseRollout .. | .resumeRollout ..
  | .enableRollouts .. | .disableRollouts .. | .enableProvisioning .. | .disableProvisioning ..
  | .registerHost .. => true
  | _ => false

/-- The tasks whose writes of desired records are changes. -/
def Task.edits : Task → Bool
  | .request (.createRollout _) => true
  | .request req => req.single
  | .provisionPass => true
  | _ => false

/-- The revision a task is pinned to, zero for none. -/
def Task.pin : Task → Nat
  | .request (.setClusterVersions _ _ _ expected) => expected
  | .request (.setNodePoolVersion _ _ _ expected) => expected
  | _ => 0

/-! ## Reads and swaps -/

/-- The record that was asked for, what was found, and its revision. -/
def Ev.found : Ev → Option ((EventKind × String) × Option Record × Nat)
  | ⟨.store (.getCluster cluster), .ok (c, rev)⟩ => some ((.cluster, cluster), c.map .cluster, rev)
  | ⟨.store (.getNodePool cluster pool), .ok (np, rev)⟩ =>
    some ((.nodepool, ckey cluster pool), np.map .nodePool, rev)
  | ⟨.store (.getMachine cluster addr), .ok (m, rev)⟩ =>
    some ((.machine, ckey cluster addr), m.map .machine, rev)
  | ⟨.store (.getHost cluster mac), .ok (h, rev)⟩ =>
    some ((.host, ckey cluster mac), h.map .host, rev)
  | _ => none

/-- The record is a change of the task, applied to what was found at the expected revision, which is
the pinned one if there is a pin. -/
structure Task.Swaps (t : Task) (es : Trace medeaSig) (d : Desired) (expected : Nat) : Prop where
  pinned : t.pin ≠ 0 → expected = t.pin
  edited : ∃ e ∈ es, ∃ key cur u, Ev.found e = some (key, cur, expected) ∧ t.performs key u ∧
    u.apply cur = some d

/-- Whatever the task writes as a desired record is a change of something it has read. -/
def Task.backs (t : Task) (es : Trace medeaSig) : Op → Prop
  | .store op => ∀ d expected, op.swap = some (d, expected) → t.Swaps es d expected
  | _ => True

section Justified

variable {t : Task}

/-- A store call that swaps nothing in. -/
theorem backs_of_swap {op : StoreOp} (h : op.swap = none) (es : Trace medeaSig) :
    t.backs es (.store op) := by
  intro d expected hd
  rw [h] at hd
  cases hd

/-- The swap of the record that a change makes of what was found. -/
theorem backs_swap {op : StoreOp} {es : Trace medeaSig} {d : Desired} {expected : Nat}
    (h : op.swap = some (d, expected)) (hs : t.Swaps es d expected) : t.backs es (.store op) := by
  intro d' expected' hd
  rw [h] at hd
  cases hd
  exact hs

/-- The tasks and their parts write desired records only as changes. -/
abbrev Edits {α : Type} (t : Task) (p : Prog α) : Prop := p.Justified t.backs

end Justified

/-! ## The bodies of the server -/

namespace Requests

/-- A job in a response has been read from the store. -/
def Told (es : Trace medeaSig) : Except Status Response → Prop
  | .ok (.job (some job)) =>
    ∃ cluster pool, (⟨.store (.getRolloutJob cluster pool), .ok (some job)⟩ : Ev) ∈ es
  | _ => True

/-- A response is justified by what it tells; everything else may be done. -/
def tells (es : Trace medeaSig) : Op → Prop
  | .respond result => Told es result
  | _ => True

theorem Told.mono {es es' : Trace medeaSig} (hes : es ⊆ es') {r : Except Status Response}
    (h : Told es r) : Told es' r := by
  rcases r with s | resp
  · trivial
  cases resp with
  | job saved =>
    cases saved with
    | none => trivial
    | some job =>
      obtain ⟨cluster, pool, hmem⟩ := h
      exact ⟨cluster, pool, hes hmem⟩
  | _ => trivial

end Requests

open Requests (Told)

/-- A cluster that was found, and that takes rollouts if one is asked for. -/
def Request.Knows (req : Request) (es : Trace medeaSig) (name : String) : Prop :=
  ∃ c rev, ev (.store (.getCluster name)) (.ok (some c, rev)) ∈ es ∧
    ∀ r, req = .createRollout r → c.rolloutsEnabled = true

/-- Hosts and jobs are written for known clusters, jobs as ordered, and no machines or other books. -/
def Op.ordered (req : Request) (known : String → Prop) : Op → Prop
  | .store (.putRolloutJob job) => Task.orders job (.request req) ∧ known job.cluster
  | .store (.putHostDesired h _) => known h.cluster
  | .store (.putMachineDesired _ _) | .store (.putMachineRollout _)
  | .store (.putClusterRollout _) | .store (.putClusterBootstrap _) => False
  | _ => True

/-- What a request that changes records does, given what it has seen. -/
structure Request.Serves (req : Request) (known : Trace medeaSig → String → Prop)
    (es : Trace medeaSig) (op : Op) : Prop where
  backs : Task.backs (.request req) es op
  ordered : op.ordered req (known es)
  tells : Requests.tells es op

theorem Request.Serves.mono {req : Request} {known known' : Trace medeaSig → String → Prop}
    {es : Trace medeaSig} {op : Op} (h : req.Serves known es op)
    (hk : ∀ c, known es c → known' es c) : req.Serves known' es op where
  backs := h.backs
  ordered := by
    have ho := h.ordered
    cases op with
    | store op => cases op <;> first | exact ⟨ho.1, hk _ ho.2⟩ | exact hk _ ho | exact ho
    | _ => trivial
  tells := h.tells

namespace Server

variable {cluster : String} {edit : NodePool → Nat → Except Status NodePool} {expected : Nat}

section Justified

variable {J : Trace medeaSig → Op → Prop}

theorem editCluster_justified {cluster : String} {edit : Cluster → Nat → Except Status Cluster}
    (hget : ∀ es, J es (.store (.getCluster cluster)))
    (hput : ∀ es c rev c', (⟨.store (.getCluster cluster), .ok (some c, rev)⟩ : Ev) ∈ es →
      edit c rev = .ok c' → J es (.store (.putClusterDesired c' rev))) :
    (editCluster cluster edit).Justified J := by
  refine justified_seen hget fun rep es hread => ?_
  rcases rep with e | ⟨_ | c, rev⟩
  · exact justified_done _ es
  · exact justified_done _ es
  dsimp only
  cases hc : edit c rev with
  | error s => exact justified_done _ es
  | ok c' =>
    -- the copy that is swapped in was made of the record just read
    intro es' hes rep _
    refine ⟨hput es' c rev c' (hes hread) hc, ?_⟩
    cases rep with
    | error | ok => exact justified_done _ _

theorem editNodePool_justified {cluster pool : String}
    (hget : ∀ es, J es (.store (.getNodePool cluster pool)))
    (hput : ∀ es np rev np', (⟨.store (.getNodePool cluster pool), .ok (some np, rev)⟩ : Ev) ∈ es →
      edit np rev = .ok np' → J es (.store (.putNodePoolDesired np' rev))) :
    (editNodePool cluster pool edit).Justified J := by
  refine justified_seen hget fun rep es hread => ?_
  rcases rep with e | ⟨_ | np, rev⟩
  · exact justified_done _ es
  · exact justified_done _ es
  dsimp only
  cases hnp : edit np rev with
  | error s => exact justified_done _ es
  | ok np' =>
    intro es' hes rep _
    refine ⟨hput es' np rev np' (hes hread) hnp, ?_⟩
    cases rep with
    | error | ok => exact justified_done _ _

/-- The retry loop does what its body does. -/
theorem rmw_justified {α : Type} {body : Prog (Except BodyError α)} (h : body.Justified J) :
    (rmw body expected).Justified J := by
  have hall : ∀ n, (rmwAttempts body expected n).Justified J := by
    intro n
    induction n with
    | zero => exact justified_done _
    | succ n ih =>
      refine h.bind fun r => ?_
      rcases r with ((_ | msg) | s) | a
      · dsimp only
        split
        · exact justified_done _
        · exact ih
      · exact justified_done _
      · exact justified_done _
      · exact justified_done _
  exact hall 2

end Justified

variable {req : Request} {known : Trace medeaSig → String → Prop} {op : StoreOp}

theorem serves_read (h : op.writes = false) (es : Trace medeaSig) :
    req.Serves known es (.store op) := by
  refine ⟨backs_of_swap ?_ es, ?_, trivial⟩
  · cases op <;> first | rfl | cases h
  · cases op <;> trivial

/-- The program serves the request, and returns what it has read. -/
abbrev Serving (req : Request) (known : Trace medeaSig → String → Prop)
    (p : Prog (Except Status Response)) : Prop :=
  ∀ es, p.Keeps (.memory (req.Serves known)) (fun r es => Told es r) es

theorem serving_error (s : Status) : Serving req known (Program.done (.error s)) :=
  fun _ _ _ => trivial

/-- A record is read, and the continuation may rely on what was found. -/
theorem serving_seen {f : (Op.store op).Reply → Prog (Except Status Response)}
    (h : op.writes = false) (hf : ∀ rep es, (⟨.store op, rep⟩ : Ev) ∈ es →
      (f rep).Keeps (.memory (req.Serves known)) (fun r es => Told es r) es) :
    Serving req known (call (.store op) >>= f) :=
  fun _ es' _ rep _ =>
    ⟨serves_read h es', hf rep _ (List.mem_append_right _ List.mem_cons_self)⟩

theorem serving_read {f : (Op.store op).Reply → Prog (Except Status Response)} (h : op.writes = false)
    (hf : ∀ rep, Serving req known (f rep)) :
    Serving req known (call (.store op) >>= f) :=
  serving_seen h fun rep es _ => hf rep es

theorem serving_bind {α : Type} {p : Prog α} {f : α → Prog (Except Status Response)}
    (hp : p.Justified (req.Serves known)) (hf : ∀ a, Serving req known (f a)) :
    Serving req known (p >>= f) :=
  fun es => (hp es).bind fun a es' _ => hf a es'

theorem report_serving {α : Type} {f : α → Response} {p : Prog (Except Status α)}
    (hp : p.Justified (req.Serves known)) (hf : ∀ a es, Told es (.ok (f a))) :
    Serving req known (report f p) := by
  refine serving_bind hp fun r => ?_
  cases r with
  | error s => exact serving_error s
  | ok a => exact fun _ es' _ => hf a es'

theorem editCluster_serves {edit : Cluster → Nat → Except Status Cluster}
    (h : ∀ c rev c', edit c rev = .ok c' →
      (Task.pin (.request req) ≠ 0 → rev = Task.pin (.request req)) ∧
        ∃ f, req.performs (.cluster, cluster) (.cluster f) ∧ c' = f c) :
    (editCluster cluster edit).Justified (req.Serves known) := by
  refine editCluster_justified (serves_read rfl) fun es c rev c' hread hc => ?_
  obtain ⟨hpin, f, hf, rfl⟩ := h c rev c' hc
  exact ⟨backs_swap rfl ⟨hpin, _, hread, _, _, _, rfl, hf, rfl⟩, trivial, trivial⟩

theorem editNodePool_serves {pool : String}
    (h : ∀ np rev np', edit np rev = .ok np' →
      (Task.pin (.request req) ≠ 0 → rev = Task.pin (.request req)) ∧
        ∃ f, req.performs (.nodepool, ckey cluster pool) (.nodePool f) ∧ np' = f np) :
    (editNodePool cluster pool edit).Justified (req.Serves known) := by
  refine editNodePool_justified (serves_read rfl) fun es np rev np' hread hnp => ?_
  obtain ⟨hpin, f, hf, rfl⟩ := h np rev np' hnp
  exact ⟨backs_swap rfl ⟨hpin, _, hread, _, _, _, rfl, hf, rfl⟩, trivial, trivial⟩

/-- A registration names the host of the request. -/
theorem registeredHost_names (r : RegisterHostRequest) (role : Role) (cur : Option Host) :
    (registeredHost r role cur).cluster = r.cluster ∧ (registeredHost r role cur).mac = r.mac := by
  cases cur with
  | none => exact ⟨rfl, rfl⟩
  | some cur =>
    rw [registeredHost]
    dsimp only
    split
    · exact ⟨rfl, rfl⟩
    · exact ⟨rfl, rfl⟩

theorem editRegisteredHost_serves {r : RegisterHostRequest} (role : Role)
    (hk : ∀ es, known es r.cluster) :
    (editRegisteredHost r role).Justified (Request.Serves (.registerHost r) known) := by
  refine justified_seen (serves_read rfl) fun rep es hread => ?_
  rcases rep with e | ⟨cur, rev⟩
  · exact justified_done _ es
  intro es' hes rep _
  have happly : (Edit.registration r role).apply (cur.map .host) =
      some (.host (registeredHost r role cur)) := by
    cases cur with
    | none => rfl
    | some h => rfl
  have hcluster : known es' (registeredHost r role cur).cluster :=
    (registeredHost_names r role cur).1.symm ▸ hk es'
  refine ⟨⟨backs_swap rfl ⟨fun hp => absurd rfl hp, _, hes hread, _, _, _, rfl, ⟨rfl, role, rfl⟩,
    happly⟩, hcluster, trivial⟩, ?_⟩
  cases rep with
  | error | ok => exact justified_done _ _

/-- A passed pin check means that the pin, if there is one, is the revision read. -/
theorem checkPin_ok {β : Type} {expected rev : Nat} {f : Unit → β} {b : β}
    (h : (checkPin expected rev).map f = .ok b) : (expected ≠ 0 → rev = expected) ∧ b = f () := by
  rw [checkPin] at h
  split at h
  · cases h
  next hpin =>
    cases h
    refine ⟨fun he => ?_, rfl⟩
    by_contra hne
    exact hpin ⟨he, hne⟩

theorem setClusterVersions_serving {tv kv : Option String} :
    Serving (.setClusterVersions cluster tv kv expected) known
      (setClusterVersions cluster tv kv expected) := by
  rw [setClusterVersions]
  split
  · exact serving_error _
  refine report_serving (rmw_justified (editCluster_serves fun c rev c' h => ?_)) fun _ _ => trivial
  obtain ⟨hpin, rfl⟩ := checkPin_ok h
  exact ⟨hpin, _, ⟨rfl, rfl⟩, rfl⟩

theorem setNodePoolVersion_serving {pool : String} {tv : Option String} :
    Serving (.setNodePoolVersion cluster pool tv expected) known
      (setNodePoolVersion cluster pool tv expected) := by
  rw [setNodePoolVersion]
  split
  · exact serving_error _
  refine report_serving (rmw_justified (editNodePool_serves fun np rev np' h => ?_)) fun _ _ => trivial
  obtain ⟨hpin, rfl⟩ := checkPin_ok h
  exact ⟨hpin, _, ⟨rfl, rfl⟩, rfl⟩

theorem setPaused_serving {pool : String} {paused : Bool}
    (hpin : Task.pin (.request req) = 0) (h : req.performs (.nodepool, ckey cluster pool)
      (.nodePool fun np => { np with paused := paused })) :
    Serving req known (setPaused cluster pool paused) := by
  rw [setPaused]
  split
  · exact serving_error _
  refine report_serving (rmw_justified (editNodePool_serves fun np rev np' hnp => ?_)) fun _ _ => trivial
  cases hnp
  exact ⟨fun hp => absurd hpin hp, _, h, rfl⟩

theorem setClusterFlag_serving {apply : Cluster → Cluster}
    (hpin : Task.pin (.request req) = 0) (h : req.performs (.cluster, cluster) (.cluster apply)) :
    Serving req known (setClusterFlag cluster apply) := by
  rw [setClusterFlag]
  split
  · exact serving_error _
  refine report_serving (rmw_justified (editCluster_serves fun c rev c' hc => ?_)) fun _ _ => trivial
  cases hc
  exact ⟨fun hp => absurd hpin hp, _, h, rfl⟩

variable {r : CreateRolloutRequest}

theorem now_serves : (call .now).Justified (req.Serves known) :=
  fun _ _ _ _ _ => ⟨⟨trivial, trivial, trivial⟩, justified_done _ _⟩

/-- The job is recorded as ordered, and the one that is read back is returned. -/
theorem recordJob_serving {job : Rollout} (ho : Task.orders job (.request req))
    (hk : ∀ es, known es job.cluster) : Serving req known (recordJob job) := by
  intro es es' _ rep _
  refine ⟨⟨backs_of_swap rfl es', ⟨ho, hk es'⟩, trivial⟩, ?_⟩
  rcases rep with e | rev
  · exact serving_error _ _
  intro fs _ rep _
  refine ⟨serves_read rfl fs, ?_⟩
  rcases rep with e | saved
  · exact serving_error _ _
  · intro fs' hes
    cases saved with
    | none => trivial
    | some job' => exact ⟨job.cluster, job.pool, hes (List.mem_append_right _ List.mem_cons_self)⟩

theorem createTalosRollout_serving (hk : ∀ es, known es r.cluster) :
    Serving (.createRollout r) known (createTalosRollout r) := by
  rw [createTalosRollout]
  split
  · exact serving_error _
  refine serving_read rfl fun rep => ?_
  rcases rep with e | ⟨_ | np, rev⟩
  · exact serving_error _
  · exact serving_error _
  refine serving_bind (rmw_justified (editNodePool_serves fun cur rev cur' h => ?_)) fun b => ?_
  · cases h
    exact ⟨fun hp => absurd rfl hp, _, Or.inl ⟨rfl, rfl⟩, rfl⟩
  · cases b with
    | error s => exact serving_error _
    | ok _ => exact serving_bind now_serves fun now => recordJob_serving ⟨rfl, rfl⟩ hk

theorem createKubernetesRollout_serving (hk : ∀ es, known es r.cluster) :
    Serving (.createRollout r) known (createKubernetesRollout r) := by
  rw [createKubernetesRollout]
  split
  · exact serving_error _
  next hpool =>
    -- the job of a cluster has no pool, and neither has the request
    have ho : "" = r.pool := (not_not.1 hpool).symm
    refine serving_bind (rmw_justified (editCluster_serves fun c rev c' h => ?_)) fun b => ?_
    · cases h
      exact ⟨fun hp => absurd rfl hp, _, Or.inr ⟨rfl, rfl⟩, rfl⟩
    rcases b with s | _
    · exact serving_error _
    refine serving_read rfl fun rep => ?_
    cases rep with
    | error e => exact serving_error _
    | ok machines => exact serving_bind now_serves fun now => recordJob_serving ⟨rfl, ho⟩ hk

/-- A job is only recorded for a cluster whose rollouts are enabled. -/
theorem createRollout_serving :
    Serving (.createRollout r) (Request.Knows (.createRollout r)) (createRollout r) := by
  rw [createRollout]
  split
  · exact serving_error _
  split
  · exact serving_error _
  refine serving_seen rfl fun rep es hread => ?_
  rcases rep with e | ⟨_ | c, rev⟩
  · exact serving_error _ es
  · exact serving_error _ es
  simp only [orStatus]
  split
  · exact serving_error _ _
  next hen =>
    split
    · exact serving_error _ _
    refine Program.Keeps.memory_mono (J := Request.Serves (.createRollout r) fun _ => Eq r.cluster)
      ?_ fun fs op hfs h => h.mono ?_
    · split
      · exact createTalosRollout_serving (fun _ => rfl) _
      · exact createKubernetesRollout_serving (fun _ => rfl) _
      · exact serving_error _ _
    · rintro _ rfl
      exact ⟨c, rev, hfs hread, fun _ _ => by simpa using hen⟩

theorem registerHost_serving (r : RegisterHostRequest) :
    Serving (.registerHost r) (Request.Knows (.registerHost r)) (registerHost r) := by
  have hput : ∀ role, Serving (.registerHost r) (fun _ c => c = r.cluster) (putRegisteredHost r role) :=
    fun role => report_serving (rmw_justified (editRegisteredHost_serves role fun _ => rfl))
      fun _ _ => trivial
  rw [registerHost]
  split
  · exact serving_error _
  refine serving_seen rfl fun rep es hread => ?_
  rcases rep with e | ⟨_ | c, rev⟩
  · exact serving_error _ es
  · exact serving_error _ es
  simp only [orStatus]
  refine Program.Keeps.memory_mono (J := Request.Serves (.registerHost r) fun _ c => c = r.cluster) ?_
    fun fs op hfs h => h.mono ?_
  · split
    · refine serving_read rfl (fun rep => ?_) _
      rcases rep with e | ⟨_ | np, rev⟩
      · exact serving_error _
      · exact serving_error _
      · exact hput _
    · exact hput _ _
  · rintro _ rfl
    exact ⟨c, rev, hfs hread, nofun⟩

/-- What every request that changes records does. -/
theorem handle_serves (s : Server) (req : Request) (h : Task.edits (.request req) = true) :
    (s.handle req).Justified (req.Serves req.Knows) := by
  have hanswer : Serving req req.Knows (s.answer req) := by
    cases req with
    | setClusterVersions cluster t k expected => exact setClusterVersions_serving
    | setNodePoolVersion cluster pool t expected => exact setNodePoolVersion_serving
    | pauseRollout | resumeRollout => exact setPaused_serving rfl ⟨rfl, rfl⟩
    | enableRollouts | disableRollouts | enableProvisioning | disableProvisioning =>
      exact setClusterFlag_serving rfl ⟨rfl, rfl⟩
    | createRollout r => exact createRollout_serving
    | registerHost r => exact registerHost_serving r
    | _ => cases h
  intro es
  refine (hanswer es).bind fun r es' hr => ?_
  intro es'' hes rep _
  exact ⟨⟨trivial, trivial, hr.mono hes⟩, justified_done _ _⟩

/-- What the other requests do: they look around, arm a new cluster, or delete. -/
theorem handle_does {allowed : Op → Prop} (hidle : ∀ op : Op, op.writeless = true → allowed op)
    (s : Server) {req : Request} (h : Task.edits (.request req) = false)
    (harm : ∀ r, req = .createCluster r → allowed (.store (.putHostDesired (controlPlaneHost r) 0)) ∧
      ∀ msg, allowed (.store (.putClusterBootstrap { requestedBootstrap r with message := msg })))
    (hdelete : (∀ cluster mac, allowed (.store (.deleteHost cluster mac))) ∧
      ∀ cluster, allowed (.store (.deleteCluster cluster))) : Does allowed (s.handle req) := by
  have hanswer : Does allowed (s.answer req) := by
    cases req with
    | getCluster cluster => exact getCluster_does hidle cluster
    | getCredentials cluster t k b => exact getCredentials_does hidle s cluster t k b
    | createCluster r => exact createCluster_does hidle (harm r rfl).1 (harm r rfl).2
    | listClusters => exact listClusters_does hidle
    | listNodePools | listMachines | listHosts | listRollouts => exact list_does hidle rfl
    | getRollout cluster pool => exact getRollout_does hidle cluster pool
    | deregisterHost cluster mac => exact deregisterHost_does (hdelete.1 cluster mac)
    | deleteCluster name => exact deleteCluster_does hidle s (hdelete.2 name)
    | _ => cases h
  exact does_bind hanswer fun _ => does_last (hidle _ rfl)

end Server

/-! ## The provisioning reconciler -/

/-- The operation writes no job and no record of a rollout or a bring-up. -/
def Op.keepsBooks : Op → Bool
  | .store (.putRolloutJob _) | .store (.putMachineRollout _) | .store (.putClusterRollout _)
  | .store (.putClusterBootstrap _) => false
  | _ => true

/-- The operation only looks around. -/
def Op.looks : Op → Bool
  | .store op => !op.writes
  | .provisioner _ _ | .kube _ _ (.drain _ _) | .machinery (.workerConfig _) => false
  | _ => true

theorem Op.not_touches_of_looks {op : Op} {c : String} (h : op.looks = true) : ¬op.touches c := by
  intro hc
  cases op with
  | store op => cases op <;> first | exact False.elim hc | exact absurd h Bool.false_ne_true
  | kube client member call =>
    cases call <;> first | exact False.elim hc | exact absurd h Bool.false_ne_true
  | provisioner => exact absurd h Bool.false_ne_true
  | _ => exact False.elim hc

namespace ProvisionReconciler

/-- A cluster that the pass works on, or the cluster of a record found under a key of such a one. -/
def Reached (names : String → Prop) (es : Trace medeaSig) (c : String) : Prop :=
  names c ∨ ∃ e ∈ es, ∃ kind cluster name v rev, names cluster ∧
    Ev.found e = some ((kind, ckey cluster name), some v, rev) ∧ v.clusterName = c ∧ kind ≠ .cluster

/-- What a pass does on the clusters with the names, and rendering only inputs that satisfy `P`. -/
structure Provides (names : String → Prop) (P : GeneratorInput → Prop) (es : Trace medeaSig) (op : Op) :
    Prop where
  backs : Task.provisionPass.backs es op
  reached : ∀ c, op.touches c → Reached names es c
  renders : op.Renders P
  books : op.keepsBooks = true

theorem Provides.mono {names names' : String → Prop} {P P' : GeneratorInput → Prop}
    {es : Trace medeaSig} {op : Op} (h : Provides names P es op) (hn : ∀ c, names c → names' c)
    (hP : ∀ input, P input → P' input) : Provides names' P' es op where
  backs := h.backs
  reached c hc := (h.reached c hc).imp (hn c) fun ⟨e, he, kind, cluster, name, v, rev, hcl, hv⟩ =>
    ⟨e, he, kind, cluster, name, v, rev, hn _ hcl, hv⟩
  renders := by
    have hr := h.renders
    cases op with
    | machinery call => cases call <;> first | exact hP _ hr | trivial
    | _ => trivial
  books := h.books

section Provides

variable {α : Type} (names : String → Prop) (P : GeneratorInput → Prop)

/-- The parts of a provisioning pass. -/
abbrev Provisioning (p : Prog α) : Prop := p.Justified (Provides names P)

variable {names P} {es : Trace medeaSig} {op : StoreOp} {d : Desired} {expected : Nat}

theorem provides_looks {op : Op} (h : op.looks = true) (es : Trace medeaSig) :
    Provides names P es op := by
  refine ⟨?_, fun c hc => absurd hc (Op.not_touches_of_looks h), ?_, ?_⟩
  · cases op with
    | store op =>
      refine backs_of_swap ?_ es
      cases op <;> first | rfl | exact absurd h Bool.false_ne_true
    | _ => trivial
  · cases op with
    | machinery call => cases call <;> trivial
    | _ => trivial
  · cases op with
    | store op => cases op <;> first | rfl | exact absurd h Bool.false_ne_true
    | _ => rfl

/-- A record is swapped in that was made of a found one. -/
theorem provides_swap (h : op.swap = some (d, expected)) (hs : Task.provisionPass.Swaps es d expected)
    (hc : ∀ c, (Op.store op).touches c → Reached names es c) :
    Provides names P es (.store op) := by
  refine ⟨backs_swap h hs, hc, trivial, ?_⟩
  cases op <;> first | rfl | cases h

theorem provides_seen {op : Op} {k : op.Reply → Prog α} (h : op.looks = true)
    (hk : ∀ rep es, (⟨op, rep⟩ : Ev) ∈ es →
      (k rep).Keeps (.memory (Provides names P)) (fun _ _ => True) es) :
    Provisioning names P (call op >>= k) :=
  justified_seen (provides_looks h) hk

theorem provides_call {op : Op} {k : op.Reply → Prog α} (h : op.looks = true)
    (hk : ∀ rep, Provisioning names P (k rep)) : Provisioning names P (call op >>= k) :=
  provides_seen h fun rep es _ => hk rep es

end Provides

variable {names : String → Prop} {P : GeneratorInput → Prop} {cluster : String} (hc : names cluster)
include hc

theorem editHost_edits {mac : String} {edit : Host → Host}
    (h : Provisions (.host, ckey cluster mac) (.host edit)) :
    Provisioning names P (editHost cluster mac edit) := by
  refine provides_seen rfl fun rep es hread => ?_
  rcases rep with e | ⟨_ | cur, rev⟩
  · exact justified_done _ es
  · exact justified_done _ es
  intro es' hes rep _
  refine ⟨provides_swap rfl ⟨fun hp => absurd rfl hp, _, hes hread, _, _, _, rfl, h, rfl⟩
    fun c hcur => ?_, ?_⟩
  · exact Or.inr ⟨_, hes hread, _, _, _, _, _, hc, rfl, (h.host_cluster cur).symm.trans hcur, nofun⟩
  · cases rep with
    | error | ok => exact justified_done _ _

theorem editPool_edits {pool : String} {edit : NodePool → Option NodePool}
    (h : ∀ np np', edit np = some np' →
      ∃ f, Provisions (.nodepool, ckey cluster pool) (.nodePool f) ∧ np' = f np) :
    Provisioning names P (editPool cluster pool edit) := by
  refine provides_seen rfl fun rep es hread => ?_
  rcases rep with e | ⟨_ | np, rev⟩
  · exact justified_done _ es
  · exact justified_done _ es
  dsimp only
  cases hnp : edit np with
  | none => exact justified_done _ es
  | some np' =>
    obtain ⟨f, hf, rfl⟩ := h np np' hnp
    intro es' hes rep _
    refine ⟨provides_swap rfl ⟨fun hp => absurd rfl hp, _, hes hread, _, _, _, rfl, hf, rfl⟩
      fun c hcur => ?_, ?_⟩
    · exact Or.inr ⟨_, hes hread, _, _, _, _, _, hc, rfl, (hf.nodePool_same np).1.symm.trans hcur, nofun⟩
    · cases rep with
      | error | ok => exact justified_done _ _

theorem startProvisioning_edits (mac : String) : Provisioning names P (startProvisioning cluster mac) := by
  refine provides_seen rfl fun rep es hread => ?_
  rcases rep with e | ⟨_ | cur, rev⟩
  · exact justified_done _ es
  · exact justified_done _ es
  -- the clock is read between the host and its swap
  intro es' hes now _
  refine ⟨provides_looks rfl _, fun es'' hes' rep _ => ?_⟩
  have hseen := hes' (List.mem_append_left _ (hes hread))
  refine ⟨provides_swap rfl ⟨fun hp => absurd rfl hp, _, hseen, _, _, _, rfl,
    .startProvisioning cluster mac now, rfl⟩ fun c hcur => ?_, ?_⟩
  · exact Or.inr ⟨_, hseen, _, _, _, _, _, hc, rfl, hcur, nofun⟩
  · cases rep with
    | error | ok => exact justified_done _ _

theorem removeMember_edits (pool addr : String) : Provisioning names P (removeMember cluster pool addr) := by
  refine editPool_edits hc fun np np' h => ?_
  cases h
  exact ⟨_, .removeMember cluster pool addr, rfl⟩

theorem addMember_edits (pool addr : String) : Provisioning names P (addMember cluster pool addr) := by
  refine editPool_edits hc fun np np' h => ?_
  split at h
  · cases h
  · cases h
    exact ⟨_, .addMember cluster pool addr, rfl⟩

theorem bind_edits (pool mac : String) (n : NodeInfo) (role : Role) :
    Provisioning names P (bind cluster pool mac n role) := by
  refine (editHost_edits hc (.bindHost cluster mac n.internalIP)).bind fun r => ?_
  rcases r with e | ⟨⟩
  · exact justified_done _
  refine provides_seen rfl fun rep es hread => ?_
  rcases rep with e | ⟨m, mrev⟩
  · exact justified_done _ es
  intro es' hes rep _
  let new : Machine := { cluster, pool, talosEndpoint := n.internalIP, role }
  have happly : (Edit.machine new).apply (m.map .machine) = some (.machine (m.getD new)) := by
    cases m with
    | none => rfl
    | some m => rfl
  refine ⟨provides_swap rfl ⟨fun hp => absurd rfl hp, _, hes hread, _, _, _, rfl,
    .bindMachine new, happly⟩ fun c hcur => ?_, ?_⟩
  · cases m with
    | none => exact Or.inl (hcur ▸ hc)
    | some m => exact Or.inr ⟨_, hes hread, _, _, _, _, _, hc, rfl, hcur, nofun⟩
  · cases rep with
    | error e => exact justified_done _ _
    | ok nr => exact addMember_edits hc pool n.internalIP _

variable (r : ProvisionReconciler)

omit hc in
theorem timedOut_edits (h : Host) : Provisioning names P (r.timedOut h) := by
  rw [timedOut]
  split
  · exact justified_done _
  · exact provides_call rfl fun _ => justified_done _

theorem advanceHost_edits (pool : String) (np : NodePool) (nodes : List NodeInfo) (count : HostCount)
    (h : Host) : Provisioning names P (r.advanceHost cluster pool np nodes count h) := by
  have hfail : Provisioning names P
      (setHostState cluster h.mac .failed "provision timed out: node did not join") :=
    editHost_edits hc (.fail cluster h.mac)
  rw [advanceHost]
  cases h.state with
  | provisioning =>
    dsimp only
    split
    · refine (bind_edits hc pool h.mac _ np.role).bind fun b => ?_
      cases b with
      | error | ok => exact justified_done _
    · refine (timedOut_edits r h).bind fun out => ?_
      split
      · refine hfail.bind fun b => ?_
        cases b with
        | error | ok => exact justified_done _
      · exact justified_done _
  | _ => exact justified_done _

theorem advanceHosts_edits (pool : String) (np : NodePool) (nodes : List NodeInfo) (hosts : List Host)
    (count : HostCount) : Provisioning names P (r.advanceHosts cluster pool np nodes hosts count) := by
  induction hosts generalizing count with
  | nil => exact justified_done _
  | cons h hosts ih =>
    refine (advanceHost_edits hc r pool np nodes count h).bind fun b => ?_
    cases b with
    | error e => exact justified_done _
    | ok count => exact ih count

theorem forget_edits (pool addr mac : String) : Provisioning names P (forget cluster pool addr mac) := by
  have hrelease : Provisioning names P (releaseHost cluster mac) :=
    editHost_edits hc (.releaseHost cluster mac)
  rw [forget]
  split
  · have hdelete : ∀ es, Provides names P es (.store (.deleteMachine cluster addr)) := fun es =>
      ⟨backs_of_swap rfl es, fun c h => Or.inl (h ▸ hc), trivial, rfl⟩
    refine justified_request hdelete fun rep => ?_
    rcases rep with e | ⟨⟩
    · exact justified_done _
    refine (removeMember_edits hc pool addr).bind fun b => ?_
    cases b with
    | error e => exact justified_done _
    | ok _ => exact hrelease
  · exact hrelease

theorem unstage_edits (pool : String) (victim : Host) :
    Provisioning names P (unstage cluster pool victim) := by
  refine justified_request (fun _ => ⟨trivial, fun c h => Or.inl (h ▸ hc), trivial, rfl⟩)
    fun rep => ?_
  rcases rep with e | ⟨⟩
  · exact justified_done _
  · exact forget_edits hc pool victim.addr victim.mac

theorem scaleIn_edits (hr : r.client.cluster = cluster) (pool : String) (hosts : List Host)
    (nodes : List NodeInfo) : Provisioning names P (r.scaleIn cluster pool hosts nodes) := by
  rw [scaleIn]
  split
  · exact justified_done _
  dsimp only
  split
  · refine justified_request
      (fun _ => ⟨trivial, fun c h => Or.inl (h ▸ hr ▸ hc), trivial, rfl⟩) fun rep => ?_
    rcases rep with e | ⟨⟩
    · exact justified_done _
    · exact unstage_edits hc pool _
  · exact unstage_edits hc pool _

omit hc in
theorem secretsFor_edits (c : String) : Provisioning names P (secretsFor c) := by
  refine provides_call rfl fun rep => ?_
  rcases rep with e | raw
  · exact justified_done _
  refine provides_call rfl fun rep => ?_
  cases rep with
  | error | ok => exact justified_done _

section Stage

variable {cl : Cluster} (hcl : names cl.name)
include hcl

omit hc

theorem publish_edits (h : Host) (schematic version : String) (cfg : Bytes) :
    Provisioning names P (r.publish cl h schematic version cfg) := by
  refine justified_request (fun _ => ⟨trivial, fun c h => Or.inl (h ▸ hcl), trivial, rfl⟩)
    fun rep => ?_
  rcases rep with e | ⟨⟩
  · exact justified_done _
  · exact startProvisioning_edits hcl h.mac

variable (hP : ∀ input : GeneratorInput, input.clusterName = cl.name →
  input.controlPlaneEndpoint = "https://" ++ cl.kubeEndpoint → P input)
include hP

/-- The one configuration that is rendered is for the cluster, with the scheme before its endpoint. -/
theorem stage_edits (np : NodePool) (h : Host) : Provisioning names P (r.stage cl np h) := by
  rw [stage]
  split
  · exact justified_done _
  refine provides_call rfl fun rep => ?_
  rcases rep with e | schematic
  · exact justified_done _
  refine (secretsFor_edits cl.name).bind fun b => ?_
  rcases b with e | bundle
  · exact justified_done _
  refine Program.Justified.bind ?_ fun c => ?_
  · rw [renderWorkerConfig]
    split
    · exact justified_done _
    · exact justified_request (fun _ => ⟨trivial, nofun, hP _ rfl rfl, rfl⟩)
        fun _ => justified_done _
  rcases c with e | cfg
  · exact justified_done _
  · exact publish_edits r hcl h schematic _ cfg

include hc

theorem converge_edits (hr : r.client.cluster = cluster) (pool : String) (np : NodePool)
    (hosts : List Host) (nodes : List NodeInfo) (count : HostCount) :
    Provisioning names P (r.converge cluster pool cl np hosts nodes count) := by
  rw [converge]
  split
  · exact justified_done _
  split
  · exact justified_done _
  split
  · exact scaleIn_edits hc r hr pool hosts nodes
  split
  · split
    · exact justified_done _
    · exact stage_edits r hcl hP np _
  · exact justified_done _

theorem reconcileHosts_edits (hr : r.client.cluster = cluster) (pool : String) (np : NodePool) :
    Provisioning names P (r.reconcileHosts cluster pool cl np) := by
  refine provides_call rfl fun rep => ?_
  rcases rep with e | hosts
  · exact justified_done _
  refine provides_call rfl fun rep => ?_
  rcases rep with e | nodes
  · exact justified_done _
  have hclaimed : Provisioning names P (claimedAddrs cluster hosts) := by
    refine provides_call rfl fun rep => ?_
    cases rep with
    | error | ok => exact justified_done _
  refine hclaimed.bind fun b => ?_
  rcases b with e | claimed
  · exact justified_done _
  refine (advanceHosts_edits hc r pool np nodes hosts _).bind fun b => ?_
  rcases b with e | count
  · exact justified_done _
  · exact converge_edits hc r hcl hP hr pool np hosts nodes count

end Stage

omit hc

/-- The cluster that is worked on, by the name that was asked for and the one that was found. -/
def Named (cluster : String) (es : Trace medeaSig) (c : String) : Prop :=
  c = cluster ∨ ∃ cl rev, ev (.store (.getCluster cluster)) (.ok (some cl, rev)) ∈ es ∧ cl.name = c

/-- The input is made from a cluster that was read. -/
def RenderedFrom (es : Trace medeaSig) (input : GeneratorInput) : Prop :=
  ∃ cluster cl rev, ev (.store (.getCluster cluster)) (.ok (some cl, rev)) ∈ es ∧
    input.clusterName = cl.name ∧ input.controlPlaneEndpoint = "https://" ++ cl.kubeEndpoint

theorem reconcilePool_edits (hr : r.client.cluster = cluster) (pool : String) :
    (r.reconcilePool cluster pool).Justified fun es => Provides (Named cluster es) (RenderedFrom es) es := by
  refine justified_seen (fun _ => provides_looks rfl _) ?_
  rintro (e | ⟨_ | cl, rev⟩) es hread
  · exact justified_done _ es
  · exact justified_done _ es
  -- from here on the cluster is known
  refine Program.Keeps.memory_mono (J := Provides (fun c => c = cluster ∨ c = cl.name) fun input =>
    input.clusterName = cl.name ∧ input.controlPlaneEndpoint = "https://" ++ cl.kubeEndpoint)
    ((?_ : Program.Justified _ _) es) fun es' op hsub h => h.mono ?_ ?_
  · dsimp only
    split
    · exact justified_done _
    refine provides_call rfl fun rep => ?_
    rcases rep with e | ⟨_ | np, rev⟩
    · exact justified_done _
    · exact justified_done _
    dsimp only
    split
    · exact justified_done _
    · exact reconcileHosts_edits (Or.inl rfl) r (Or.inr rfl) (fun _ h h' => ⟨h, h'⟩) hr pool np
  · rintro c (h | h)
    · exact Or.inl h
    · exact Or.inr ⟨cl, rev, hsub hread, h.symm⟩
  · rintro input ⟨hname, hend⟩
    exact ⟨cluster, cl, rev, hsub hread, hname, hend⟩

end ProvisionReconciler

namespace ProvisionExecutor

open ProvisionReconciler (Provides RenderedFrom provides_looks)

variable (e : ProvisionExecutor)

/-- What a pass does, on whichever clusters. -/
abbrev Passes {α : Type} (p : Prog α) : Prop :=
  p.Justified fun es => Provides (fun _ => True) (RenderedFrom es) es

theorem runPool_edits (cl : Cluster) (np : NodePool) : Passes (e.runPool cl np) := by
  rw [runPool]
  split
  · exact justified_done _
  refine justified_request (fun _ => provides_looks rfl _) fun rep => ?_
  rcases rep with err | ⟨⟩
  · exact justified_done _
  · refine Program.Justified.bind ?_ fun _ => justified_done _
    exact (ProvisionReconciler.reconcilePool_edits _ rfl np.name).mono fun es op h =>
      h.mono (fun _ _ => trivial) fun _ => id

theorem runCluster_edits (cl : Cluster) : Passes (e.runCluster cl) := by
  rw [runCluster]
  split
  · refine justified_request (fun _ => provides_looks rfl _) fun rep => ?_
    rcases rep with err | pools
    · exact justified_done _
    · exact (Program.Justified.forEach fun np _ => runPool_edits e cl np).bind fun _ =>
        justified_done _
  · exact justified_done _

theorem runOnce_edits : Passes e.runOnce := by
  refine justified_request (fun _ => provides_looks rfl _) fun rep => ?_
  rcases rep with err | cls
  · exact justified_done _
  · exact Program.Justified.untilSome fun cl _ => runCluster_edits e cl

end ProvisionExecutor

theorem Settings.provisionPass_provides (cfg : Settings) :
    ProvisionExecutor.Passes (cfg.task .provisionPass) :=
  cfg.provisioning.runOnce_edits.bind fun _ => justified_done _

/-- Every task that edits writes desired records only as changes of what it has read. -/
theorem Settings.task_edits (cfg : Settings) {t : Task} (h : t.edits = true) :
    Edits t (cfg.task t) := by
  cases t with
  | request req => exact (cfg.server.handle_serves req h).mono fun _ _ h => h.backs
  | provisionPass => exact cfg.provisionPass_provides.mono fun _ _ h => h.backs
  | _ => cases h

/-! ## How often a call commits -/

/-- The event is a write that succeeded. -/
def Ev.commits : Ev → Bool
  | ⟨.store op, .ok _⟩ => op.writes
  | _ => false

/-- One for a value, none for an error. -/
def returned {ε α : Type} : Except ε α → Nat
  | .ok _ => 1
  | .error _ => 0

/-- A response may be sent when it tells how many writes were committed. -/
def Op.tells (n : Nat) : Op → Prop
  | .respond result => n = returned result
  | _ => True

/-- The ghost state is the number of writes committed so far. -/
def counting : Contract medeaSig Nat :=
  .quiet (fun _ _ => True) (fun n e => e.op.tells n) fun n e => if Ev.commits e then n + 1 else n

/-- A call that commits one write if it returns a value, and none if it returns an error. -/
def CommitsOnce {ε α : Type} (p : Prog (Except ε α)) : Prop :=
  ∀ n, p.Keeps counting (fun r n' => n' = n + returned r) n

theorem foldl_counting (es : Trace medeaSig) (n : Nat) :
    es.foldl counting.next n = n + es.countP Ev.commits := by
  induction es generalizing n with
  | nil => rfl
  | cons e es ih =>
    rw [List.foldl_cons, ih, List.countP_cons]
    show (if Ev.commits e then n + 1 else n) + _ = _
    split <;> omega

/-- The writes in a whole trace of the call. -/
theorem CommitsOnce.of_steps {ε α : Type} {p : Prog (Except ε α)} (h : CommitsOnce p)
    {es : Trace medeaSig} {r : Except ε α} (hs : p.Steps es (.done r)) :
    es.countP Ev.commits = returned r := by
  have hadmits : Along counting.next counting.admits 0 es := along_of_split fun _ _ _ _ => trivial
  have hend := ((h 0).steps hs hadmits).2.of_done
  rw [foldl_counting] at hend
  omega

section Counting

variable {ε α : Type}

theorem once_error (e : ε) : CommitsOnce (Program.done (.error e) : Prog (Except ε α)) := by
  intro n
  rw [counting, Program.keeps_quiet_done]
  rfl

/-- An operation that commits nothing. -/
theorem once_call {op : Op} {k : op.Reply → Prog (Except ε α)} (hop : ∀ n, op.tells n)
    (hc : ∀ rep, Ev.commits ⟨op, rep⟩ = false) (hk : ∀ rep, CommitsOnce (k rep)) :
    CommitsOnce (call op >>= k) := by
  intro n
  show Program.Keeps counting _ (Program.request (S := medeaSig) op k) n
  rw [counting, Program.keeps_quiet_request]
  intro rep _
  refine ⟨hop n, ?_⟩
  rw [hc rep]
  exact hk rep n

theorem once_read {op : StoreOp} {k : (Op.store op).Reply → Prog (Except ε α)}
    (hr : op.writes = false) (hk : ∀ rep, CommitsOnce (k rep)) :
    CommitsOnce (call (.store op) >>= k) := by
  refine once_call (fun _ => trivial) (fun rep => ?_) hk
  cases rep with
  | error e => rfl
  | ok v => exact hr

/-- A write whose failure is returned as an error, and whose success as a value. -/
theorem once_write {op : StoreOp} {k : (Op.store op).Reply → Prog (Except ε α)}
    (hw : op.writes = true) (herr : ∀ e, ∃ x, k (.error e) = .done (.error x))
    (hok : ∀ v, ∃ a, k (.ok v) = .done (.ok a)) : CommitsOnce (call (.store op) >>= k) := by
  intro n
  show Program.Keeps counting _ (Program.request (S := medeaSig) (Op.store op) k) n
  rw [counting, Program.keeps_quiet_request]
  intro rep _
  refine ⟨trivial, ?_⟩
  cases rep with
  | error e =>
    obtain ⟨x, hx⟩ := herr e
    rw [hx, Program.keeps_quiet_done]
    rfl
  | ok v =>
    obtain ⟨a, ha⟩ := hok v
    rw [ha, Program.keeps_quiet_done, Ev.commits, if_pos hw]
    rfl

/-- What follows an error must commit once, and a value must be returned as one. -/
theorem CommitsOnce.bind {δ β : Type} {p : Prog (Except δ β)} {f : Except δ β → Prog (Except ε α)}
    (hp : CommitsOnce p) (herr : ∀ e, CommitsOnce (f (.error e)))
    (hok : ∀ b, ∃ a, f (.ok b) = .done (.ok a)) : CommitsOnce (p >>= f) := by
  intro n
  refine (hp n).bind fun r n' hn => ?_
  cases r with
  | error e =>
    -- nothing has been committed so far
    have hn' : n' = n := hn
    rw [hn']
    exact herr e n
  | ok b =>
    obtain ⟨a, ha⟩ := hok b
    rw [ha, counting, Program.keeps_quiet_done]
    exact hn

end Counting

namespace Server

theorem editCluster_once (cluster : String) (edit : Cluster → Nat → Except Status Cluster) :
    CommitsOnce (editCluster cluster edit) := by
  refine once_read rfl fun rep => ?_
  rcases rep with e | ⟨_ | c, rev⟩
  · exact once_error _
  · exact once_error _
  dsimp only
  cases edit c rev with
  | error s => exact once_error _
  | ok c' => exact once_write rfl (fun e => ⟨_, rfl⟩) fun v => ⟨_, rfl⟩

theorem editNodePool_once (cluster pool : String)
    (edit : NodePool → Nat → Except Status NodePool) :
    CommitsOnce (editNodePool cluster pool edit) := by
  refine once_read rfl fun rep => ?_
  rcases rep with e | ⟨_ | np, rev⟩
  · exact once_error _
  · exact once_error _
  dsimp only
  cases edit np rev with
  | error s => exact once_error _
  | ok np' => exact once_write rfl (fun e => ⟨_, rfl⟩) fun v => ⟨_, rfl⟩

theorem editRegisteredHost_once (req : RegisterHostRequest) (role : Role) :
    CommitsOnce (editRegisteredHost req role) := by
  refine once_read rfl fun rep => ?_
  rcases rep with e | ⟨cur, rev⟩
  · exact once_error _
  · exact once_write rfl (fun e => ⟨_, rfl⟩) fun v => ⟨_, rfl⟩

/-- A lost race has committed nothing, so the second attempt may commit. -/
theorem rmw_once {α : Type} {body : Prog (Except BodyError α)} (expected : Nat)
    (h : CommitsOnce body) : CommitsOnce (rmw body expected) := by
  have hall : ∀ n, CommitsOnce (rmwAttempts body expected n) := by
    intro n
    induction n with
    | zero => exact once_error _
    | succ n ih =>
      refine h.bind (fun e => ?_) fun a => ⟨_, rfl⟩
      rcases e with (_ | msg) | s
      · dsimp only
        split
        · exact once_error _
        · exact ih
      · exact once_error _
      · exact once_error _
  exact hall 2

theorem report_once {α : Type} {f : α → Response} {p : Prog (Except Status α)}
    (h : CommitsOnce p) : CommitsOnce (report f p) :=
  h.bind (fun s => once_error s) fun _ => ⟨_, rfl⟩

theorem setPaused_once (cluster pool : String) (paused : Bool) :
    CommitsOnce (setPaused cluster pool paused) := by
  rw [setPaused]
  split
  · exact once_error _
  · exact report_once (rmw_once 0 (editNodePool_once cluster pool _))

theorem setClusterFlag_once (cluster : String) (apply : Cluster → Cluster) :
    CommitsOnce (setClusterFlag cluster apply) := by
  rw [setClusterFlag]
  split
  · exact once_error _
  · exact report_once (rmw_once 0 (editCluster_once cluster _))

theorem registerHost_once (req : RegisterHostRequest) : CommitsOnce (registerHost req) := by
  have hput : ∀ role, CommitsOnce (putRegisteredHost req role) := fun role =>
    report_once (rmw_once 0 (editRegisteredHost_once req role))
  rw [registerHost]
  split
  · exact once_error _
  refine once_read rfl fun rep => ?_
  rcases rep with e | ⟨_ | c, rev⟩
  · exact once_error _
  · exact once_error _
  simp only [orStatus]
  split
  · refine once_read rfl fun rep => ?_
    rcases rep with e | ⟨_ | np, rev⟩
    · exact once_error _
    · exact once_error _
    · exact hput _
  · exact hput _

theorem answer_once (s : Server) {req : Request} (h : req.single = true) :
    CommitsOnce (s.answer req) := by
  cases req with
  | setClusterVersions cluster t k expected =>
    rw [answer, setClusterVersions]
    split
    · exact once_error _
    · exact report_once (rmw_once expected (editCluster_once cluster _))
  | setNodePoolVersion cluster pool t expected =>
    rw [answer, setNodePoolVersion]
    split
    · exact once_error _
    · exact report_once (rmw_once expected (editNodePool_once cluster pool _))
  | pauseRollout cluster pool => exact setPaused_once cluster pool true
  | resumeRollout cluster pool => exact setPaused_once cluster pool false
  | enableRollouts cluster | disableRollouts cluster | enableProvisioning cluster
  | disableProvisioning cluster => exact setClusterFlag_once cluster _
  | registerHost req => exact registerHost_once req
  | _ => cases h

/-- The response to a request that changes one record tells whether it was changed. -/
theorem handle_settled (s : Server) {req : Request} (h : req.single = true)
    {es : Trace medeaSig} {result : Except Status Response}
    {next : (Op.respond result).Reply → Prog Unit}
    (hs : (s.handle req).Steps es (.request (.respond result) next)) :
    es.countP Ev.commits = returned result := by
  have hkeeps : (s.handle req).Keeps counting (fun _ _ => True) 0 := by
    refine (answer_once s h 0).bind fun r n hn => ?_
    show Program.Keeps counting _ (Program.request (S := medeaSig) (Op.respond r) _) n
    rw [counting, Program.keeps_quiet_request]
    intro rep _
    refine ⟨?_, fun _ _ => trivial⟩
    show n = returned r
    omega
  have hadmits : Along counting.next counting.admits 0 es := along_of_split fun _ _ _ _ => trivial
  have hend := (hkeeps.steps hs hadmits).2
  rw [foldl_counting, counting, Program.keeps_quiet_request] at hend
  have htells := (hend () trivial).1
  rw [Nat.zero_add] at htells
  exact htells

end Server

namespace ProvisionReconciler

theorem editHost_once (cluster mac : String) (edit : Host → Host) :
    CommitsOnce (editHost cluster mac edit) := by
  refine once_read rfl fun rep => ?_
  rcases rep with e | ⟨_ | h, rev⟩
  · exact once_error _
  · exact once_error _
  · exact once_write rfl (fun e => ⟨_, rfl⟩) fun v => ⟨_, rfl⟩

theorem startProvisioning_once (cluster mac : String) :
    CommitsOnce (startProvisioning cluster mac) := by
  refine once_read rfl fun rep => ?_
  rcases rep with e | ⟨_ | h, rev⟩
  · exact once_error _
  · exact once_error _
  refine once_call (fun _ => trivial) (fun _ => rfl) fun now => ?_
  exact once_write rfl (fun e => ⟨_, rfl⟩) fun v => ⟨_, rfl⟩

theorem removeMember_once (cluster pool addr : String) :
    CommitsOnce (removeMember cluster pool addr) := by
  refine once_read rfl fun rep => ?_
  rcases rep with e | ⟨_ | np, rev⟩
  · exact once_error _
  · exact once_error _
  · exact once_write rfl (fun e => ⟨_, rfl⟩) fun v => ⟨_, rfl⟩

end ProvisionReconciler

end Medea
