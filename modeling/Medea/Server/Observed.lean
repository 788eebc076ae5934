import Medea.Inventory.Observed
import Medea.Server.Handlers

/-!
# Requests and observed state

A request that changes a cluster reads the record with its observed part and writes back what it has
read. `Server.answer_blind`: for every request, with alike answers of the store and the same answers
of the outside, the handler makes alike calls and its responses differ in observed parts at most.
-/

set_option autoImplicit false

namespace Medea

open Medea.Interaction

/-- The response without the observed parts of its records. -/
def Response.blank : Response → Response
  | .cluster c => .cluster c.blank
  | .clusters cs => .clusters (cs.map Cluster.blank)
  | .machines ms => .machines (ms.map Machine.blank)
  | r => r

namespace Server

variable {α β γ : Type} {view : β → γ}

/-! ## Calls -/

/-- A store call that only has to succeed. -/
theorem read_blind (op : StoreOp) {k k' : op.Value → Prog (Except Status β)}
    (hk : ∀ a a', op.view a = op.view a' → Blind (Agree view) (k a) (k' a')) :
    Blind (Agree view) (callStore op >>= fun r => orStatus r k)
      (callStore op >>= fun r => orStatus r k') :=
  (callStore_blind op).elim (fun _ => .done rfl) hk

/-- A store call that returns nothing observed. -/
theorem plain_blind (op : StoreOp) (hop : op.view = id) {k k' : op.Value → Prog (Except Status β)}
    (hk : ∀ a, Blind (Agree view) (k a) (k' a)) :
    Blind (Agree view) (callStore op >>= fun r => orStatus r k)
      (callStore op >>= fun r => orStatus r k') := by
  refine read_blind op ?_
  intro a a' haa'
  rw [hop] at haa'
  obtain rfl : a = a' := haa'
  exact hk a

/-- The read of a cluster finds nothing, or records that differ in what was observed. -/
theorem clusterRead_cases {x x' : Option Cluster × Nat}
    (h : (x.1.map Cluster.blank, x.2) = (x'.1.map Cluster.blank, x'.2)) :
    (x = (none, x'.2) ∧ x' = (none, x'.2)) ∨
      ∃ c c', x = (some c, x'.2) ∧ x' = (some c', x'.2) ∧ c.blank = c'.blank := by
  obtain ⟨o, rev⟩ := x
  obtain ⟨o', rev'⟩ := x'
  obtain ⟨ho, rfl⟩ := Prod.mk.inj h
  cases o with
  | none =>
    cases o' with
    | none => exact Or.inl ⟨rfl, rfl⟩
    | some c' => cases ho
  | some c =>
    cases o' with
    | none => cases ho
    | some c' => exact Or.inr ⟨c, c', rfl, rfl, Option.some.inj ho⟩

/-- A request that first looks up the cluster. -/
theorem lookup_blind (cluster : String) {k k' : Option Cluster × Nat → Prog (Except Status β)}
    (hnone : ∀ rev, Blind (Agree view) (k (none, rev)) (k' (none, rev)))
    (hsome : ∀ c c' rev, c.blank = c'.blank →
      Blind (Agree view) (k (some c, rev)) (k' (some c', rev))) :
    Blind (Agree view) (callStore (.getCluster cluster) >>= fun r => orStatus r k)
      (callStore (.getCluster cluster) >>= fun r => orStatus r k') := by
  refine read_blind _ ?_
  intro x x' hx
  rcases clusterRead_cases hx with ⟨hx, hx'⟩ | ⟨c, c', hx, hx', hc⟩
  · rw [hx, hx']
    exact hnone _
  · rw [hx, hx']
    exact hsome c c' _ hc

/-! ## Read-modify-write -/

theorem rmwAttempts_blind {body : Prog (Except BodyError β)} (hbody : Blind (Agree view) body body)
    (expected attempts : Nat) :
    Blind (Agree view) (rmwAttempts body expected attempts) (rmwAttempts body expected attempts) := by
  induction attempts with
  | zero => exact .done rfl
  | succ attempts ih =>
    refine hbody.elim ?_ ?_
    · intro e
      cases e with
      | status s => exact .done rfl
      | store e =>
        cases e with
        | other msg => exact .done rfl
        | conflict =>
          -- another attempt, unless a revision is pinned
          by_cases hpin : expected ≠ 0
          · simp only [if_pos hpin]
            exact .done rfl
          · simp only [if_neg hpin]
            exact ih
    · intro a a' haa'
      exact .done (congrArg Except.ok haa')

theorem rmw_blind {body : Prog (Except BodyError β)} (hbody : Blind (Agree view) body body)
    (expected : Nat) : Blind (Agree view) (rmw body expected) (rmw body expected) :=
  rmwAttempts_blind hbody expected 2

theorem report_blind {f : β → Response} {p : Prog (Except Status β)}
    (hp : Blind (Agree view) p p) (hf : ∀ a a', view a = view a' → (f a).blank = (f a').blank) :
    Blind (Agree Response.blank) (report f p) (report f p) := by
  refine hp.elim (fun e => .done rfl) ?_
  intro a a' haa'
  exact .done (congrArg Except.ok (hf a a' haa'))

/-- The copy that is written back has the observed part of the one that was read, and loses it. -/
theorem editCluster_blind (cluster : String) {edit : Cluster → Nat → Except Status Cluster}
    (hedit : ∀ c c' rev, c.blank = c'.blank → Agree Cluster.blank (edit c rev) (edit c' rev)) :
    Blind (Agree Cluster.blank) (editCluster cluster edit) (editCluster cluster edit) := by
  refine (callStore_blind (.getCluster cluster)).elim (fun e => .done rfl) ?_
  intro x x' hx
  rcases clusterRead_cases hx with ⟨hx, hx'⟩ | ⟨c, c', hx, hx', hc⟩
  · rw [hx, hx']
    exact .done rfl
  · rw [hx, hx']
    rcases agree_cases (hedit c c' x'.2 hc) with ⟨e, he, he'⟩ | ⟨d, d', hd, hd', hdd'⟩
    · simp only [he, he']
      exact .done rfl
    · simp only [hd, hd']
      refine (putCluster_blind hdd' x'.2).bind ?_
      rintro rep _ rfl
      cases rep with
      | error e => exact .done rfl
      | ok rev =>
        refine .done (congrArg Except.ok ?_)
        exact congrArg (fun d : Cluster => { d with revision := rev }) hdd'

theorem editNodePool_blind (cluster pool : String) (edit : NodePool → Nat → Except Status NodePool) :
    Blind (Agree id) (editNodePool cluster pool edit) (editNodePool cluster pool edit) := by
  refine (callPlain_blind (.getNodePool cluster pool) rfl).bind ?_
  rintro rep _ rfl
  rcases rep with e | ⟨np, rev⟩
  · exact .done rfl
  · cases np with
    | none => exact .done rfl
    | some np =>
      rcases hedit : edit np rev with s | np'
      · simp only [hedit]
        exact .done rfl
      · simp only [hedit]
        refine (callPlain_blind (.putNodePoolDesired np' rev) rfl).bind ?_
        rintro rep _ rfl
        cases rep <;> exact .done rfl

/-! ## Requests -/

/-- The handler of a request is blind to what is observed. -/
abbrev Unseeing (p : Prog (Except Status Response)) : Prop := Blind (Agree Response.blank) p p

theorem getCluster_unseeing (cluster : String) : Unseeing (getCluster cluster) := by
  rw [getCluster]
  refine ite_blind (.done rfl) ?_
  refine lookup_blind cluster (fun rev => .done rfl) ?_
  intro c c' rev hc
  exact .done (congrArg (fun c => Except.ok (Response.cluster c)) hc)

theorem credential_unseeing (wanted : Bool) (what cluster : String)
    {p : Prog (Except String Bytes)} (hp : Blind Eq p p)
    {k : Option Bytes → Prog (Except Status Response)} (hk : ∀ b, Unseeing (k b)) :
    Unseeing (credential wanted what cluster p k) := by
  rw [credential]
  split_ifs
  · refine hp.bind ?_
    rintro rep _ rfl
    cases rep with
    | error e => exact .done rfl
    | ok b => exact hk (some b)
  · exact hk none

theorem getCredentials_unseeing (s : Server) (cluster : String) (talosconfig kubeconfig secrets : Bool) :
    Unseeing (s.getCredentials cluster talosconfig kubeconfig secrets) := by
  rw [getCredentials]
  refine ite_blind (.done rfl) (ite_blind (.done rfl) ?_)
  refine lookup_blind cluster (fun rev => .done rfl) ?_
  intro c c' rev hc
  refine credential_unseeing _ _ _ (call_blind (.creds (.talosConfig cluster)) (by simp)) fun t => ?_
  refine credential_unseeing _ _ _ (call_blind (.creds (.kubeConfig cluster)) (by simp)) fun k => ?_
  exact credential_unseeing _ _ _ (call_blind (.creds (.secrets cluster)) (by simp)) fun b => .done rfl

theorem createCluster_unseeing (req : CreateClusterRequest) : Unseeing (createCluster req) := by
  rw [createCluster]
  refine ite_blind (.done rfl) (ite_blind (.done rfl) ?_)
  refine lookup_blind req.name (fun rev => ?_) fun c c' rev hc => .done rfl
  refine plain_blind (.getClusterBootstrap req.name) rfl fun cb => ?_
  cases cb with
  | some cb => exact .done rfl
  | none =>
    refine ite_blind (.done rfl) ?_
    refine plain_blind (.putHostDesired (controlPlaneHost req) 0) rfl fun rev => ?_
    exact plain_blind (.putClusterBootstrap _) rfl fun _ => .done rfl

theorem listClusters_unseeing : Unseeing listClusters := by
  refine read_blind .listClusters ?_
  intro cs cs' hcs
  exact .done (congrArg (fun cs => Except.ok (Response.clusters cs)) hcs)

theorem listNodePools_unseeing (cluster : String) : Unseeing (listNodePools cluster) := by
  rw [listNodePools]
  refine ite_blind (.done rfl) ?_
  exact plain_blind (.listNodePools cluster) rfl fun nps => .done rfl

theorem listMachines_unseeing (cluster pool : String) : Unseeing (listMachines cluster pool) := by
  rw [listMachines]
  refine ite_blind (.done rfl) ?_
  refine read_blind (.listMachines cluster pool) ?_
  intro ms ms' hms
  exact .done (congrArg (fun ms => Except.ok (Response.machines ms)) hms)

theorem listHosts_unseeing (cluster pool : String) : Unseeing (listHosts cluster pool) := by
  rw [listHosts]
  refine ite_blind (.done rfl) ?_
  exact plain_blind (.listHosts cluster pool) rfl fun hs => .done rfl

theorem listRollouts_unseeing (cluster : String) : Unseeing (listRollouts cluster) := by
  rw [listRollouts]
  refine ite_blind (.done rfl) ?_
  exact plain_blind (.listRolloutJobs cluster) rfl fun jobs => .done rfl

/-- The records are looked up by the addresses of the machines, which are not observed. -/
theorem machineRollouts_blind (cluster : String) {ms ms' : List Machine}
    (hms : ms.map Machine.blank = ms'.map Machine.blank) :
    Blind (Agree id) (machineRollouts cluster ms) (machineRollouts cluster ms') := by
  induction ms generalizing ms' with
  | nil =>
    obtain rfl : ms' = [] := by simpa using hms.symm
    exact .done rfl
  | cons m ms ih =>
    cases ms' with
    | nil => cases hms
    | cons m' ms' =>
      obtain ⟨hm, hms⟩ : m.blank = m'.blank ∧ ms.map Machine.blank = ms'.map Machine.blank := by
        simpa using hms
      have haddr : m.talosEndpoint = m'.talosEndpoint := by
        simpa [Machine.blank] using congrArg Machine.talosEndpoint hm
      rw [machineRollouts, machineRollouts, haddr]
      refine plain_blind (.getMachineRollout cluster m'.talosEndpoint) rfl fun mr => ?_
      refine (ih hms).elim (fun e => .done rfl) ?_
      rintro rest _ rfl
      exact .done rfl

theorem getRollout_unseeing (cluster pool : String) : Unseeing (getRollout cluster pool) := by
  rw [getRollout]
  refine ite_blind (.done rfl) ?_
  refine plain_blind (.getClusterRollout cluster) rfl fun cr => ?_
  refine read_blind (.listMachines cluster pool) ?_
  intro ms ms' hms
  refine (machineRollouts_blind cluster hms).elim (fun e => .done rfl) ?_
  rintro rollouts _ rfl
  exact .done rfl

theorem withClusterVersions_blank {c c' : Cluster} (h : c.blank = c'.blank)
    (talosVersion kubernetesVersion : Option String) :
    (withClusterVersions talosVersion kubernetesVersion c).blank =
      (withClusterVersions talosVersion kubernetesVersion c').blank :=
  congrArg (withClusterVersions talosVersion kubernetesVersion) h

theorem setClusterVersions_unseeing (cluster : String)
    (talosVersion kubernetesVersion : Option String) (expected : Nat) :
    Unseeing (setClusterVersions cluster talosVersion kubernetesVersion expected) := by
  rw [setClusterVersions]
  refine ite_blind (.done rfl) ?_
  refine report_blind (rmw_blind (editCluster_blind cluster ?_) expected) ?_
  · intro c c' rev hc
    cases checkPin expected rev with
    | error s => rfl
    | ok _ => exact congrArg Except.ok (withClusterVersions_blank hc _ _)
  · intro c c' hc
    have hrev : c.revision = c'.revision := by simpa [Cluster.blank] using congrArg Cluster.revision hc
    rw [hrev]

theorem setNodePoolVersion_unseeing (cluster pool : String) (talosVersion : Option String)
    (expected : Nat) : Unseeing (setNodePoolVersion cluster pool talosVersion expected) := by
  rw [setNodePoolVersion]
  refine ite_blind (.done rfl) ?_
  refine report_blind (rmw_blind (editNodePool_blind cluster pool _) expected) ?_
  rintro rev _ rfl
  rfl

theorem setPaused_unseeing (cluster pool : String) (paused : Bool) :
    Unseeing (setPaused cluster pool paused) := by
  rw [setPaused]
  refine ite_blind (.done rfl) ?_
  refine report_blind (rmw_blind (editNodePool_blind cluster pool _) 0) ?_
  rintro rev _ rfl
  rfl

theorem setClusterFlag_unseeing (cluster : String) {apply : Cluster → Cluster}
    (happly : ∀ c c' : Cluster, c.blank = c'.blank → (apply c).blank = (apply c').blank) :
    Unseeing (setClusterFlag cluster apply) := by
  rw [setClusterFlag]
  refine ite_blind (.done rfl) ?_
  refine report_blind (rmw_blind (editCluster_blind cluster ?_) 0) ?_
  · intro c c' rev hc
    exact congrArg Except.ok (happly c c' hc)
  · intro c c' hc
    exact congrArg Response.cluster hc

theorem setRolloutsEnabled_unseeing (cluster : String) (enabled : Bool) :
    Unseeing (setRolloutsEnabled cluster enabled) :=
  setClusterFlag_unseeing cluster fun _ _ hc =>
    congrArg (fun c : Cluster => { c with rolloutsEnabled := enabled }) hc

theorem provisioningFlag_unseeing (cluster : String) (enabled : Bool) :
    Unseeing (setClusterFlag cluster fun c => { c with provisioningEnabled := enabled }) :=
  setClusterFlag_unseeing cluster fun _ _ hc =>
    congrArg (fun c : Cluster => { c with provisioningEnabled := enabled }) hc

theorem recordJob_unseeing (job : Rollout) : Unseeing (recordJob job) := by
  refine plain_blind (.putRolloutJob job) rfl fun _ => ?_
  exact plain_blind (.getRolloutJob job.cluster job.pool) rfl fun saved => .done rfl

theorem createTalosRollout_unseeing (req : CreateRolloutRequest) :
    Unseeing (createTalosRollout req) := by
  rw [createTalosRollout]
  refine ite_blind (.done rfl) ?_
  refine plain_blind (.getNodePool req.cluster req.pool) rfl fun np => ?_
  obtain ⟨np, rev⟩ := np
  cases np with
  | none => exact .done rfl
  | some np =>
    refine (rmw_blind (editNodePool_blind req.cluster req.pool _) 0).elim (fun e => .done rfl) ?_
    rintro nr _ rfl
    refine (call_blind .now (by simp)).bind ?_
    rintro now _ rfl
    exact recordJob_unseeing _

theorem createKubernetesRollout_unseeing (req : CreateRolloutRequest) :
    Unseeing (createKubernetesRollout req) := by
  rw [createKubernetesRollout]
  refine ite_blind (.done rfl) ?_
  refine (rmw_blind (editCluster_blind req.cluster ?_) 0).elim (fun e => .done rfl) ?_
  · intro c c' rev hc
    exact congrArg Except.ok (withClusterVersions_blank hc _ _)
  · intro c c' _
    refine read_blind (.listMachines req.cluster "") ?_
    intro ms ms' hms
    -- the planned targets are addresses
    have htargets : ms.map (·.talosEndpoint) = ms'.map (·.talosEndpoint) := by
      simpa [StoreOp.view, Machine.blank, Function.comp_def] using congrArg (List.map Machine.talosEndpoint) hms
    rw [htargets]
    refine (call_blind .now (by simp)).bind ?_
    rintro now _ rfl
    exact recordJob_unseeing _

theorem createRollout_unseeing (req : CreateRolloutRequest) : Unseeing (createRollout req) := by
  rw [createRollout]
  refine ite_blind (.done rfl) (ite_blind (.done rfl) ?_)
  refine lookup_blind req.cluster (fun rev => .done rfl) ?_
  intro c c' rev hc
  have henabled : c.rolloutsEnabled = c'.rolloutsEnabled := by
    simpa [Cluster.blank] using congrArg Cluster.rolloutsEnabled hc
  have hmode : c.mode = c'.mode := by simpa [Cluster.blank] using congrArg Cluster.mode hc
  simp only [henabled, hmode]
  split_ifs
  · exact .done rfl
  · exact .done rfl
  · cases req.kind with
    | talos => exact createTalosRollout_unseeing req
    | kubernetes => exact createKubernetesRollout_unseeing req
    | unspecified => exact .done rfl

theorem putRegisteredHost_unseeing (req : RegisterHostRequest) (role : Role) :
    Unseeing (putRegisteredHost req role) := by
  have hbody : Blind (Agree id) (editRegisteredHost req role) (editRegisteredHost req role) := by
    refine (callPlain_blind (.getHost req.cluster req.mac) rfl).bind ?_
    rintro rep _ rfl
    rcases rep with e | ⟨cur, rev⟩
    · exact .done rfl
    · refine (callPlain_blind (.putHostDesired (registeredHost req role cur) rev) rfl).bind ?_
      rintro rep _ rfl
      cases rep <;> exact .done rfl
  refine report_blind (rmw_blind hbody 0) ?_
  rintro h _ rfl
  rfl

theorem registerHost_unseeing (req : RegisterHostRequest) : Unseeing (registerHost req) := by
  rw [registerHost]
  refine ite_blind (.done rfl) ?_
  refine lookup_blind req.cluster (fun rev => .done rfl) ?_
  intro c c' rev hc
  refine ite_blind ?_ ?_
  · refine plain_blind (.getNodePool req.cluster req.pool) rfl fun np => ?_
    obtain ⟨np, rev⟩ := np
    cases np with
    | none => exact .done rfl
    | some np => exact putRegisteredHost_unseeing req _
  · exact putRegisteredHost_unseeing req _

theorem deregisterHost_unseeing (cluster mac : String) : Unseeing (deregisterHost cluster mac) := by
  rw [deregisterHost]
  refine ite_blind (.done rfl) ?_
  exact plain_blind (.deleteHost cluster mac) rfl fun _ => .done rfl

theorem deleteCluster_unseeing (s : Server) (name : String) : Unseeing (s.deleteCluster name) := by
  rw [deleteCluster]
  refine ite_blind (.done rfl) ?_
  refine plain_blind (.deleteCluster name) rfl fun _ => ?_
  refine ite_blind ?_ (.done rfl)
  refine (call_blind (.creds (.delete name)) (by simp)).bind ?_
  rintro rep _ rfl
  cases rep <;> exact .done rfl

/-- Every handler is blind to what is observed. -/
theorem answer_blind (s : Server) (req : Request) : Unseeing (s.answer req) := by
  cases req with
  | getCluster cluster => exact getCluster_unseeing cluster
  | getCredentials cluster t k b => exact getCredentials_unseeing s cluster t k b
  | createCluster req => exact createCluster_unseeing req
  | listClusters => exact listClusters_unseeing
  | listNodePools cluster => exact listNodePools_unseeing cluster
  | listMachines cluster pool => exact listMachines_unseeing cluster pool
  | getRollout cluster pool => exact getRollout_unseeing cluster pool
  | setClusterVersions cluster t k expected => exact setClusterVersions_unseeing cluster t k expected
  | setNodePoolVersion cluster pool t expected =>
    exact setNodePoolVersion_unseeing cluster pool t expected
  | pauseRollout cluster pool => exact setPaused_unseeing cluster pool true
  | resumeRollout cluster pool => exact setPaused_unseeing cluster pool false
  | enableRollouts cluster => exact setRolloutsEnabled_unseeing cluster true
  | disableRollouts cluster => exact setRolloutsEnabled_unseeing cluster false
  | enableProvisioning cluster => exact provisioningFlag_unseeing cluster true
  | disableProvisioning cluster => exact provisioningFlag_unseeing cluster false
  | createRollout req => exact createRollout_unseeing req
  | listRollouts cluster => exact listRollouts_unseeing cluster
  | listHosts cluster pool => exact listHosts_unseeing cluster pool
  | registerHost req => exact registerHost_unseeing req
  | deregisterHost cluster mac => exact deregisterHost_unseeing cluster mac
  | deleteCluster name => exact deleteCluster_unseeing s name

end Server

end Medea
