import Medea.ControlPlane.Processes

/-!
# Which operations the tasks issue

What a program may do, whatever the answers: `Does allowed p`. A task mostly looks around (`Op.passive`), or at
least writes nothing to the store (`Op.writeless`); the few operations by which it changes something are
hypotheses of the lemma about it. Several properties of the tasks follow from one such lemma.
-/

set_option autoImplicit false

namespace Medea

open Medea.Interaction

/-- The operation leaves credentials, configurations and nodes alone. -/
def Op.inert : Op → Bool
  | .creds (.put _ _ _) | .creds (.putSecrets _ _) | .creds (.delete _) => false
  | .provisioner _ _ => false
  | .talos _ (.bootstrap _) => false
  | _ => true

/-- The operation changes nothing at all. -/
def Op.passive : Op → Bool
  | .store op => !op.writes
  | op => op.inert

/-- The operation writes nothing to the store. -/
def Op.writeless : Op → Bool
  | .store op => !op.writes
  | _ => true

theorem Op.writeless_of_passive (op : Op) (h : op.passive = true) : op.writeless = true := by
  cases op with
  | store => exact h
  | _ => rfl

/-- The operations that change a host, a machine, a pool or the boot files of a cluster. -/
def Op.touches (c : String) : Op → Prop
  | .store (.putHostDesired h _) => h.cluster = c
  | .store (.deleteHost cluster _) => cluster = c
  | .store (.putMachineDesired m _) => m.cluster = c
  | .store (.deleteMachine cluster _) => cluster = c
  | .store (.putNodePoolDesired np _) => np.cluster = c
  | .store (.deleteCluster cluster) => cluster = c
  | .provisioner cluster _ => cluster = c
  | .kube client _ (.drain _ _) => client.cluster = c
  | _ => False

/-- The inputs of worker configurations satisfy `P`. -/
def Op.Renders (P : GeneratorInput → Prop) : Op → Prop
  | .machinery (.workerConfig input) => P input
  | _ => True

/-- Every operation of the program is allowed. -/
abbrev Does {α : Type} (allowed : Op → Prop) (p : Prog α) : Prop :=
  p.Within (fun _ => True) allowed fun _ => True

section Does

variable {α β : Type} {allowed : Op → Prop}

theorem does_call {op : Op} {k : op.Reply → Prog α} (hop : allowed op)
    (hk : ∀ rep, Does allowed (k rep)) : Does allowed (call op >>= k) :=
  ⟨hop, fun rep _ => hk rep⟩

theorem does_last {op : Op} (hop : allowed op) : Does allowed (call op) :=
  ⟨hop, fun _ _ => trivial⟩

theorem does_bind {p : Prog α} {f : α → Prog β} (hp : Does allowed p)
    (hf : ∀ a, Does allowed (f a)) : Does allowed (p >>= f) :=
  hp.bind fun a _ => hf a

/-- What a program does is allowed, whatever is known of the answers. -/
theorem Does.within {p : Prog α} {reads : Ev → Prop} (hp : Does allowed p) :
    p.Within reads allowed fun _ => True := by
  induction p with
  | done a => trivial
  | request op next ih => exact ⟨hp.1, fun rep _ => ih rep (hp.2 rep trivial)⟩

theorem does_discard {p : Prog α} (hp : Does allowed p) : Does allowed (discard p) :=
  does_bind hp fun _ => trivial

end Does

section Machinery

variable {allowed : Op → Prop} (hpassive : ∀ op : Op, op.passive = true → allowed op)
include hpassive

theorem loadPatches_does (i : Nat) (ps : List Bytes) : Does allowed (loadPatches i ps) := by
  induction ps generalizing i with
  | nil => trivial
  | cons p ps ih =>
    apply does_call (hpassive _ rfl)
    rintro (e | patch)
    · trivial
    apply does_bind (ih (i + 1))
    rintro (e | rest)
    · trivial
    · trivial

theorem applyPatches_does (config : Bytes) (ps : List Bytes) :
    Does allowed (applyPatches config ps) := by
  apply does_bind (loadPatches_does hpassive 0 ps)
  rintro (e | loaded)
  · trivial
  apply does_call (hpassive _ rfl)
  rintro (e | out)
  · trivial
  · trivial

theorem renderControlPlaneConfig_does (cb : ClusterBootstrap) (image : String) (secrets : Bytes) :
    Does allowed (renderControlPlaneConfig cb image secrets) := by
  rw [renderControlPlaneConfig]
  split
  · trivial
  apply does_call (hpassive _ rfl)
  rintro (e | out)
  · trivial
  dsimp only
  split
  · trivial
  · exact applyPatches_does hpassive _ _

end Machinery

namespace BootstrapReconciler

variable {allowed : Op → Prop} {cb : ClusterBootstrap}

theorem put_does {phase : ClusterBootstrapPhase} {msg : String}
    (hput : allowed (.store (.putClusterBootstrap { cb with phase := phase, message := msg }))) :
    Does allowed (put cb phase msg) := by
  apply does_call hput
  rintro (e | ⟨⟩)
  · trivial
  · trivial

section Steps

variable (hpassive : ∀ op : Op, op.passive = true → allowed op)
include hpassive

theorem connect_does : Does allowed (connect cb) := by
  apply does_call (hpassive _ rfl)
  rintro (e | tc)
  · trivial
  · exact does_last (hpassive _ rfl)

theorem mintSecrets_does (hsecrets : ∀ b, allowed (.creds (.putSecrets cb.cluster b)))
    (hput : ∀ msg, allowed (.store (.putClusterBootstrap { cb with phase := .staging, message := msg }))) :
    Does allowed (mintSecrets cb) := by
  apply does_call (hpassive _ rfl)
  rintro (e | bundle)
  · trivial
  apply does_call (hpassive _ rfl)
  rintro (e | out)
  · trivial
  apply does_call (hsecrets out)
  rintro (e | ⟨⟩)
  · trivial
  · exact put_does (hput _)

theorem generateSecrets_does (hsecrets : ∀ b, allowed (.creds (.putSecrets cb.cluster b)))
    (hput : ∀ msg, allowed (.store (.putClusterBootstrap { cb with phase := .staging, message := msg }))) :
    Does allowed (generateSecrets cb) := by
  apply does_call (hpassive _ rfl)
  rintro (e | b)
  · exact mintSecrets_does hpassive hsecrets hput
  dsimp only
  split
  · exact put_does (hput _)
  · exact mintSecrets_does hpassive hsecrets hput

theorem stage_does (r : BootstrapReconciler) (hcreds : ∀ t, allowed (.creds (.put cb.cluster t [])))
    (hstage : ∀ p cfg, allowed (.provisioner cb.cluster (.stage cb.cpMac p cfg)))
    (hput : ∀ msg, allowed
      (.store (.putClusterBootstrap { cb with phase := .awaitingInstall, message := msg }))) :
    Does allowed (r.stage cb) := by
  apply does_call (hpassive _ rfl)
  rintro (e | raw)
  · trivial
  apply does_call (hpassive _ rfl)
  rintro (e | bundle)
  · trivial
  apply does_call (hpassive _ rfl)
  rintro (e | schematic)
  · trivial
  apply does_bind (renderControlPlaneConfig_does hpassive _ _ _)
  rintro (e | cfg)
  · trivial
  apply does_call (hpassive _ rfl)
  rintro (e | tc)
  · trivial
  apply does_call (hcreds tc)
  rintro (e | ⟨⟩)
  · trivial
  apply does_call (hstage _ cfg)
  rintro (e | ⟨⟩)
  · trivial
  · exact put_does (hput _)

theorem awaitInstall_does (hput : ∀ msg, allowed
      (.store (.putClusterBootstrap { cb with phase := .bootstrapping, message := msg }))) :
    Does allowed (awaitInstall cb) := by
  apply does_bind (connect_does hpassive)
  rintro (e | ⟨⟩)
  · trivial
  apply does_call (hpassive _ rfl)
  rintro (e | v)
  · trivial
  · exact put_does (hput _)

theorem bootstrapEtcd_does (hetcd : allowed (.talos (client cb) (.bootstrap cb.cpIp)))
    (hput : ∀ msg, allowed
      (.store (.putClusterBootstrap { cb with phase := .awaitingHealthy, message := msg }))) :
    Does allowed (bootstrapEtcd cb) := by
  apply does_bind (connect_does hpassive)
  rintro (e | ⟨⟩)
  · trivial
  apply does_call hetcd
  rintro (e | ⟨⟩)
  · dsimp only
    split
    · exact put_does (hput _)
    · trivial
  · exact put_does (hput _)

omit hpassive in
theorem ensure_does {α : Type} {read : Except StoreError (Option α × Nat)}
    {write : Prog (Except StoreError Nat)} (hwrite : Does allowed write) :
    Does allowed (ensure read write) := by
  unfold ensure
  split
  · trivial
  · apply does_bind hwrite
    rintro (e | rev)
    · trivial
    · trivial

theorem seedInventory_does (hcluster : allowed (.store (.putClusterDesired (clusterRecord cb) 0)))
    (hpool : allowed (.store (.putNodePoolDesired (poolRecord cb) 0)))
    (hmachine : allowed (.store (.putMachineDesired (machineRecord cb) 0))) :
    Does allowed (seedInventory cb) := by
  apply does_call (hpassive _ rfl)
  intro read
  apply does_bind (ensure_does (does_last hcluster))
  rintro (e | ⟨⟩)
  · trivial
  apply does_call (hpassive _ rfl)
  intro read
  apply does_bind (ensure_does (does_last hpool))
  rintro (e | ⟨⟩)
  · trivial
  apply does_call (hpassive _ rfl)
  intro read
  exact ensure_does (does_last hmachine)

theorem fetchKubeconfig_does (hcreds : ∀ t k, allowed (.creds (.put cb.cluster t k)))
    (hcluster : allowed (.store (.putClusterDesired (clusterRecord cb) 0)))
    (hpool : allowed (.store (.putNodePoolDesired (poolRecord cb) 0)))
    (hmachine : allowed (.store (.putMachineDesired (machineRecord cb) 0)))
    (hput : ∀ msg, allowed (.store (.putClusterBootstrap { cb with phase := .ready, message := msg }))) :
    Does allowed (fetchKubeconfig cb) := by
  apply does_bind (connect_does hpassive)
  rintro (e | ⟨⟩)
  · trivial
  apply does_call (hpassive _ rfl)
  rintro (e | kube)
  · trivial
  apply does_call (hpassive _ rfl)
  rintro (e | talos)
  · trivial
  apply does_call (hcreds talos kube)
  rintro (e | ⟨⟩)
  · trivial
  apply does_bind (seedInventory_does hpassive hcluster hpool hmachine)
  rintro (e | ⟨⟩)
  · trivial
  · exact put_does (hput _)

theorem timedOut_does (r : BootstrapReconciler) : Does allowed (r.timedOut cb) := by
  unfold timedOut
  split
  · trivial
  · exact does_call (hpassive _ rfl) fun _ => trivial

end Steps

theorem advance_does (r : BootstrapReconciler) (hidle : ∀ op : Op, op.writeless = true → allowed op)
    (hcluster : allowed (.store (.putClusterDesired (clusterRecord cb) 0)))
    (hpool : allowed (.store (.putNodePoolDesired (poolRecord cb) 0)))
    (hmachine : allowed (.store (.putMachineDesired (machineRecord cb) 0)))
    (hput : ∀ cb' : ClusterBootstrap, cb'.cluster = cb.cluster → allowed (.store (.putClusterBootstrap cb'))) :
    Does allowed (r.advance cb) := by
  have hpassive : ∀ op : Op, op.passive = true → allowed op :=
    fun op h => hidle op (op.writeless_of_passive h)
  rw [advance]
  cases cb.phase with
  | notBootstrapped => exact does_call (hpassive _ rfl) fun now => put_does (hput _ rfl)
  | generatingSecrets => exact generateSecrets_does hpassive (fun _ => hidle _ rfl) fun _ => hput _ rfl
  | staging =>
    exact stage_does hpassive r (fun _ => hidle _ rfl) (fun _ _ => hidle _ rfl) fun _ => hput _ rfl
  | awaitingInstall => exact awaitInstall_does hpassive fun _ => hput _ rfl
  | bootstrapping => exact bootstrapEtcd_does hpassive (hidle _ rfl) fun _ => hput _ rfl
  | awaitingHealthy | fetchingKubeconfig =>
    exact fetchKubeconfig_does hpassive (fun _ _ => hidle _ rfl) hcluster hpool hmachine fun _ => hput _ rfl
  | unspecified | ready | failed => trivial

end BootstrapReconciler

section Idle

variable {allowed : Op → Prop} (hidle : ∀ op : Op, op.writeless = true → allowed op)
include hidle

/-! ## Seeding and refreshing -/

namespace SeedInputs

variable (input : SeedInputs)

theorem scanNodes_does (nodes : List NodeInfo) (scan : SeedScan) :
    Does allowed (input.scanNodes nodes scan) := by
  induction nodes generalizing scan with
  | nil => trivial
  | cons n ns ih =>
    rw [scanNodes]
    split
    · trivial
    refine does_call (hidle _ rfl) ?_
    rintro (e | tv)
    · trivial
    · exact ih _

theorem fallback_does (scan : SeedScan) : Does allowed (input.fallback scan) := by
  rw [fallback]
  split
  · exact does_call (hidle _ rfl) fun _ => trivial
  · trivial

variable (hcluster : ∀ scan rev, allowed (.store (.putClusterDesired (input.clusterRecord scan) rev)))
  (hpool : ∀ scan pool rev, allowed (.store (.putNodePoolDesired (input.poolRecord scan pool) rev)))
  (hmachine : ∀ m rev, allowed (.store (.putMachineDesired (input.machineRecord m) rev)))
include hcluster hpool hmachine

theorem write_does (scan : SeedScan) : Does allowed (input.write scan) := by
  have hput : Does allowed (input.putCluster scan) := by
    refine does_call (hidle _ rfl) ?_
    rintro (e | ⟨c, rev⟩)
    · trivial
    refine does_call (hcluster scan _) ?_
    rintro (e | rev)
    · trivial
    · trivial
  apply does_bind hput
  rintro (_ | e)
  · refine does_bind (Program.within_untilSome fun pool _ => ?_) ?_
    · refine does_call (hidle _ rfl) ?_
      rintro (e | ⟨np, rev⟩)
      · trivial
      refine does_call (hpool scan pool _) ?_
      rintro (e | rev)
      · trivial
      · trivial
    · rintro (_ | e)
      · refine Program.within_untilSome fun m _ => does_call (hidle _ rfl) ?_
        rintro (e | ⟨m', rev⟩)
        · trivial
        refine does_call (hmachine m _) ?_
        rintro (e | rev)
        · trivial
        · trivial
      · trivial
  · trivial

theorem apply_does : Does allowed input.apply := by
  rw [apply]
  split
  · trivial
  apply does_bind (scanNodes_does hidle input _ _)
  rintro (e | scan)
  · trivial
  dsimp only
  split
  · trivial
  refine does_bind (fallback_does hidle input scan) fun scan => ?_
  apply does_bind (write_does hidle input hcluster hpool hmachine scan)
  rintro (_ | e)
  · trivial
  · trivial

end SeedInputs

namespace Refresher

theorem refreshCluster_does (cl : Cluster) : Does allowed (refreshCluster cl) := by
  refine does_call (hidle _ rfl) ?_
  rintro (e | ⟨⟩)
  · trivial
  refine does_call (hidle _ rfl) ?_
  rintro (e | nodes)
  · exact does_call (hidle _ rfl) fun _ => trivial
  refine does_call (hidle _ rfl) ?_
  rintro (e | machines)
  · trivial
  refine does_bind (Program.within_forEach fun m _ => ?_) fun _ =>
    does_call (hidle _ rfl) fun _ => trivial
  exact does_call (hidle _ rfl) fun _ => does_call (hidle _ rfl) fun _ => trivial

theorem refreshAll_does (cls : List Cluster) : Does allowed (refreshAll cls) := by
  induction cls with
  | nil => trivial
  | cons cl cls ih =>
    refine does_bind (refreshCluster_does hidle cl) fun result => does_bind ih fun errs => ?_
    cases result with
    | error e => trivial
    | ok u => trivial

theorem once_does : Does allowed once := by
  refine does_call (hidle _ rfl) ?_
  rintro (e | clusters)
  · trivial
  · exact refreshAll_does hidle clusters

end Refresher

/-! ## The requests that change no record -/

namespace Server

omit hidle in
theorem orStatus_does {α β : Type} {r : Except StoreError α} {k : α → Prog (Except Status β)}
    (hk : ∀ a, Does allowed (k a)) : Does allowed (orStatus r k) := by
  cases r with
  | error e => trivial
  | ok a => exact hk a

/-- A read followed by the rest of a call. -/
theorem read_does {β : Type} {op : StoreOp} {k : op.Value → Prog (Except Status β)}
    (h : op.writes = false) (hk : ∀ a, Does allowed (k a)) :
    Does allowed (callStore op >>= fun r => orStatus r k) :=
  does_call (hidle (.store op) (by rw [Op.writeless, h]; rfl)) fun _ => orStatus_does hk

theorem listClusters_does : Does allowed listClusters := read_does hidle rfl fun _ => trivial

/-- A call that only lists. -/
theorem list_does {β : Type} {op : StoreOp} {cluster : String} {e : Status} {f : op.Value → β}
    (h : op.writes = false) :
    Does allowed (if cluster = "" then return .error e
      else do orStatus (← callStore op) fun a => return .ok (f a) : Prog (Except Status β)) := by
  split
  · trivial
  · exact read_does hidle h fun _ => trivial

theorem getCluster_does (cluster : String) : Does allowed (getCluster cluster) := by
  rw [getCluster]
  split
  · trivial
  refine read_does hidle rfl fun c => ?_
  cases c.1 with
  | none => trivial
  | some c => trivial

omit hidle in
theorem credential_does {wanted : Bool} {what cluster : String} {op : Prog (Except String Bytes)}
    {k : Option Bytes → Prog (Except Status Response)} (hop : Does allowed op)
    (hk : ∀ b, Does allowed (k b)) : Does allowed (credential wanted what cluster op k) := by
  rw [credential]
  split
  · apply does_bind hop
    rintro (e | b)
    · trivial
    · exact hk (some b)
  · exact hk none

theorem getCredentials_does (s : Server) (cluster : String) (t k b : Bool) :
    Does allowed (s.getCredentials cluster t k b) := by
  rw [getCredentials]
  split
  · trivial
  split
  · trivial
  refine read_does hidle rfl fun c => ?_
  cases c.1 with
  | none => trivial
  | some c =>
    exact credential_does (does_last (hidle _ rfl)) fun _ =>
      credential_does (does_last (hidle _ rfl)) fun _ =>
        credential_does (does_last (hidle _ rfl)) fun _ => trivial

theorem machineRollouts_does (cluster : String) (ms : List Machine) :
    Does allowed (machineRollouts cluster ms) := by
  induction ms with
  | nil => trivial
  | cons m ms ih =>
    refine read_does hidle rfl fun mr => ?_
    apply does_bind ih
    rintro (e | rest)
    · trivial
    · trivial

theorem getRollout_does (cluster pool : String) : Does allowed (getRollout cluster pool) := by
  rw [getRollout]
  split
  · trivial
  refine read_does hidle rfl fun cr => read_does hidle rfl fun ms => ?_
  apply does_bind (machineRollouts_does hidle cluster ms)
  rintro (e | rollouts)
  · trivial
  · trivial

theorem createCluster_does {req : CreateClusterRequest}
    (hhost : allowed (.store (.putHostDesired (controlPlaneHost req) 0)))
    (harm : ∀ msg, allowed (.store (.putClusterBootstrap { requestedBootstrap req with message := msg }))) :
    Does allowed (createCluster req) := by
  rw [createCluster]
  split
  · trivial
  split
  · trivial
  refine read_does hidle rfl fun c => ?_
  cases c.1 with
  | some c => trivial
  | none =>
    refine read_does hidle rfl fun cb => ?_
    cases cb with
    | some cb => trivial
    | none =>
      dsimp only
      split
      · trivial
      exact does_call hhost fun _ => orStatus_does fun _ =>
        does_call (harm _) fun _ => orStatus_does fun _ => trivial

theorem deleteCluster_does (s : Server) {name : String} (hdelete : allowed (.store (.deleteCluster name))) :
    Does allowed (s.deleteCluster name) := by
  rw [deleteCluster]
  split
  · trivial
  refine does_call hdelete fun _ => orStatus_does fun _ => ?_
  split
  · refine does_call (hidle _ rfl) ?_
    rintro (e | ⟨⟩)
    · trivial
    · trivial
  · trivial

omit hidle in
theorem deregisterHost_does {cluster mac : String} (hdelete : allowed (.store (.deleteHost cluster mac))) :
    Does allowed (deregisterHost cluster mac) := by
  rw [deregisterHost]
  split
  · trivial
  · exact does_call hdelete fun _ => orStatus_does fun _ => trivial

end Server

end Idle

end Medea
