import Medea.Properties.BringUp

/-!
# The milestones of a bring-up

What each persisted phase of a bring-up stands for: secrets that are stored, a talosconfig and a machine
configuration that were derived from them, and in the end the kubeconfig and the records of the new
cluster. `bootstrap_milestones`: they hold at every point of every run of `Reconcile` calls that follows
the creation of the cluster, with failures of everything and crashes between any two operations, if
nobody else touches what belongs to the cluster; and a bring-up that is over stays over.
-/

set_option autoImplicit false

namespace Medea

open Medea.Interaction BootstrapReconciler

namespace Milestones

variable {cluster : String} {s s' : Facility} {e : Ev} {cb : ClusterBootstrap}
variable {phase : ClusterBootstrapPhase}

/-! ## The milestones -/

/-- A bundle is stored. -/
def Secured (cb : ClusterBootstrap) (s : Facility) : Prop :=
  ∃ b, b ≠ [] ∧ (s.creds cb.cluster).secrets = some b

/-- The input of the generator is made from the bundle, for the cluster and its endpoint. -/
def Suits (cb : ClusterBootstrap) (bundle : Bytes) (input : GeneratorInput) : Prop :=
  input.secrets = bundle ∧ input.clusterName = cb.cluster ∧
    input.controlPlaneEndpoint = cb.cpEndpoint

/-- The talosconfig was generated from the bundle. -/
def TalosFrom (cb : ClusterBootstrap) (bundle tc : Bytes) (s : Facility) : Prop :=
  ∃ input, Suits cb bundle input ∧ ev (.machinery (.talosconfig input)) (.ok tc) ∈ s.log

/-- The machine configuration was generated from the bundle, and patched perhaps. -/
def ConfigFrom (cb : ClusterBootstrap) (bundle cfg : Bytes) (s : Facility) : Prop :=
  ∃ input out, Suits cb bundle input ∧
    ev (.machinery (.controlPlaneConfig input)) (.ok out) ∈ s.log ∧
    (cfg = out ∨ ∃ patches, ev (.machinery (.applyPatches out patches)) (.ok cfg) ∈ s.log)

/-- The talosconfig that is stored and the configuration that is staged come from the bundle that is
stored. -/
def Configured (cb : ClusterBootstrap) (s : Facility) : Prop :=
  ∃ raw bundle tc cfg, (s.creds cb.cluster).secrets = some raw ∧
    ev (.machinery (.loadSecrets raw)) (.ok bundle) ∈ s.log ∧
    (s.creds cb.cluster).talosconfig = some tc ∧ TalosFrom cb bundle tc s ∧
    s.staged cb.cpMac = some cfg ∧ ConfigFrom cb bundle cfg s

/-- The kubeconfig that is stored is one that the node has returned. -/
def Fetched (cb : ClusterBootstrap) (s : Facility) : Prop :=
  ∃ kube client, (s.creds cb.cluster).kubeconfig = some kube ∧
    ev (.talos client (.kubeconfig cb.cpIp)) (.ok kube) ∈ s.log

def HasCluster (cb : ClusterBootstrap) (s : Facility) : Prop :=
  ∃ cl, s.store.db.clusters[cb.cluster]? = some cl

/-- The control-plane pool is there, with the node. -/
def HasPool (cb : ClusterBootstrap) (s : Facility) : Prop :=
  ∃ np, s.store.db.nodePools[ckey cb.cluster "controlplane"]? = some np ∧ cb.cpIp ∈ np.members

def HasMachine (cb : ClusterBootstrap) (s : Facility) : Prop :=
  ∃ mc, s.store.db.machines[ckey cb.cluster cb.cpIp]? = some mc

/-- The cluster has its records. -/
structure Recorded (cb : ClusterBootstrap) (s : Facility) : Prop where
  cluster : HasCluster cb s
  pool : HasPool cb s
  machine : HasMachine cb s

/-- The phases from staging on, up to the end of a bring-up that succeeds. -/
def staged : ClusterBootstrapPhase → Bool
  | .staging | .awaitingInstall | .bootstrapping | .awaitingHealthy | .fetchingKubeconfig | .ready => true
  | _ => false

/-- The phases after staging. -/
def installed : ClusterBootstrapPhase → Bool
  | .awaitingInstall | .bootstrapping | .awaitingHealthy | .fetchingKubeconfig | .ready => true
  | _ => false

theorem staged_of_installed (h : installed phase = true) : staged phase = true := by
  cases phase <;> first | rfl | cases h

/-- What the phase stands for. -/
structure Reached (phase : ClusterBootstrapPhase) (cb : ClusterBootstrap) (s : Facility) : Prop where
  secured : staged phase = true → Secured cb s
  configured : installed phase = true → Configured cb s
  fetched : phase = .ready → Fetched cb s
  recorded : phase = .ready → Recorded cb s

/-- The control-plane pool of the cluster has the node as a member, if there is one. -/
def PoolFits (cb : ClusterBootstrap) (s : Facility) : Prop :=
  ∀ np, s.store.db.nodePools[ckey cb.cluster "controlplane"]? = some np → cb.cpIp ∈ np.members

/-- The bring-up is where its record says. -/
def OnTrack (cluster : String) (s : Facility) : Prop :=
  ∀ cb, s.record cluster = some cb → Reached cb.phase cb s ∧ PoolFits cb s

/-- A bring-up that is over stays over. -/
def Over (cluster : String) (s s' : Facility) : Prop :=
  ∀ cb, s.record cluster = some cb → BootstrapReconciler.terminal cb.phase = true →
    s'.record cluster = some cb

/-! ## Interference -/

/-- What belongs to the bring-up is not touched, except perhaps its record. -/
structure Framed (cb : ClusterBootstrap) (s s' : Facility) : Prop where
  creds : s'.creds cb.cluster = s.creds cb.cluster
  staged : s'.staged cb.cpMac = s.staged cb.cpMac
  clusters : s'.store.db.clusters[cb.cluster]? = s.store.db.clusters[cb.cluster]?
  pools : s'.store.db.nodePools[ckey cb.cluster "controlplane"]? =
    s.store.db.nodePools[ckey cb.cluster "controlplane"]?
  machines : s'.store.db.machines[ckey cb.cluster cb.cpIp]? =
    s.store.db.machines[ckey cb.cluster cb.cpIp]?
  log : s.log ⊆ s'.log

/-- A bring-up is not touched, and none is created. -/
structure Untouched (cluster : String) (s s' : Facility) : Prop where
  record : s'.record cluster = s.record cluster
  framed : ∀ cb, s.record cluster = some cb → Framed cb s s'

/-- The others do not touch what belongs to the cluster. -/
def Alone (cluster : String) (s : Facility) : Stint → Facility → Prop
  | .act (.other _) _, s' => Untouched cluster s s'
  | _, _ => True

theorem framed_refl (cb : ClusterBootstrap) (s : Facility) : Framed cb s s :=
  ⟨rfl, rfl, rfl, rfl, rfl, List.Subset.refl _⟩

theorem Framed.trans {s'' : Facility} (h : Framed cb s s') (h' : Framed cb s' s'') :
    Framed cb s s'' where
  creds := h'.creds.trans h.creds
  staged := h'.staged.trans h.staged
  clusters := h'.clusters.trans h.clusters
  pools := h'.pools.trans h.pools
  machines := h'.machines.trans h.machines
  log _ hx := h'.log (h.log hx)

theorem untouched_refl (s : Facility) : Untouched cluster s s :=
  ⟨rfl, fun cb _ => framed_refl cb s⟩

theorem Untouched.trans {s'' : Facility} (h : Untouched cluster s s')
    (h' : Untouched cluster s' s'') : Untouched cluster s s'' where
  record := h'.record.trans h.record
  framed cb hcb := (h.framed cb hcb).trans (h'.framed cb (h.record.trans hcb))

/-- Facts about a bring-up that hold as long as it is not touched. -/
def Steady (cb : ClusterBootstrap) (F : Facility → Prop) : Prop :=
  ∀ ⦃s s' : Facility⦄, F s → Framed cb s s' → F s'

theorem Steady.and {F G : Facility → Prop} (hF : Steady cb F) (hG : Steady cb G) :
    Steady cb fun s => F s ∧ G s :=
  fun _ _ h hs => ⟨hF h.1 hs, hG h.2 hs⟩

theorem steady_true : Steady cb fun _ => True := fun _ _ h _ => h

theorem Steady.imp {p : Prop} {F : Facility → Prop} (hF : Steady cb F) : Steady cb fun s => p → F s :=
  fun _ _ h hs hp => hF (h hp) hs

theorem steady_logged (e : Ev) : Steady cb fun s => e ∈ s.log :=
  fun _ _ h hs => hs.log h

theorem steady_creds (P : Credentials → Prop) : Steady cb fun s => P (s.creds cb.cluster) := by
  intro s s' h hs
  rw [hs.creds]
  exact h

theorem TalosFrom.mono {bundle tc : Bytes} (h : TalosFrom cb bundle tc s) (hlog : s.log ⊆ s'.log) :
    TalosFrom cb bundle tc s' := by
  obtain ⟨input, hsuits, hgen⟩ := h
  exact ⟨input, hsuits, hlog hgen⟩

theorem ConfigFrom.mono {bundle cfg : Bytes} (h : ConfigFrom cb bundle cfg s) (hlog : s.log ⊆ s'.log) :
    ConfigFrom cb bundle cfg s' := by
  obtain ⟨input, out, hsuits, hgen, hcfg⟩ := h
  refine ⟨input, out, hsuits, hlog hgen, hcfg.imp_right ?_⟩
  rintro ⟨patches, hpatched⟩
  exact ⟨patches, hlog hpatched⟩

theorem Configured.mono (h : Configured cb s)
    (hsecrets : (s'.creds cb.cluster).secrets = (s.creds cb.cluster).secrets)
    (htalos : (s'.creds cb.cluster).talosconfig = (s.creds cb.cluster).talosconfig)
    (hstaged : s'.staged cb.cpMac = s.staged cb.cpMac) (hlog : s.log ⊆ s'.log) :
    Configured cb s' := by
  obtain ⟨raw, bundle, tc, cfg, hraw, hload, htc, hfrom, hcfg, hfrom'⟩ := h
  exact ⟨raw, bundle, tc, cfg, hsecrets.trans hraw, hlog hload, htalos.trans htc, hfrom.mono hlog,
    hstaged.trans hcfg, hfrom'.mono hlog⟩

theorem steady_configured : Steady cb (Configured cb) := by
  intro s s' h hs
  apply h.mono _ _ hs.staged hs.log
  · rw [hs.creds]
  · rw [hs.creds]

theorem Fetched.mono (h : Fetched cb s) (hcreds : s'.creds cb.cluster = s.creds cb.cluster)
    (hlog : s.log ⊆ s'.log) : Fetched cb s' := by
  obtain ⟨kube, client, hkube, hfetched⟩ := h
  refine ⟨kube, client, ?_, hlog hfetched⟩
  rw [hcreds, hkube]

theorem steady_fetched : Steady cb (Fetched cb) := fun _ _ h hs => h.mono hs.creds hs.log

theorem steady_hasCluster : Steady cb (HasCluster cb) := by
  intro s s' h hs
  rw [HasCluster, hs.clusters]
  exact h

theorem steady_hasPool : Steady cb (HasPool cb) := by
  intro s s' h hs
  rw [HasPool, hs.pools]
  exact h

theorem steady_hasMachine : Steady cb (HasMachine cb) := by
  intro s s' h hs
  rw [HasMachine, hs.machines]
  exact h

theorem steady_recorded : Steady cb (Recorded cb) := by
  intro s s' h hs
  constructor
  · exact steady_hasCluster h.cluster hs
  · exact steady_hasPool h.pool hs
  · exact steady_hasMachine h.machine hs

theorem steady_poolFits : Steady cb (PoolFits cb) := by
  intro s s' h hs np hnp
  rw [hs.pools] at hnp
  exact h np hnp

theorem steady_secured : Steady cb (Secured cb) :=
  steady_creds fun k => ∃ b, b ≠ [] ∧ k.secrets = some b

theorem steady_reached : Steady cb (Reached phase cb) := by
  intro s s' h hs
  constructor
  · exact fun hp => steady_secured (h.secured hp) hs
  · exact fun hp => steady_configured (h.configured hp) hs
  · exact fun hp => steady_fetched (h.fetched hp) hs
  · exact fun hp => steady_recorded (h.recorded hp) hs

/-- The facts do not depend on the parts of the record that the reconciler changes. -/
theorem Reached.stamped (h : Reached phase cb s) (stamp msg : String) (rev : Nat) :
    Reached phase { cb with startedAt := stamp, phase := phase, message := msg, revision := rev } s where
  secured := h.secured
  configured := h.configured
  fetched := h.fetched
  recorded hp := ⟨(h.recorded hp).cluster, (h.recorded hp).pool, (h.recorded hp).machine⟩

theorem OnTrack.untouched (h : OnTrack cluster s) (hs : Untouched cluster s s') :
    OnTrack cluster s' := by
  intro cb hcb
  rw [hs.record] at hcb
  obtain ⟨hreached, hpool⟩ := h cb hcb
  exact ⟨steady_reached hreached (hs.framed cb hcb), steady_poolFits hpool (hs.framed cb hcb)⟩

theorem Over.of_record (h : s'.record cluster = s.record cluster) : Over cluster s s' :=
  fun _ hcb _ => h.trans hcb

/-! ## Calm operations -/

/-- The operation changes nothing but etcd. -/
def calm : Op → Bool
  | .talos _ (.bootstrap _) => true
  | op => op.passive

theorem calm_of_passive (op : Op) (h : op.passive = true) : calm op = true := by
  unfold calm
  split
  · rfl
  · exact h

theorem log_subset (hs : s.handles e s') : s.log ⊆ s'.log := by
  rw [(Facility.moved hs).log]
  exact List.subset_append_left ..

theorem mem_log (hs : s.handles e s') : e ∈ s'.log := by
  rw [(Facility.moved hs).log]
  exact List.mem_append_right _ List.mem_cons_self

theorem framed_of_calm (cb : ClusterBootstrap) (hs : s.handles e s') (hop : calm e.op = true) :
    Framed cb s s' := by
  have hdb : s'.store.db = s.store.db := by
    obtain ⟨hfit, hstore⟩ := (Facility.moved hs).store
    obtain ⟨op, rep⟩ := e
    rw [hstore]
    cases op with
    | store op =>
      have hread : (!op.writes) = true := hop
      rw [Bool.not_eq_true'] at hread
      exact db_after_read hread rep
    | _ => rfl
  have hcreds : s'.creds = s.creds := by
    rcases (Facility.moved hs).creds with h | ⟨op, rep, rfl, hmoves⟩
    · exact h
    · cases op with
      | talosConfig | kubeConfig | secrets => exact hmoves.1
      | put | putSecrets | delete => cases hop
  have hstaged : s'.staged = s.staged := by
    rcases (Facility.moved hs).staged with h | ⟨c, op, rep, rfl, -⟩
    · exact h
    · cases hop
  refine ⟨?_, ?_, ?_, ?_, ?_, log_subset hs⟩
  · rw [hcreds]
  · rw [hstaged]
  · rw [hdb]
  · rw [hdb]
  · rw [hdb]

theorem arms_of_calm {op : Op} (h : calm op = true) : op.arms = false := by
  unfold Op.arms
  split
  · cases h
  · cases h
  · rfl

theorem untouched_of_calm (hs : s.handles e s') (hop : calm e.op = true) :
    Untouched cluster s s' where
  record := Facility.record_handles cluster hs (arms_of_calm hop)
  framed cb _ := framed_of_calm cb hs hop

/-! ## The reconciler -/

/-- The reconciler, as far as the milestones are concerned. -/
def track (cluster : String) : Protocol medeaSig Facility where
  handle w e w' := (w.store.Reachable ∧ OnTrack cluster w) ∧
    Alone cluster w (.act .reconciler e) w' ∧ w.handles e w'
  rely := Untouched cluster
  guarantee w _ w' := OnTrack cluster w' ∧ Over cluster w w'
  rely_refl := untouched_refl
  rely_trans h h' := h.trans h'

/-- The record is the one that was read, and `F` holds. -/
structure At (cb : ClusterBootstrap) (F : Facility → Prop) (w : Facility) : Prop where
  record : w.record cb.cluster = some cb
  fact : F w

section Steps

variable {F G : Facility → Prop} {w w' : Facility} {α : Type}
variable {bundle tc : Bytes} {phase : ClusterBootstrapPhase} {raw cfg : Bytes}

theorem At.rely (hF : Steady cb F) (h : At cb F w) (hw : Untouched cb.cluster w w') : At cb F w' where
  record := hw.record.trans h.record
  fact := hF h.fact (hw.framed cb h.record)

theorem At.mono (h : At cb F w) (hFG : F w → G w) : At cb G w := ⟨h.record, hFG h.fact⟩

theorem calm_step {c : String} (hw : (track c).handle w e w') (hop : calm e.op = true) :
    (track c).guarantee w e w' ∧ Untouched c w w' :=
  have h := untouched_of_calm hw.2.2 hop
  ⟨⟨hw.1.2.untouched h, Over.of_record h.record⟩, h⟩

theorem calm_call {op : Op} {k : op.Reply → Prog α} {Q : α → Facility → Prop} (hF : Steady cb F)
    (hop : calm op = true) (hw : At cb F w)
    (hk : ∀ (rep : op.Reply) (w1 w2 : Facility), w1.handles (ev op rep) w2 → At cb F w2 →
      (k rep).Sustains (track cb.cluster) Q w2) :
    (call op >>= k).Sustains (track cb.cluster) Q w := by
  intro w1 hw1 rep w2 hstep
  obtain ⟨hg, hu⟩ := calm_step hstep hop
  exact ⟨hg, hk rep w1 w2 hstep.2.2 ((hw.rely hF hw1).rely hF hu)⟩

theorem calm_does {p : Prog α} (hF : Steady cb F) (hp : Does (fun op => calm op = true) p)
    (hw : At cb F w) : p.Sustains (track cb.cluster) (fun _ w => At cb F w) w := by
  have h : p.Sustains (track cb.cluster) (fun _ w => True ∧ At cb F w) w := by
    refine hp.sustains (P := track cb.cluster) (fun h hr => h.rely hF hr) ?_ hw
    intro w w' e h hop hstep
    obtain ⟨hg, hu⟩ := calm_step hstep hop
    exact ⟨hg, h.rely hF hu⟩
  exact h.mono fun _ _ h => h.2

/-- An operation that leaves the record alone, and what has to hold after it. -/
theorem effect_sustains {op : Op} {G : op.Reply → Facility → Prop} (hF : Steady cb F)
    (hG : ∀ rep, Steady cb (G rep)) (harms : op.arms = false) (hw : At cb F w)
    (hstep : ∀ (rep : op.Reply) (w1 w2 : Facility), F w1 → Reached cb.phase cb w1 → PoolFits cb w1 →
      w1.handles (ev op rep) w2 → Reached cb.phase cb w2 ∧ PoolFits cb w2 ∧ G rep w2) :
    (call op).Sustains (track cb.cluster) (fun rep w => At cb (G rep) w) w := by
  intro w1 hw1 rep w2 hs
  have hat := hw.rely hF hw1
  have hrec := Facility.record_handles cb.cluster hs.2.2 harms
  obtain ⟨hreached, hpool⟩ := hs.1.2 cb hat.record
  obtain ⟨hreached', hpool', hg⟩ := hstep rep w1 w2 hat.fact hreached hpool hs.2.2
  refine ⟨⟨?_, Over.of_record hrec⟩, ?_⟩
  · intro cb' hcb'
    rw [hrec, hat.record] at hcb'
    cases hcb'
    exact ⟨hreached', hpool'⟩
  · intro w3 hw3
    exact At.rely (hG rep) ⟨hrec.trans hat.record, hg⟩ hw3

/-- Only the record is touched by a write of it. -/
theorem framed_put {cb' : ClusterBootstrap} {rep : Except StoreError Unit}
    (hs : s.handles (ev (.store (.putClusterBootstrap cb')) rep) s') : Framed cb s s' := by
  have hlog := log_subset hs
  obtain ⟨⟨store⟩, hw, rfl⟩ := hs
  obtain ⟨hfit, hstore⟩ := World.handles_event hw
  cases rep with
  | error e =>
    cases hstore
    exact ⟨rfl, rfl, rfl, rfl, rfl, hlog⟩
  | ok u =>
    obtain ⟨db, hc, hdb⟩ := db_after_write rfl hfit
    cases hc
    have hdb' : store.db = _ := (congrArg Store.db hstore).trans hdb
    refine ⟨rfl, rfl, ?_, ?_, ?_, hlog⟩
    · exact congrArg (·.clusters[cb.cluster]?) hdb'
    · exact congrArg (·.nodePools[ckey cb.cluster "controlplane"]?) hdb'
    · exact congrArg (·.machines[ckey cb.cluster cb.cpIp]?) hdb'

/-- The next phase is recorded when what it stands for holds. -/
theorem put_sustains (stamp : String) {msg : String}
    (hopen : terminal cb.phase = false) (hw : At cb (Reached phase cb) w) :
    (put { cb with startedAt := stamp } phase msg).Sustains (track cb.cluster)
      (fun _ _ => True) w := by
  intro w1 hw1 rep w2 hstep
  have hat := hw.rely steady_reached hw1
  have hframed : Framed cb w1 w2 := framed_put hstep.2.2
  obtain ⟨hreached, hpool⟩ := hstep.1.2 cb hat.record
  have hpool' : PoolFits cb w2 := steady_poolFits hpool hframed
  refine ⟨⟨?_, ?_⟩, ?_⟩
  · -- the facts of the new record are those of the old one
    intro cb' hcb'
    rcases Facility.record_put cb.cluster hstep.2.2 with ⟨-, -, hrec⟩ | ⟨-, hrec⟩
    · rw [hrec] at hcb'
      cases hcb'
      exact ⟨(steady_reached hat.fact hframed).stamped .., hpool'⟩
    · rw [hrec, hat.record] at hcb'
      cases hcb'
      exact ⟨steady_reached hreached hframed, hpool'⟩
  · intro cb' hcb' hover
    rw [hat.record] at hcb'
    cases hcb'
    rw [hopen] at hover
    cases hover
  · cases rep with
    | error | ok => exact fun _ _ => trivial

/-! ## Up to staging -/

theorem reached_early (h : staged phase = false) : Reached phase cb s where
  secured hp := by rw [h] at hp; cases hp
  configured hp := by
    rw [staged_of_installed hp] at h
    cases h
  fetched hp := by rw [hp] at h; cases h
  recorded hp := by rw [hp] at h; cases h

theorem reached_staging (h : Secured cb s) : Reached .staging cb s :=
  ⟨fun _ => h, nofun, nofun, nofun⟩

theorem begin_sustains (hphase : cb.phase = .notBootstrapped) (hrec : w.record cb.cluster = some cb) :
    (begin cb).Sustains (track cb.cluster) (fun _ _ => True) w := by
  apply calm_call steady_true rfl ⟨hrec, trivial⟩
  intro now w1 w2 _ hat
  apply put_sustains _ (by rw [hphase]; rfl)
  exact hat.mono fun _ => reached_early rfl

/-- A call on the credential store changes nothing else. -/
theorem creds_step {op : CredsOp} {rep : (Op.creds op).Reply}
    (hs : s.handles (ev (.creds op) rep) s') :
    op.moves s.creds s'.creds rep ∧ s'.store = s.store ∧ s'.staged = s.staged := by
  obtain ⟨k, hk, rfl⟩ := hs
  exact ⟨hk, rfl, rfl⟩

/-- A call on the provisioner changes nothing else. -/
theorem provisioner_step {c : String} {op : ProvisionerOp} {rep : Except String Unit}
    (hs : s.handles (ev (.provisioner c op) rep) s') :
    op.moves s.staged s'.staged rep ∧ s'.store = s.store ∧ s'.creds = s.creds := by
  obtain ⟨m, hm, rfl⟩ := hs
  exact ⟨hm, rfl, rfl⟩

theorem PoolFits.of_store (h : PoolFits cb s) (hs : s'.store = s.store) : PoolFits cb s' := by
  rw [PoolFits, hs]
  exact h

theorem mintSecrets_sustains (hphase : cb.phase = .generatingSecrets)
    (hrec : w.record cb.cluster = some cb) :
    (mintSecrets cb).Sustains (track cb.cluster) (fun _ _ => True) w := by
  apply calm_call steady_true rfl ⟨hrec, trivial⟩
  rintro (e | bundle) w1 w2 - hat
  · exact fun _ _ => trivial
  apply calm_call steady_true rfl hat
  rintro (e | out) w3 w4 hmarshal hat
  · exact fun _ _ => trivial
  have hout : out ≠ [] := fun h => hmarshal.1 (congrArg Except.ok h)
  have hput : (call (.creds (.putSecrets cb.cluster out))).Sustains (track cb.cluster)
      (fun rep w => At cb (fun s => rep = .ok () → Secured cb s) w) w4 := by
    apply effect_sustains steady_true (fun _ => steady_secured.imp) rfl hat
    intro rep w5 w6 _ _ hpool hput
    obtain ⟨⟨new, hnew, hsecrets, -⟩, hstore, -⟩ := creds_step hput
    refine ⟨reached_early (by rw [hphase]; rfl), hpool.of_store hstore, ?_⟩
    intro hrep
    refine ⟨out, hout, ?_⟩
    rw [hnew, Function.update_self]
    exact hsecrets.of_ok hrep
  apply hput.bind
  rintro (e | ⟨⟩) w5 hat
  · exact fun _ _ => trivial
  apply put_sustains cb.startedAt (by rw [hphase]; rfl)
  exact hat.mono fun h => reached_staging (h rfl)

theorem generateSecrets_sustains (hphase : cb.phase = .generatingSecrets)
    (hrec : w.record cb.cluster = some cb) :
    (generateSecrets cb).Sustains (track cb.cluster) (fun _ _ => True) w := by
  apply calm_call steady_true rfl ⟨hrec, trivial⟩
  rintro (e | b) w1 w2 hread hat
  · exact mintSecrets_sustains hphase hat.record
  show Program.Sustains _ _ (if b ≠ [] then _ else _) w2
  split
  next hb =>
    apply put_sustains cb.startedAt (by rw [hphase]; rfl)
    obtain ⟨⟨hsame, hstored⟩, -⟩ := creds_step hread
    refine ⟨hat.record, reached_staging ⟨b, hb, ?_⟩⟩
    rw [hsame]
    exact hstored b rfl
  next => exact mintSecrets_sustains hphase hat.record

/-! ## Staging -/

/-- The bundle that is stored, and that it was loaded. -/
def Loaded (cb : ClusterBootstrap) (raw bundle : Bytes) (s : Facility) : Prop :=
  (s.creds cb.cluster).secrets = some raw ∧ ev (.machinery (.loadSecrets raw)) (.ok bundle) ∈ s.log

theorem steady_loaded {raw : Bytes} : Steady cb (Loaded cb raw bundle) :=
  (steady_creds fun k => k.secrets = some raw).and (steady_logged _)

theorem applyPatches_sustains {out : Bytes} (patches : List Bytes) (hF : Steady cb F)
    {input : GeneratorInput} (hsuits : Suits cb bundle input)
    (hout : ∀ s, F s → ev (.machinery (.controlPlaneConfig input)) (.ok out) ∈ s.log)
    (hw : At cb F w) :
    (applyPatches out patches).Sustains (track cb.cluster)
      (fun res w => At cb F w ∧ ∀ cfg, res = .ok cfg → ConfigFrom cb bundle cfg w) w := by
  have hload := calm_does hF (loadPatches_does calm_of_passive 0 patches) hw
  apply hload.bind
  rintro (e | loaded) w1 hat
  · exact fun w' hw' => ⟨hat.rely hF hw', nofun⟩
  apply calm_call hF rfl hat
  rintro (e | cfg) w2 w3 hpatch hat
  · exact fun w' hw' => ⟨hat.rely hF hw', nofun⟩
  intro w' hw'
  refine ⟨hat.rely hF hw', ?_⟩
  rintro cfg' ⟨⟩
  have hfrom : ConfigFrom cb bundle cfg w3 :=
    ⟨input, out, hsuits, hout w3 hat.fact, Or.inr ⟨loaded, mem_log hpatch⟩⟩
  exact hfrom.mono (hw'.framed cb hat.record).log

theorem render_sustains {image : String} (hF : Steady cb F) (hw : At cb F w) :
    (renderControlPlaneConfig cb image bundle).Sustains (track cb.cluster)
      (fun res w => At cb F w ∧ ∀ cfg, res = .ok cfg → ConfigFrom cb bundle cfg w) w := by
  rw [renderControlPlaneConfig]
  split
  next => exact fun w' hw' => ⟨hw.rely hF hw', fun _ h => by cases h⟩
  apply calm_call hF rfl hw
  rintro (e | out) w1 w2 hgen hat
  · exact fun w' hw' => ⟨hat.rely hF hw', fun _ h => by cases h⟩
  show Program.Sustains _ _ (if controlPlanePatches cb = [] then _ else _) w2
  split
  next =>
    intro w' hw'
    refine ⟨hat.rely hF hw', ?_⟩
    rintro cfg ⟨⟩
    have hfrom : ConfigFrom cb bundle out w2 := ⟨_, out, ⟨rfl, rfl, rfl⟩, mem_log hgen, Or.inl rfl⟩
    exact hfrom.mono (hw'.framed cb hat.record).log
  next =>
    have hpatches := applyPatches_sustains (controlPlanePatches cb)
      (hF.and (steady_logged _)) ⟨rfl, rfl, rfl⟩ (fun _ h => h.2) ⟨hat.record, hat.fact, mem_log hgen⟩
    exact hpatches.mono fun _ _ h => ⟨h.1.mono And.left, h.2⟩

/-- Up to the end the facts are about credentials, the staged configuration and the log. -/
theorem Reached.of_creds (h : Reached phase cb s)
    (hphase : phase ≠ .ready) (hsecrets : (s'.creds cb.cluster).secrets = (s.creds cb.cluster).secrets)
    (htalos : installed phase = true →
      (s'.creds cb.cluster).talosconfig = (s.creds cb.cluster).talosconfig)
    (hstaged : installed phase = true → s'.staged cb.cpMac = s.staged cb.cpMac)
    (hlog : s.log ⊆ s'.log) : Reached phase cb s' where
  secured hp := by
    obtain ⟨b, hb, hstored⟩ := h.secured hp
    exact ⟨b, hb, hsecrets.trans hstored⟩
  configured hp := (h.configured hp).mono hsecrets (htalos hp) (hstaged hp) hlog
  fetched hp := absurd hp hphase
  recorded hp := absurd hp hphase

/-- What has been made from the bundle that is stored. -/
structure Rendered (cb : ClusterBootstrap) (raw bundle cfg tc : Bytes) (s : Facility) : Prop where
  loaded : Loaded cb raw bundle s
  config : ConfigFrom cb bundle cfg s
  talos : TalosFrom cb bundle tc s

theorem Rendered.mono (h : Rendered cb raw bundle cfg tc s)
    (hsecrets : (s'.creds cb.cluster).secrets = (s.creds cb.cluster).secrets) (hlog : s.log ⊆ s'.log) :
    Rendered cb raw bundle cfg tc s' :=
  ⟨⟨hsecrets.trans h.loaded.1, hlog h.loaded.2⟩, h.config.mono hlog, h.talos.mono hlog⟩

theorem steady_rendered : Steady cb (Rendered cb raw bundle cfg tc) := by
  intro s s' h hs
  apply h.mono _ hs.log
  rw [hs.creds]

/-- What is staged belongs to the bundle that is stored. -/
def Installable (cb : ClusterBootstrap) (s : Facility) : Prop := Secured cb s ∧ Configured cb s

theorem steady_installable : Steady cb (Installable cb) := steady_secured.and steady_configured

theorem stageBoot_sustains {profile : Profile} (hphase : cb.phase = .staging)
    (hw : At cb (fun s => Rendered cb raw bundle cfg tc s ∧
      (s.creds cb.cluster).talosconfig = some tc) w) :
    (call (.provisioner cb.cluster (.stage cb.cpMac profile cfg))).Sustains (track cb.cluster)
      (fun rep w => At cb (fun s => rep = .ok () → Installable cb s) w) w := by
  have hinstalled : installed cb.phase ≠ true := by rw [hphase]; decide
  apply effect_sustains (steady_rendered.and (steady_creds fun k => k.talosconfig = some tc))
    (fun _ => steady_installable.imp) rfl hw
  rintro rep w1 w2 ⟨hrendered, htalos⟩ hreached hpool hstage
  have hlog := log_subset hstage
  obtain ⟨⟨new, hm, hnew⟩, hstore, hcreds⟩ := provisioner_step hstage
  have hreached' : Reached cb.phase cb w2 := hreached.of_creds (by rw [hphase]; decide) (by rw [hcreds])
    (absurd · hinstalled) (absurd · hinstalled) hlog
  refine ⟨hreached', hpool.of_store hstore, ?_⟩
  intro hrep
  refine ⟨hreached'.secured (by rw [hphase]; rfl), raw, bundle, tc, cfg, ?_, hlog hrendered.loaded.2, ?_,
    hrendered.talos.mono hlog, ?_, hrendered.config.mono hlog⟩
  · rw [hcreds, hrendered.loaded.1]
  · rw [hcreds, htalos]
  · rw [hm, Function.update_self, hnew hrep]

theorem storeTalosconfig_sustains (hphase : cb.phase = .staging)
    (hw : At cb (Rendered cb raw bundle cfg tc) w) :
    (call (.creds (.put cb.cluster tc []))).Sustains (track cb.cluster)
      (fun rep w => At cb (fun s => Rendered cb raw bundle cfg tc s ∧
        (rep = .ok () → (s.creds cb.cluster).talosconfig = some tc)) w) w := by
  have hinstalled : installed cb.phase ≠ true := by rw [hphase]; decide
  apply effect_sustains steady_rendered
    (fun _ => steady_rendered.and (steady_creds fun k => k.talosconfig = some tc).imp) rfl hw
  intro rep w1 w2 hrendered hreached hpool hput
  have hlog := log_subset hput
  obtain ⟨⟨new, hnew, htalos, -, hsecrets⟩, hstore, -⟩ := creds_step hput
  have hsecrets' : (w2.creds cb.cluster).secrets = (w1.creds cb.cluster).secrets := by
    rw [hnew, Function.update_self, hsecrets]
  refine ⟨?_, hpool.of_store hstore, hrendered.mono hsecrets' hlog, ?_⟩
  · exact hreached.of_creds (by rw [hphase]; decide) hsecrets' (absurd · hinstalled)
      (absurd · hinstalled) hlog
  · intro hrep
    rw [hnew, Function.update_self]
    exact htalos.of_ok hrep

theorem Reached.installable (h : Reached phase cb s)
    (hphase : installed phase = true) : Installable cb s :=
  ⟨h.secured (staged_of_installed hphase), h.configured hphase⟩

theorem reached_installed (hphase : phase ≠ .ready) (h : Installable cb s) : Reached phase cb s :=
  ⟨fun _ => h.1, fun _ => h.2, (absurd · hphase), (absurd · hphase)⟩

theorem publish_sustains (r : BootstrapReconciler) (raw bundle : Bytes) {schematic : String} {cfg : Bytes}
    (hphase : cb.phase = .staging) (hw : At cb (Rendered cb raw bundle cfg tc) w) :
    (r.publish cb schematic cfg tc).Sustains (track cb.cluster) (fun _ _ => True) w := by
  apply (storeTalosconfig_sustains hphase hw).bind
  rintro (e | ⟨⟩) w1 hat
  · exact fun _ _ => trivial
  apply (stageBoot_sustains hphase (hat.mono fun h => ⟨h.1, h.2 rfl⟩)).bind
  rintro (e | ⟨⟩) w2 hat
  · exact fun _ _ => trivial
  apply put_sustains cb.startedAt (by rw [hphase]; rfl)
  exact hat.mono fun h => reached_installed (by decide) (h rfl)

theorem stage_sustains (r : BootstrapReconciler) (hphase : cb.phase = .staging)
    (hrec : w.record cb.cluster = some cb) :
    (r.stage cb).Sustains (track cb.cluster) (fun _ _ => True) w := by
  -- the bundle is read and loaded
  apply calm_call steady_true rfl ⟨hrec, trivial⟩
  rintro (e | raw) w1 w2 hread hat
  · exact fun _ _ => trivial
  have hraw : (w2.creds cb.cluster).secrets = some raw := by
    obtain ⟨⟨hsame, hstored⟩, -⟩ := creds_step hread
    rw [hsame]
    exact hstored raw rfl
  apply calm_call (steady_creds fun k => k.secrets = some raw) rfl ⟨hat.record, hraw⟩
  rintro (e | bundle) w3 w4 hload hat
  · exact fun _ _ => trivial
  have hloaded : At cb (Loaded cb raw bundle) w4 := hat.mono fun h => ⟨h, mem_log hload⟩
  -- the schematic, and what is made from the bundle
  apply calm_call steady_loaded rfl hloaded
  rintro (e | schematic) w5 w6 - hat
  · exact fun _ _ => trivial
  apply (render_sustains steady_loaded hat).bind
  rintro (e | cfg) w7 ⟨hat, hcfg⟩
  · exact fun _ _ => trivial
  have hconfig : Steady cb (ConfigFrom cb bundle cfg) := fun _ _ h hs => h.mono hs.log
  apply calm_call (steady_loaded.and hconfig) rfl ⟨hat.record, hat.fact, hcfg cfg rfl⟩
  rintro (e | tc) w8 w9 hgen hat
  · exact fun _ _ => trivial
  apply publish_sustains r raw bundle hphase
  exact hat.mono fun h => ⟨h.1, h.2, _, ⟨rfl, rfl, rfl⟩, mem_log hgen⟩

/-! ## After staging -/

theorem awaitInstall_sustains (hphase : cb.phase = .awaitingInstall) (hw : At cb (Installable cb) w) :
    (awaitInstall cb).Sustains (track cb.cluster) (fun _ _ => True) w := by
  apply (calm_does steady_installable (connect_does calm_of_passive) hw).bind
  rintro (e | ⟨⟩) w1 hat
  · exact fun _ _ => trivial
  apply calm_call steady_installable rfl hat
  rintro (e | v) w2 w3 - hat
  · exact fun _ _ => trivial
  apply put_sustains cb.startedAt (by rw [hphase]; rfl)
  exact hat.mono (reached_installed (by decide))

theorem bootstrapEtcd_sustains (hphase : cb.phase = .bootstrapping) (hw : At cb (Installable cb) w) :
    (bootstrapEtcd cb).Sustains (track cb.cluster) (fun _ _ => True) w := by
  have hput : ∀ msg w, At cb (Installable cb) w →
      (put cb .awaitingHealthy msg).Sustains (track cb.cluster)
        (fun _ _ => True) w := by
    intro msg w hat
    apply put_sustains cb.startedAt (by rw [hphase]; rfl)
    exact hat.mono (reached_installed (by decide))
  apply (calm_does steady_installable (connect_does calm_of_passive) hw).bind
  rintro (e | ⟨⟩) w1 hat
  · exact fun _ _ => trivial
  apply calm_call steady_installable rfl hat
  rintro (e | ⟨⟩) w2 w3 - hat
  · show Program.Sustains _ _ (if alreadyBootstrapped e = true then _ else _) w3
    split
    · exact hput _ w3 hat
    · exact fun _ _ => trivial
  · exact hput _ w3 hat

/-! ## The records -/

/-- The phases in which the kubeconfig is fetched. -/
def fetching (phase : ClusterBootstrapPhase) : Prop :=
  phase = .awaitingHealthy ∨ phase = .fetchingKubeconfig

theorem fetching.facts (h : fetching phase) :
    installed phase = true ∧ phase ≠ .ready ∧ terminal phase = false := by
  rcases h with rfl | rfl
  · decide
  · decide

/-- The kubeconfig is stored, and the pool is not in the way. -/
structure Ready (cb : ClusterBootstrap) (s : Facility) : Prop where
  installable : Installable cb s
  fetched : Fetched cb s
  pool : PoolFits cb s

theorem steady_ready : Steady cb (Ready cb) := by
  intro s s' h hs
  constructor
  · exact steady_installable h.installable hs
  · exact steady_fetched h.fetched hs
  · exact steady_poolFits h.pool hs

/-- Storing the kubeconfig writes the same talosconfig again. -/
theorem storeKubeconfig_sustains {client : Client} {kube : Bytes} (hphase : fetching cb.phase)
    (hw : At cb (fun s => ev (.talos client (.kubeconfig cb.cpIp)) (.ok kube) ∈ s.log ∧
      (s.creds cb.cluster).talosconfig = some tc) w) :
    (call (.creds (.put cb.cluster tc kube))).Sustains (track cb.cluster)
      (fun rep w => At cb (fun s => rep = .ok () → Ready cb s) w) w := by
  obtain ⟨hinstalled, hready, -⟩ := hphase.facts
  apply effect_sustains ((steady_logged _).and (steady_creds fun k => k.talosconfig = some tc))
    (fun _ => steady_ready.imp) rfl hw
  rintro rep w1 w2 ⟨hfetched, hstored⟩ hreached hpool hput
  have hlog := log_subset hput
  obtain ⟨⟨new, hnew, htalos, hkube, hsecrets⟩, hstore, hstaged⟩ := creds_step hput
  have hnew' : w2.creds cb.cluster = new := by rw [hnew, Function.update_self]
  have htalos' : new.talosconfig = (w1.creds cb.cluster).talosconfig := by
    rcases htalos with h | ⟨-, h⟩
    · exact h.trans hstored.symm
    · exact h
  have hreached' : Reached cb.phase cb w2 := by
    apply hreached.of_creds hready _ _ _ hlog
    · rw [hnew', hsecrets]
    · exact fun _ => by rw [hnew', htalos']
    · exact fun _ => by rw [hstaged]
  have hpool' := hpool.of_store hstore
  refine ⟨hreached', hpool', fun hrep => ⟨hreached'.installable hinstalled, ?_, hpool'⟩⟩
  refine ⟨kube, client, ?_, hlog hfetched⟩
  rw [hnew']
  exact hkube.of_ok hrep

/-- A write of a record changes the store only; `P` and `Q` are facts about the records. -/
theorem record_sustains (op : StoreOp) (P Q : DB → Prop) (hphase : fetching cb.phase)
    (hP : Steady cb fun s => P s.store.db) (hQ : Steady cb fun s => Q s.store.db)
    (hwrites : op.writes = true) (harms : (Op.store op).arms = false)
    (hw : At cb (fun s => Ready cb s ∧ P s.store.db) w)
    (hstep : ∀ (w1 w2 : Facility) (db : DB), op.committed w1.store = some db →
      w2.store.db = { db with revision := w1.store.db.revision + 1 } → P w1.store.db →
      PoolFits cb w1 → P w2.store.db ∧ PoolFits cb w2 ∧ Q w2.store.db) :
    (callStore op).Sustains (track cb.cluster) (fun rep w => At cb (fun s =>
      (Ready cb s ∧ P s.store.db) ∧ (rep.isOk = true → Q s.store.db)) w) w := by
  apply effect_sustains (steady_ready.and hP) (fun _ => (steady_ready.and hP).and hQ.imp) harms hw
  rintro rep w1 w2 ⟨hready, hfact⟩ hreached hpool hs
  have hlog := log_subset hs
  obtain ⟨hfit, hstore⟩ := (Facility.moved hs).store
  have hrest : w2.creds = w1.creds ∧ w2.staged = w1.staged := by
    obtain ⟨w', -, rfl⟩ := hs
    exact ⟨rfl, rfl⟩
  obtain ⟨hfact', hpool', hq⟩ : P w2.store.db ∧ PoolFits cb w2 ∧
      (rep.isOk = true → Q w2.store.db) := by
    cases rep with
    | error e =>
      have hdb : w2.store.db = w1.store.db := congrArg Store.db hstore
      exact ⟨by rwa [hdb], by rwa [PoolFits, hdb], nofun⟩
    | ok v =>
      obtain ⟨db, hc, hdb⟩ := db_after_write hwrites hfit
      obtain ⟨hp, hpool', hq⟩ := hstep w1 w2 db hc ((congrArg Store.db hstore).trans hdb) hfact hpool
      exact ⟨hp, hpool', fun _ => hq⟩
  have hreached' : Reached cb.phase cb w2 := by
    apply hreached.of_creds hphase.facts.2.1 _ _ _ hlog
    · rw [hrest.1]
    · exact fun _ => by rw [hrest.1]
    · exact fun _ => by rw [hrest.2]
  exact ⟨hreached', hpool', ⟨⟨hreached'.installable hphase.facts.1,
    hready.fetched.mono (congrFun hrest.1 _) hlog, hpool'⟩, hfact'⟩, hq⟩

theorem ensure_sustains {α : Type} (read : Except StoreError (Option α × Nat))
    {write : Prog (Except StoreError Nat)} (hF : Steady cb F) (hG : Steady cb G) (hw : At cb F w)
    (hread : ∀ v n, read = .ok (some v, n) → G w)
    (hwrite : write.Sustains (track cb.cluster)
      (fun rep w => At cb (fun s => F s ∧ (rep.isOk = true → G s)) w) w) :
    (ensure read write).Sustains (track cb.cluster)
      (fun res w => At cb (fun s => F s ∧ (res = .ok () → G s)) w) w := by
  unfold ensure
  split
  next v n =>
    intro w' hw'
    exact At.rely (hF.and hG.imp) ⟨hw.record, hw.fact, fun _ => hread v n rfl⟩ hw'
  next =>
    apply hwrite.bind
    rintro (e | rev) w1 hat
    · exact fun w' hw' => At.rely (hF.and hG.imp) (hat.mono fun h => ⟨h.1, nofun⟩) hw'
    · exact fun w' hw' => At.rely (hF.and hG.imp) (hat.mono fun h => ⟨h.1, fun _ => h.2 rfl⟩) hw'

section

variable (hphase : fetching cb.phase)
include hphase

theorem ensureCluster_sustains
    {read : Except StoreError (Option Cluster × Nat)}
    (hget : w.handles (ev (.store (.getCluster cb.cluster)) read) w') (hw : At cb (Ready cb) w') :
    (ensure read
      (callStore (.putClusterDesired (clusterRecord cb) 0))).Sustains
      (track cb.cluster)
      (fun res w => At cb (fun s => Ready cb s ∧ (res = .ok () → HasCluster cb s)) w) w' := by
  apply ensure_sustains read steady_ready steady_hasCluster hw
  · rintro cl n rfl
    obtain ⟨cl0, hcl0, -⟩ := fits_getCluster (Facility.moved hget).store.1
    exact steady_hasCluster ⟨cl0, hcl0⟩ (framed_of_calm cb hget rfl)
  · have hput := record_sustains (.putClusterDesired (clusterRecord cb) 0) (fun _ => True)
      (fun db => ∃ cl, db.clusters[cb.cluster]? = some cl) hphase steady_true steady_hasCluster rfl rfl
      (hw.mono fun h => ⟨h, trivial⟩) ?_
    · exact hput.mono fun _ _ h => h.mono fun h => ⟨h.1.1, h.2⟩
    rintro w1 w2 db ⟨⟩ hdb - hpool
    refine ⟨trivial, by rwa [PoolFits, hdb], ?_⟩
    rw [hdb]
    exact ⟨_, (Bucket.get_insert ..).trans (if_pos rfl)⟩

theorem ensurePool_sustains
    {read : Except StoreError (Option NodePool × Nat)}
    (hget : w.handles (ev (.store (.getNodePool cb.cluster "controlplane")) read) w')
    (hw : At cb (fun s => Ready cb s ∧ HasCluster cb s) w') :
    (ensure read
      (callStore (.putNodePoolDesired (poolRecord cb) 0))).Sustains
      (track cb.cluster) (fun res w => At cb (fun s => (Ready cb s ∧ HasCluster cb s) ∧
        (res = .ok () → HasPool cb s)) w) w' := by
  apply ensure_sustains read (steady_ready.and steady_hasCluster) steady_hasPool hw
  · rintro np n rfl
    have hnp := fits_getNodePool (Facility.moved hget).store.1
    rw [← (framed_of_calm cb hget rfl).pools] at hnp
    exact ⟨np, hnp, hw.fact.1.pool np hnp⟩
  · refine record_sustains (.putNodePoolDesired (poolRecord cb) 0)
      (fun db => ∃ cl, db.clusters[cb.cluster]? = some cl)
      (fun db => ∃ np, db.nodePools[ckey cb.cluster "controlplane"]? = some np ∧ cb.cpIp ∈ np.members)
      hphase steady_hasCluster steady_hasPool rfl rfl hw ?_
    rintro w1 w2 db ⟨⟩ hdb hcluster -
    have hstored : w2.store.db.nodePools[ckey cb.cluster "controlplane"]? =
        some { poolRecord cb with revision := w1.store.db.revision + 1 } := by
      rw [hdb]
      exact (Bucket.get_insert ..).trans (if_pos rfl)
    refine ⟨by rwa [hdb], fun np hnp => ?_, ⟨_, hstored, List.mem_cons_self⟩⟩
    rw [hstored] at hnp
    cases hnp
    exact List.mem_cons_self

theorem ensureMachine_sustains
    {read : Except StoreError (Option Machine × Nat)}
    (hget : w.handles (ev (.store (.getMachine cb.cluster cb.cpIp)) read) w')
    (hw : At cb (fun s => Ready cb s ∧ (HasCluster cb s ∧ HasPool cb s)) w') :
    (ensure read
      (callStore (.putMachineDesired (machineRecord cb) 0))).Sustains
      (track cb.cluster) (fun res w => At cb (fun s => (Ready cb s ∧ (HasCluster cb s ∧ HasPool cb s)) ∧
        (res = .ok () → HasMachine cb s)) w) w' := by
  have hrecords : Steady cb fun s => HasCluster cb s ∧ HasPool cb s :=
    steady_hasCluster.and steady_hasPool
  apply ensure_sustains read (steady_ready.and hrecords) steady_hasMachine hw
  · rintro mc n rfl
    have hmc := fits_getMachine (Facility.moved hget).store.1
    obtain ⟨mc0, hmc0, -⟩ := Option.map_eq_some_iff.1 hmc.symm
    exact steady_hasMachine ⟨mc0, hmc0⟩ (framed_of_calm cb hget rfl)
  · refine record_sustains (.putMachineDesired (machineRecord cb) 0)
      (fun db => (∃ cl, db.clusters[cb.cluster]? = some cl) ∧
        ∃ np, db.nodePools[ckey cb.cluster "controlplane"]? = some np ∧ cb.cpIp ∈ np.members)
      (fun db => ∃ mc, db.machines[ckey cb.cluster cb.cpIp]? = some mc)
      hphase hrecords steady_hasMachine rfl rfl hw ?_
    rintro w1 w2 db ⟨⟩ hdb hmembers hpool
    refine ⟨by rwa [hdb], by rwa [PoolFits, hdb], ?_⟩
    rw [hdb]
    exact ⟨_, (Bucket.get_insert ..).trans (if_pos rfl)⟩

/-- The records are there at the end, whichever of them were there before. -/
theorem seedInventory_sustains (hw : At cb (Ready cb) w) :
    (seedInventory cb).Sustains (track cb.cluster)
      (fun res w => res = .ok () → At cb (fun s => Ready cb s ∧ Recorded cb s) w) w := by
  apply calm_call steady_ready rfl hw
  intro read w1 w2 hget hat
  apply (ensureCluster_sustains hphase hget hat).bind
  rintro (e | ⟨⟩) w3 hat
  · exact fun _ _ => nofun
  apply calm_call (steady_ready.and steady_hasCluster) rfl (hat.mono fun h => ⟨h.1, h.2 rfl⟩)
  intro read w4 w5 hget hat
  apply (ensurePool_sustains hphase hget hat).bind
  rintro (e | ⟨⟩) w6 hat
  · exact fun _ _ => nofun
  apply calm_call (steady_ready.and (steady_hasCluster.and steady_hasPool)) rfl
    (hat.mono fun h => ⟨h.1.1, h.1.2, h.2 rfl⟩)
  intro read w7 w8 hget hat
  apply (ensureMachine_sustains hphase hget hat).mono
  intro res w hat hres
  exact hat.mono fun h => ⟨h.1.1, h.1.2.1, h.1.2.2, h.2 hres⟩

end

theorem reached_ready (h : Ready cb s) (hrecorded : Recorded cb s) : Reached .ready cb s :=
  ⟨fun _ => h.installable.1, fun _ => h.installable.2, fun _ => h.fetched, fun _ => hrecorded⟩

theorem fetchKubeconfig_sustains (hphase : fetching cb.phase) (hrec : w.record cb.cluster = some cb) :
    (fetchKubeconfig cb).Sustains (track cb.cluster) (fun _ _ => True) w := by
  apply (calm_does steady_true (connect_does calm_of_passive)
    ⟨hrec, trivial⟩).bind
  rintro (e | ⟨⟩) w1 hat
  · exact fun _ _ => trivial
  apply calm_call steady_true rfl hat
  rintro (e | kube) w2 w3 hfetch hat
  · exact fun _ _ => trivial
  apply calm_call (steady_logged _) rfl ⟨hat.record, mem_log hfetch⟩
  rintro (e | tc) w4 w5 hread hat
  · exact fun _ _ => trivial
  have htc : (w5.creds cb.cluster).talosconfig = some tc := by
    obtain ⟨⟨hsame, hstored⟩, -⟩ := creds_step hread
    rw [hsame]
    exact hstored tc rfl
  apply (storeKubeconfig_sustains hphase ⟨hat.record, hat.fact, htc⟩).bind
  rintro (e | ⟨⟩) w6 hat
  · exact fun _ _ => trivial
  apply (seedInventory_sustains hphase (hat.mono fun h => h rfl)).bind
  rintro (e | ⟨⟩) w7 hat
  · exact fun _ _ => trivial
  apply put_sustains cb.startedAt hphase.facts.2.2
  exact (hat rfl).mono fun h => reached_ready h.1 h.2

/-! ## Runs -/

theorem advance_sustains (r : BootstrapReconciler) (hrec : w.record cb.cluster = some cb)
    (hreached : Reached cb.phase cb w) :
    (r.advance cb).Sustains (track cb.cluster) (fun _ _ => True) w := by
  have hinstallable : installed cb.phase = true → At cb (Installable cb) w :=
    fun hphase => ⟨hrec, hreached.installable hphase⟩
  rw [advance]
  split
  next hphase => exact begin_sustains hphase hrec
  next hphase => exact generateSecrets_sustains hphase hrec
  next hphase => exact stage_sustains r hphase hrec
  next hphase => exact awaitInstall_sustains hphase (hinstallable (by rw [hphase]; rfl))
  next hphase => exact bootstrapEtcd_sustains hphase (hinstallable (by rw [hphase]; rfl))
  next hphase => exact fetchKubeconfig_sustains (Or.inl hphase) hrec
  next hphase => exact fetchKubeconfig_sustains (Or.inr hphase) hrec
  all_goals exact fun _ _ => trivial

end Steps

def milestones (r : BootstrapReconciler) (cluster : String) : Upkeep r cluster where
  inv := OnTrack cluster
  cond := Alone cluster
  rely := Untouched cluster
  guarantee w _ w' := OnTrack cluster w' ∧ Over cluster w w'
  rely_refl := untouched_refl
  rely_trans h h' := h.trans h'
  own _ _ hg := hg.1
  others h hcond _ := ⟨h.untouched hcond, hcond⟩
  crash h := h.untouched ⟨rfl, fun _ _ => ⟨rfl, rfl, rfl, rfl, rfl, List.Subset.refl _⟩⟩
  call w := by
    refine BootstrapReconciler.reconcile_sustains (P := track cluster)
      (J := fun cb w => cb.cluster = cluster ∧ At cb (Reached cb.phase cb) w) r ?_ ?_ ?_ ?_ ?_ w
    · intro w w' rep hw
      obtain ⟨hg, hu⟩ := calm_step hw rfl
      refine ⟨hg, fun cb hrep => ?_⟩
      have hrec := Facility.record_read hw.2.2 hrep
      have hreached := (hg.1 cb hrec).1
      obtain rfl : cb.cluster = cluster := by
        rw [hu.record] at hrec
        exact Facility.record_cluster hw.1.1 hrec
      exact ⟨rfl, hrec, hreached⟩
    · rintro cb w w' ⟨rfl, hat⟩ hu
      exact ⟨rfl, hat.rely steady_reached hu⟩
    · rintro cb w w' e ⟨rfl, hat⟩ hpassive hw
      obtain ⟨hg, hu⟩ := calm_step hw (calm_of_passive _ hpassive)
      exact ⟨hg, rfl, hat.rely steady_reached hu⟩
    · rintro cb w ⟨rfl, hat⟩ hopen
      exact put_sustains cb.startedAt hopen (hat.mono fun _ => reached_early rfl)
    · rintro cb w ⟨rfl, hat⟩ _
      exact advance_sustains r hat.record hat.fact

/-! ## Created clusters -/

/-- The control-plane pool of the cluster is not there. -/
def Poolless (cluster : String) (s : Store) : Prop :=
  s.db.nodePools[ckey cluster "controlplane"]? = none

/-- The bootstrap is stored that the request arms. -/
def Armed (req : CreateClusterRequest) (s : Store) : Prop :=
  ∃ rev, s.db.bootstraps[req.name]? = some { req.armed with revision := rev }

theorem Poolless.of_pools {st st' : Store} (h : Poolless cluster st)
    (hpools : st'.db.nodePools = st.db.nodePools) : Poolless cluster st' := by
  rw [Poolless, hpools]
  exact h

/-- Creating a cluster stores its bootstrap, and no pool. -/
def arming (req : CreateClusterRequest) : Creation.Outline
    (.quiet Ev.Fits (fun _ _ => True) Ev.after : Contract medeaSig Store) req where
  holds place st := Poolless req.name st ∧ (place = .armed → Armed req st)
  drift h hd := hd ▸ h
  refuse h := ⟨h.1, nofun⟩
  getCluster {m rep} h _ :=
    ⟨trivial, h.1.of_pools (congrArg DB.nodePools (db_after_read rfl rep)), nofun⟩
  getBootstrap {m rep} h _ :=
    ⟨trivial, h.1.of_pools (congrArg DB.nodePools (db_after_read rfl rep)), nofun⟩
  putHost {m rep} h hfit := by
    refine ⟨trivial, ?_⟩
    cases rep with
    | error e => exact ⟨h.1, nofun⟩
    | ok rev =>
      have hdb := Creation.db_after_putHost hfit
      refine ⟨h.1.of_pools ?_, nofun⟩
      show (Ev.after m _).db.nodePools = _
      rw [hdb]
  putBootstrap {m rep} h hfit := by
    refine ⟨trivial, ?_⟩
    cases rep with
    | error e => exact ⟨h.1, nofun⟩
    | ok u =>
      have hdb := Creation.db_after_putBootstrap hfit
      refine ⟨h.1.of_pools ?_, fun _ => ⟨m.db.revision + 1, ?_⟩⟩
      · show (Ev.after m _).db.nodePools = _
        rw [hdb]
      · show (Ev.after m _).db.bootstraps[req.name]? = _
        rw [hdb]
        exact (Bucket.get_insert ..).trans (if_pos rfl)

theorem onTrack_of_created {req : CreateClusterRequest} (hconfirm : req.confirm = true)
    (hpool : Poolless req.name s.store) {t : Trace medeaSig} {res : Response}
    (ht : (Server.createCluster req).Steps t (.done (.ok res)))
    (hfit : Along Ev.after Ev.Fits s.store t) :
    OnTrack req.name { s with store := t.foldl Ev.after s.store } := by
  have hkeeps := (arming req).createCluster_keeps hconfirm (m := s.store) ⟨hpool, nofun⟩
  obtain ⟨-, hpool', harmed⟩ := (hkeeps.steps ht hfit).2.of_done
  obtain ⟨rev, harmed⟩ := harmed rfl
  intro cb hcb
  obtain rfl := Option.some.inj (harmed.symm.trans hcb)
  refine ⟨reached_early rfl, ?_⟩
  intro np hnp
  cases hpool'.symm.trans hnp

/-- In every run of calls that follows the creation of the cluster, in which the others leave alone
what belongs to it, what the phase of the record stands for holds, and a bring-up that is over stays
over. -/
theorem bootstrap_milestones {r : BootstrapReconciler} (req : CreateClusterRequest) {s : Facility}
    (hs : s.store.Reachable) (hpool : Poolless req.name s.store) (hconfirm : req.confirm = true)
    {t : Trace medeaSig} {res : Response} (ht : (Server.createCluster req).Steps t (.done (.ok res)))
    (hfit : Along Ev.after Ev.Fits s.store t) {ls ls' : List Stint}
    {c c' : Config medeaSig Facility Hand}
    (hr : (bringUp r req.name).RunsWith (Alone req.name)
      (Config.idle medeaSig Hand { s with store := t.foldl Ev.after s.store }) ls c)
    (hr' : (bringUp r req.name).RunsWith (Alone req.name) c ls' c') :
    (∀ cb, c.world.record req.name = some cb → Reached cb.phase cb c.world) ∧
      Over req.name c.world c'.world := by
  have hstart := onTrack_of_created hconfirm hpool ht hfit
  have hreach := Store.Reachable.along hs hfit
  constructor
  · intro cb hcb
    exact (((milestones r req.name).runs_inv hreach hstart hr).2 cb hcb).1
  · refine (milestones r req.name).runs_rel (R := Over req.name) ?_ ?_ ?_ ?_ ?_ hreach hstart hr hr'
    · exact fun w => Over.of_record rfl
    · exact fun h h' cb hcb hover => h' cb (h cb hcb hover) hover
    · exact fun _ _ hg => hg.2
    · exact fun _ hcond _ => Over.of_record hcond.record
    · exact Over.of_record rfl

/-- There is nobody else. -/
def lonely : Facility → Stint → Facility → Bool
  | _, .act (.other _) _, _ => false
  | _, _, _ => true

theorem Alone.of_lonely {l : Stint} (h : lonely s l s' = true) : Alone cluster s l s' := by
  unfold Alone
  split
  · cases h
  · trivial

open BringUp in
set_option maxRecDepth 100000 in
/-- The bring-up in which nothing goes wrong, and one more call after it. -/
theorem smooth_milestones : ∃ cb, smooth.2.world.record "c" = some cb ∧ cb.phase = .ready ∧
    Reached .ready cb smooth.2.world ∧
    (played (BringUp.calls [.none]) smooth.2).2.world.record "c" = some cb := by
  have ht : (Server.createCluster Creation.order).Steps creation
      (.done (.ok (.bootstrap Creation.order.armed))) :=
    .head _ (.head _ (.head _ (.head _ (.refl _))))
  have hfit : Along Ev.after Ev.Fits ({} : Facility).store creation :=
    ⟨Or.inl rfl, Or.inl rfl, Or.inl rfl, Or.inl rfl, trivial⟩
  have hr : (bringUp bootstrapper "c").RunsWith (Alone "c") (Config.idle medeaSig Hand created)
      smooth.1 smooth.2 :=
    Player.play_runsWith _ (fun _ _ _ => Alone.of_lonely) _ _ (by decide +kernel)
  have hr' : (bringUp bootstrapper "c").RunsWith (Alone "c") smooth.2
      (played (BringUp.calls [.none]) smooth.2).1 (played (BringUp.calls [.none]) smooth.2).2 :=
    Player.play_runsWith _ (fun _ _ _ => Alone.of_lonely) _ _ (by decide +kernel)
  obtain ⟨hreached, hover⟩ := bootstrap_milestones (s := {}) Creation.order
    ⟨[], trivial, rfl⟩ rfl rfl ht hfit hr hr'
  have hready : (smooth.2.world.record "c").any (fun cb => cb.phase == .ready) = true := by
    decide +kernel
  obtain ⟨cb, hcb, hphase⟩ := (Option.any_eq_true _ _).1 hready
  rw [beq_iff_eq] at hphase
  exact ⟨cb, hcb, hphase, hphase ▸ hreached cb hcb, hover cb hcb (by rw [hphase]; rfl)⟩

end Milestones

end Medea
