import Medea.Properties.Creation
import Medea.Provision.Phases

/-!
# Two properties of a bring-up

Of every run of `Reconcile` calls for a cluster, with crashes between any two operations and among other
operations that leave the cluster alone:

* `etcd_before_health`: past the etcd step etcd was initialized on the node, if no other failure of the
  call reads like the refusal of a node that was initialized before;
* `secrets_kept`: a bundle that is stored is kept, if no read of it fails.
-/

set_option autoImplicit false
set_option maxRecDepth 100000

namespace Medea

open Medea.Interaction BootstrapReconciler

namespace BringUp

variable {cluster : String} {s s' : Facility} {e : Ev} {cb : ClusterBootstrap}

/-! ## Concrete runs -/

/-- The calls of `CreateCluster` on an empty store, with their answers. -/
def creation : Trace medeaSig :=
  Creation.checks ++
    [ev (.store (.putHostDesired (Server.controlPlaneHost Creation.order) 0)) (.ok 1),
      ev (.store (.putClusterBootstrap Creation.order.armed)) (.ok ())]

/-- Cluster `c` has just been created. -/
def created : Facility where
  store := creation.foldl Ev.after {}

theorem created_reachable : created.store.Reachable :=
  Store.Reachable.along ⟨[], trivial, rfl⟩
    ⟨Or.inl rfl, Or.inl rfl, Or.inl rfl, Or.inl rfl, trivial⟩

def bootstrapper : BootstrapReconciler := .new "factory.talos.dev" 0

/-- Calls of `Reconcile`, each with what goes wrong during it. -/
def calls (os : List Mishap) : List (Cue Hand Chore Mishap) :=
  os.flatMap (Cue.task .reconciler .reconcile 20)

def played (qs : List (Cue Hand Chore Mishap)) (c : Config medeaSig Facility Hand) :
    List Stint × Config medeaSig Facility Hand :=
  (bringUpPlayer bootstrapper "c").play qs c

/-- The phase of cluster `c`. -/
def phaseOf (s : Facility) : Option ClusterBootstrapPhase := (s.record "c").map (·.phase)

/-! ## Etcd -/

/-- The phases after the etcd step. -/
def pastEtcd : ClusterBootstrapPhase → Bool
  | .awaitingHealthy | .fetchingKubeconfig | .ready => true
  | _ => false

/-- Past the etcd step etcd was initialized on the node. -/
def EtcdUp (cluster : String) (s : Facility) : Prop :=
  ∀ cb, s.record cluster = some cb → pastEtcd cb.phase = true → s.etcd cb.cpIp = true

/-- A node that is not initialized does not fail a call with a text that reads like the refusal of one
that is; the others leave the record alone. -/
def Candid (cluster : String) (s : Facility) : Stint → Facility → Prop
  | .act .reconciler ⟨.talos _ (.bootstrap node), .error e⟩, _ =>
    s.etcd node = false → alreadyBootstrapped e = false
  | .act (.other _) _, s' => s'.record cluster = s.record cluster
  | _, _ => True

/-- The operation writes no record past the etcd step. -/
abbrev early : Op → Prop := Op.Records fun cb => pastEtcd cb.phase = false

/-- The operation writes records of one node only. -/
abbrev sameNode (node : String) : Op → Prop := Op.Records fun cb => cb.cpIp = node

theorem EtcdUp.of_record (h : EtcdUp cluster s) (hs : s.handles e s')
    (hrec : s'.record cluster = s.record cluster) : EtcdUp cluster s' := by
  intro cb hcb hpast
  rw [hrec] at hcb
  exact (Facility.moved hs).etcd (h cb hcb hpast)

theorem EtcdUp.early (h : EtcdUp cluster s) (hs : s.handles e s') (hop : early e.op) :
    EtcdUp cluster s' := by
  rcases Facility.record_cases cluster hs hop with hrec | ⟨cb, hcb, -, hrec⟩
  · exact h.of_record hs hrec
  · intro cb' hcb' hpast
    rw [hrec] at hcb'
    cases hcb'
    rw [hcb] at hpast
    cases hpast

theorem EtcdUp.sameNode {node : String} (h : EtcdUp cluster s) (hnode : s.etcd node = true)
    (hs : s.handles e s') (hop : sameNode node e.op) : EtcdUp cluster s' := by
  rcases Facility.record_cases cluster hs hop with hrec | ⟨cb, hcb, -, hrec⟩
  · exact h.of_record hs hrec
  · intro cb' hcb' _
    rw [hrec] at hcb'
    cases hcb'
    show s'.etcd cb.cpIp = true
    rw [hcb]
    exact (Facility.moved hs).etcd hnode

section Etcd

variable (r : BootstrapReconciler) (cluster)

/-- What the others do, as far as etcd is concerned. -/
structure EtcdKept (w w' : Facility) : Prop where
  record : w'.record cluster = w.record cluster
  etcd : ∀ node, w.etcd node = true → w'.etcd node = true

/-- The reconciler, as far as etcd is concerned. -/
def etcdProtocol : Protocol medeaSig Facility where
  handle w e w' := (w.store.Reachable ∧ EtcdUp cluster w) ∧
    Candid cluster w (.act .reconciler e) w' ∧ w.handles e w'
  rely := EtcdKept cluster
  guarantee _ _ w' := EtcdUp cluster w'
  rely_refl _ := ⟨rfl, fun _ h => h⟩
  rely_trans h h' := ⟨h'.record.trans h.record, fun node hn => h'.etcd node (h.etcd node hn)⟩

variable {cluster} {w : Facility}

theorem early_sustains {α : Type} {p : Prog α} (hp : Does early p) :
    p.Sustains (etcdProtocol cluster) (fun _ _ => True) w :=
  (hp.sustains (P := etcdProtocol cluster) (J := fun _ => True) (fun h _ => h)
    (fun _ hop hw => ⟨hw.1.2.early hw.2.2 hop, trivial⟩) trivial).mono fun _ _ _ => trivial

theorem late_sustains {α : Type} {p : Prog α} {node : String} (hp : Does (sameNode node) p)
    (hnode : w.etcd node = true) : p.Sustains (etcdProtocol cluster) (fun _ _ => True) w :=
  (hp.sustains (P := etcdProtocol cluster) (J := fun w => w.etcd node = true)
    (fun h hr => hr.etcd node h)
    (fun h hop hw => ⟨hw.1.2.sameNode h hw.2.2 hop, (Facility.moved hw.2.2).etcd h⟩) hnode).mono
      fun _ _ _ => trivial

/-- The call counts as done only on a node that is initialized then. -/
theorem bootstrapEtcd_sustains :
    (bootstrapEtcd cb).Sustains (etcdProtocol cluster) (fun _ _ => True) w := by
  have hput : ∀ msg w, w.etcd cb.cpIp = true →
      (put cb .awaitingHealthy msg).Sustains (etcdProtocol cluster)
        (fun _ _ => True) w :=
    fun msg w hnode => late_sustains (put_does rfl) hnode
  refine (early_sustains (connect_does Op.records_of_passive)).bind ?_
  rintro (e | ⟨⟩) w1 -
  · exact fun _ _ => trivial
  rintro w2 - (e | ⟨⟩) w3 hw
  · refine ⟨hw.1.2.early hw.2.2 trivial, ?_⟩
    show Program.Sustains _ _ (if alreadyBootstrapped e = true then _ else _) w3
    split
    next halready =>
      apply hput
      -- a node that was not initialized would have said so
      cases hnode : w2.etcd cb.cpIp with
      | true => exact (Facility.moved hw.2.2).etcd hnode
      | false =>
        have hcandid : alreadyBootstrapped e = false := hw.2.1 hnode
        rw [halready] at hcandid
        cases hcandid
    next => exact fun _ _ => trivial
  · refine ⟨hw.1.2.early hw.2.2 trivial, ?_⟩
    apply hput
    obtain ⟨-, rfl⟩ := hw.2.2
    exact Function.update_self ..

theorem advance_etcd (hrec : w.record cluster = some cb) (hup : EtcdUp cluster w) :
    (r.advance cb).Sustains (etcdProtocol cluster) (fun _ _ => True) w := by
  have hpassive := Op.records_of_passive (P := fun cb => pastEtcd cb.phase = false)
  rw [advance]
  cases hphase : cb.phase with
  | notBootstrapped =>
    exact early_sustains (does_call (hpassive _ rfl) fun _ => put_does rfl)
  | generatingSecrets =>
    exact early_sustains (generateSecrets_does hpassive (fun _ => trivial)
      fun _ => rfl)
  | staging =>
    exact early_sustains (stage_does hpassive r (fun _ => trivial)
      (fun _ _ => trivial) fun _ => rfl)
  | awaitingInstall =>
    exact early_sustains (awaitInstall_does hpassive fun _ => rfl)
  | bootstrapping => exact bootstrapEtcd_sustains
  | awaitingHealthy | fetchingKubeconfig =>
    have hnode := hup cb hrec (by rw [hphase]; rfl)
    exact late_sustains (fetchKubeconfig_does Op.records_of_passive
      (fun _ _ => trivial) trivial trivial trivial fun _ => rfl) hnode
  | unspecified | ready | failed => exact fun _ _ => trivial

end Etcd

def etcdUpkeep (r : BootstrapReconciler) (cluster : String) : Upkeep r cluster where
  inv := EtcdUp cluster
  cond := Candid cluster
  rely := EtcdKept cluster
  guarantee _ _ w' := EtcdUp cluster w'
  rely_refl := (etcdProtocol cluster).rely_refl
  rely_trans := (etcdProtocol cluster).rely_trans
  own _ _ hg := hg
  others h hcond hw := ⟨h.of_record hw hcond, hcond, fun _ hn => (Facility.moved hw).etcd hn⟩
  crash h := h
  call w := by
    refine BootstrapReconciler.reconcile_sustains (P := etcdProtocol cluster)
      (J := fun cb w => w.record cluster = some cb ∧ EtcdUp cluster w) r ?_ ?_ ?_ ?_ ?_ w
    · intro w w' rep hw
      have hup := hw.1.2.early hw.2.2 trivial
      exact ⟨hup, fun cb hrep => ⟨Facility.record_read hw.2.2 hrep, hup⟩⟩
    · rintro cb w w' ⟨hrec, hup⟩ hr
      refine ⟨hr.record.trans hrec, fun cb' hcb' hpast => hr.etcd _ ?_⟩
      rw [hr.record] at hcb'
      exact hup cb' hcb' hpast
    · rintro cb w w' e ⟨hrec, -⟩ hpassive hw
      have hup := hw.1.2.early hw.2.2 (Op.records_of_passive _ hpassive)
      exact ⟨hup, (Facility.record_handles cluster hw.2.2 (Op.arms_of_passive hpassive)).trans hrec,
        hup⟩
    · intro cb w _ _
      exact early_sustains (BootstrapReconciler.put_does rfl)
    · rintro cb w ⟨hrec, hup⟩ _
      exact advance_etcd r hrec hup

/-- In every run of calls in which no other failure reads like the refusal of an initialized node, a
record past the etcd step means that etcd was initialized on the node. -/
theorem etcd_before_health {r : BootstrapReconciler} {cluster : String} {s : Facility}
    (hs : s.store.Reachable) (hup : EtcdUp cluster s) {ls : List Stint}
    {c : Config medeaSig Facility Hand}
    (hr : (bringUp r cluster).RunsWith (Candid cluster) (Config.idle medeaSig Hand s) ls c) :
    EtcdUp cluster c.world :=
  ((etcdUpkeep r cluster).runs_inv hs hup hr).2

/-- A bring-up in which nothing goes wrong. -/
def smooth : List Stint × Config medeaSig Facility Hand :=
  played (calls (List.replicate 6 .none)) (Config.idle medeaSig Hand created)

theorem created_etcdUp : EtcdUp "c" created := by
  intro cb hcb hpast
  have hphase : created.record "c" |>.all (fun cb => !pastEtcd cb.phase) := by decide +kernel
  rw [hcb, Option.all_some, hpast] at hphase
  cases hphase

/-- The node accepts the call, and there is nobody else. -/
def accepted : Facility → Stint → Facility → Bool
  | _, .act .reconciler ⟨.talos _ (.bootstrap _), .error _⟩, _ => false
  | _, .act (.other _) _, _ => false
  | _, _, _ => true

theorem Candid.of_accepted {l : Stint} (h : accepted s l s' = true) : Candid cluster s l s' := by
  unfold Candid
  split
  · cases h
  · cases h
  · trivial

/-- The smooth bring-up ends with a cluster that is ready and has etcd. -/
theorem smooth_etcd : phaseOf smooth.2.world = some .ready ∧ EtcdUp "c" smooth.2.world := by
  have hr : (bringUp bootstrapper "c").RunsWith (Candid "c") (Config.idle medeaSig Hand created)
      smooth.1 smooth.2 :=
    Player.play_runsWith _ (fun _ _ _ => Candid.of_accepted) _ _ (by decide +kernel)
  exact ⟨by decide +kernel, etcd_before_health created_reachable created_etcdUp hr⟩

/-- A bring-up in which the connection breaks during the call that initializes etcd. -/
def broken : List Stint × Config medeaSig Facility Hand :=
  played (calls (List.replicate 4 .none ++ [.refused "transport: connection already closed"]))
    (Config.idle medeaSig Hand created)

/-- The text reads like the refusal of an initialized node, so the etcd step is passed without etcd. -/
theorem broken_without_etcd : created.store.Reachable ∧ EtcdUp "c" created ∧
    (bringUp bootstrapper "c").Runs (Config.idle medeaSig Hand created) broken.1 broken.2 ∧
    ¬EtcdUp "c" broken.2.world := by
  refine ⟨created_reachable, created_etcdUp, Player.play_runs .., ?_⟩
  intro h
  have hdown : broken.2.world.record "c" |>.any
      (fun cb => pastEtcd cb.phase && !broken.2.world.etcd cb.cpIp) := by decide +kernel
  obtain ⟨cb, hcb, hp⟩ := Option.any_eq_true _ _ |>.1 hdown
  rw [Bool.and_eq_true, Bool.not_eq_true'] at hp
  rw [h cb hcb hp.1] at hp
  cases hp.2

/-! ## Secrets -/

/-- The bundle of the cluster that is stored, if it is not empty, is stored afterwards. -/
def BundleKept (cluster : String) (s s' : Facility) : Prop :=
  ∀ b, b ≠ [] → (s.creds cluster).secrets = some b → (s'.creds cluster).secrets = some b

/-- No bundle of the cluster is stored, or an empty one. -/
def Bare (cluster : String) (s : Facility) : Prop :=
  ∀ b, (s.creds cluster).secrets = some b → b = []

/-- A bundle that is stored can be read; the others leave it alone. -/
def Readable (cluster : String) (s : Facility) : Stint → Facility → Prop
  | .act .reconciler ⟨.creds (.secrets c), .error _⟩, _ => c = cluster → Bare cluster s
  | .act (.other _) _, s' => (s'.creds cluster).secrets = (s.creds cluster).secrets
  | _, _ => True

/-- The operation stores or removes bundles. -/
def mints : Op → Bool
  | .creds (.putSecrets _ _) | .creds (.delete _) => true
  | _ => false

theorem secrets_handles (c : String) (h : s.handles e s') (hop : mints e.op = false) :
    (s'.creds c).secrets = (s.creds c).secrets := by
  rcases (Facility.moved h).creds with hsame | ⟨op, rep, rfl, hmoves⟩
  · rw [hsame]
  · cases op with
    | talosConfig | kubeConfig | secrets => rw [hmoves.1]
    | putSecrets | delete => cases hop
    | put c' talos kube =>
      obtain ⟨new, hnew, -, -, hsecrets⟩ := hmoves
      rw [hnew]
      by_cases hc : c = c'
      · subst hc
        rw [Function.update_self, hsecrets]
      · rw [Function.update_of_ne hc]

theorem mints_of_passive {op : Op} (h : op.passive = true) : mints op = false := by
  unfold mints
  split
  · cases h
  · cases h
  · rfl

section Secrets

variable (r : BootstrapReconciler) (cluster)

/-- The reconciler, as far as the bundle is concerned. -/
def secretsProtocol : Protocol medeaSig Facility where
  handle w e w' := (w.store.Reachable ∧ True) ∧ Readable cluster w (.act .reconciler e) w' ∧
    w.handles e w'
  rely w w' := (w'.creds cluster).secrets = (w.creds cluster).secrets
  guarantee w _ w' := BundleKept cluster w w'
  rely_refl _ := rfl
  rely_trans h h' := h'.trans h

variable {cluster} {w : Facility}

/-- Whoever stores no bundle keeps the one that is there. -/
theorem unminting_sustains {α : Type} {p : Prog α} (hp : Does (fun op => mints op = false) p) :
    p.Sustains (secretsProtocol cluster) (fun _ _ => True) w := by
  have hkept : p.Sustains (secretsProtocol cluster) (fun _ _ => True ∧ True) w := by
    refine hp.sustains (P := secretsProtocol cluster) (J := fun _ => True) (fun h _ => h) ?_ trivial
    intro w w' e _ hop hw
    refine ⟨fun b _ hb => ?_, trivial⟩
    rw [secrets_handles cluster hw.2.2 hop, hb]
  exact hkept.mono fun _ _ _ => trivial

/-- A bundle is minted only where there is none. -/
theorem mintSecrets_sustains (hbare : Bare cluster w) :
    (mintSecrets cb).Sustains (secretsProtocol cluster) (fun _ _ => True) w := by
  have hrely : ∀ {w w'}, Bare cluster w → (secretsProtocol cluster).rely w w' → Bare cluster w' := by
    intro w w' h hr b hb
    exact h b (hr.symm.trans hb)
  have hlooks : ∀ {w w'} {e : Ev}, Bare cluster w → mints e.op = false →
      (secretsProtocol cluster).handle w e w' → BundleKept cluster w w' ∧ Bare cluster w' := by
    intro w w' e h hop hw
    have hsame := secrets_handles cluster hw.2.2 hop
    refine ⟨fun b _ hb => hsame.trans hb, fun b hb => h b (hsame.symm.trans hb)⟩
  apply Program.sustains_perform (J := Bare cluster) hrely hbare
  rintro w1 (e | bundle) w2 hw1 hw
  · exact ⟨(hlooks hw1 rfl hw).1, fun _ _ => trivial⟩
  refine ⟨(hlooks hw1 rfl hw).1, ?_⟩
  apply Program.sustains_perform (J := Bare cluster) hrely (hlooks hw1 rfl hw).2
  rintro w3 (e | out) w4 hw3 hw
  · exact ⟨(hlooks hw3 rfl hw).1, fun _ _ => trivial⟩
  refine ⟨(hlooks hw3 rfl hw).1, ?_⟩
  apply Program.sustains_perform (J := Bare cluster) hrely (hlooks hw3 rfl hw).2
  intro w5 rep w6 hw5 _
  refine ⟨fun b hb hsome => absurd (hw5 b hsome) hb, ?_⟩
  rcases rep with e | ⟨⟩
  · exact fun _ _ => trivial
  · exact unminting_sustains (put_does rfl)

theorem generateSecrets_sustains (hc : cb.cluster = cluster) :
    (generateSecrets cb).Sustains (secretsProtocol cluster)
      (fun _ _ => True) w := by
  rintro w1 - rep w2 hw
  have hsame := secrets_handles cluster hw.2.2 rfl
  refine ⟨fun b _ hb => hsame.trans hb, ?_⟩
  obtain ⟨-, hreadable, k, ⟨rfl, hread⟩, rfl⟩ := hw
  subst hc
  rcases rep with e | b
  · exact mintSecrets_sustains (hreadable rfl)
  · show Program.Sustains _ _ (if b ≠ [] then _ else _) _
    split
    · exact unminting_sustains (put_does rfl)
    next hempty =>
      apply mintSecrets_sustains
      intro b' hb'
      have hstored : (w1.creds cb.cluster).secrets = some b := hread b rfl
      have hb : some b' = some b := hb'.symm.trans hstored
      cases hb
      exact not_not.1 hempty

theorem advance_secrets (hc : cb.cluster = cluster) :
    (r.advance cb).Sustains (secretsProtocol cluster) (fun _ _ => True) w := by
  have hpassive : ∀ op : Op, op.passive = true → mints op = false := fun _ h => mints_of_passive h
  rw [advance]
  cases cb.phase with
  | notBootstrapped =>
    exact unminting_sustains (does_call rfl fun _ => put_does rfl)
  | generatingSecrets => exact generateSecrets_sustains hc
  | staging =>
    exact unminting_sustains (stage_does hpassive r (fun _ => rfl)
      (fun _ _ => rfl) fun _ => rfl)
  | awaitingInstall =>
    exact unminting_sustains (awaitInstall_does hpassive fun _ => rfl)
  | bootstrapping =>
    exact unminting_sustains (bootstrapEtcd_does hpassive rfl fun _ => rfl)
  | awaitingHealthy | fetchingKubeconfig =>
    exact unminting_sustains (fetchKubeconfig_does hpassive
      (fun _ _ => rfl) rfl rfl rfl fun _ => rfl)
  | unspecified | ready | failed => exact fun _ _ => trivial

end Secrets

def secretsUpkeep (r : BootstrapReconciler) (cluster : String) : Upkeep r cluster where
  inv _ := True
  cond := Readable cluster
  rely := (secretsProtocol cluster).rely
  guarantee w _ w' := BundleKept cluster w w'
  rely_refl := (secretsProtocol cluster).rely_refl
  rely_trans := (secretsProtocol cluster).rely_trans
  own _ _ _ := trivial
  others _ hcond _ := ⟨trivial, hcond⟩
  crash _ := trivial
  call w := by
    have hlooks : ∀ {w w' : Facility} {e : Ev}, w.handles e w' → mints e.op = false →
        BundleKept cluster w w' := by
      intro w w' e hw hop b _ hb
      rw [secrets_handles cluster hw hop, hb]
    refine BootstrapReconciler.reconcile_sustains (P := secretsProtocol cluster)
      (J := fun cb _ => cb.cluster = cluster) r ?_ (fun h _ => h) ?_ ?_ ?_ w
    · intro w w' rep hw
      refine ⟨hlooks hw.2.2 rfl, fun cb hrep => ?_⟩
      have hrec := Facility.record_read hw.2.2 hrep
      rw [Facility.record_handles cluster hw.2.2 rfl] at hrec
      exact Facility.record_cluster hw.1.1 hrec
    · intro cb w w' e hc hpassive hw
      exact ⟨hlooks hw.2.2 (mints_of_passive hpassive), hc⟩
    · intro cb w _ _
      exact unminting_sustains (BootstrapReconciler.put_does rfl)
    · intro cb w hc _
      exact advance_secrets r hc

/-- In every run of calls in which a bundle that is stored can be read, the bundle of the cluster is
never replaced once it is stored. -/
theorem secrets_kept {r : BootstrapReconciler} {cluster : String} {s : Facility}
    (hs : s.store.Reachable) {ls ls' : List Stint} {c c' : Config medeaSig Facility Hand}
    (hr : (bringUp r cluster).RunsWith (Readable cluster) (Config.idle medeaSig Hand s) ls c)
    (hr' : (bringUp r cluster).RunsWith (Readable cluster) c ls' c') :
    BundleKept cluster c.world c'.world := by
  refine (secretsUpkeep r cluster).runs_rel (R := BundleKept cluster) ?_ ?_ ?_ ?_ ?_ hs trivial hr hr'
  · exact fun w b _ hb => hb
  · exact fun h h' b hne hb => h' b hne (h b hne hb)
  · exact fun _ _ hg => hg
  · intro w w' n e _ hcond _ b _ hb
    rw [show (w'.creds cluster).secrets = (w.creds cluster).secrets from hcond, hb]
  · exact fun b _ hb => hb

/-- A bundle that is stored is read, and there is nobody else. -/
def legible : Facility → Stint → Facility → Bool
  | s, .act .reconciler ⟨.creds (.secrets c), .error _⟩, _ => (s.creds c).secrets.isNone
  | _, .act (.other _) _, _ => false
  | _, _, _ => true

theorem Readable.of_legible {l : Stint} (h : legible s l s' = true) : Readable cluster s l s' := by
  unfold Readable
  split
  · rintro rfl b hb
    have hnone : (s.creds _).secrets.isNone = true := h
    rw [hb] at hnone
    cases hnone
  · cases h
  · trivial

/-- Up to the crash the bundle is stored, but not the phase. -/
def crashed : List Stint × Config medeaSig Facility Hand :=
  played (calls [.none] ++ Cue.task .reconciler .reconcile 6 .none ++ [.crash])
    (Config.idle medeaSig Hand created)

/-- The calls after the crash, with what goes wrong during the first of them. -/
def recovered (o : Mishap) : List Stint × Config medeaSig Facility Hand :=
  played (calls [o, .none, .none]) crashed.2

/-- After the crash the bundle is found, and the bring-up goes on with it. -/
theorem crash_bundle_kept : (crashed.2.world.creds "c").secrets.isSome = true ∧
    phaseOf crashed.2.world = some .generatingSecrets ∧
    phaseOf (recovered .none).2.world = some .bootstrapping ∧
    BundleKept "c" crashed.2.world (recovered .none).2.world := by
  have hr : (bringUp bootstrapper "c").RunsWith (Readable "c") (Config.idle medeaSig Hand created)
      crashed.1 crashed.2 :=
    Player.play_runsWith _ (fun _ _ _ => Readable.of_legible) _ _ (by decide +kernel)
  have hr' : (bringUp bootstrapper "c").RunsWith (Readable "c") crashed.2 (recovered .none).1
      (recovered .none).2 :=
    Player.play_runsWith _ (fun _ _ _ => Readable.of_legible) _ _ (by decide +kernel)
  exact ⟨by decide +kernel, by decide +kernel, by decide +kernel,
    secrets_kept created_reachable hr hr'⟩

/-- If the read fails after the crash a second bundle is minted over the first. -/
theorem crash_bundle_replaced : created.store.Reachable ∧
    (bringUp bootstrapper "c").Runs (Config.idle medeaSig Hand created) crashed.1 crashed.2 ∧
    (bringUp bootstrapper "c").Runs crashed.2 (recovered (.unread "timeout")).1
      (recovered (.unread "timeout")).2 ∧
    ¬BundleKept "c" crashed.2.world (recovered (.unread "timeout")).2.world := by
  refine ⟨created_reachable, Player.play_runs .., Player.play_runs .., ?_⟩
  intro h
  have hfirst : (crashed.2.world.creds "c").secrets = some [0, 6] := by decide +kernel
  exact absurd (h _ (by decide) hfirst) (by decide +kernel)

end BringUp

end Medea
