import Medea.ControlPlane.Places

/-!
# The host of a control plane

`CreateCluster` registers the machine of the new control plane as a host of the pool `controlplane`. The
bring-up installs the machine and records it as a member and as a machine, but leaves the record of the
host alone, and a provisioning pass works on pools with replicas only, which no call of the server sets.
So the host is never marked: `host_never_taken` says of every state of every run, those in which the
cluster is ready among them, that the host is still registered and available to a pass over its pool.
-/

set_option autoImplicit false
set_option maxRecDepth 100000

namespace Medea

open Medea.Interaction

/-- The host of the bring-up is ready, with the address of the control plane. -/
def HostTaken (cb : ClusterBootstrap) (s : Store) : Prop :=
  ∃ h ∈ s.db.hosts[ckey cb.cluster cb.cpMac]?, h.state = .ready ∧ h.addr = cb.cpIp

instance (cb : ClusterBootstrap) (s : Store) : Decidable (HostTaken cb s) :=
  inferInstanceAs (Decidable (∃ _ ∈ _, _))

/-- A registered host that matches is picked, or one before it. -/
theorem pickAvailable_of_mem {hosts : List Host} {selector : List (String × String)} {h : Host}
    (hmem : h ∈ hosts) (hstate : h.state = .registered)
    (hsel : matchesSelector h.labels selector = true) :
    (pickAvailable hosts selector).isSome = true := by
  rw [pickAvailable, List.find?_isSome]
  exact ⟨h, hmem, by simp [hstate, hsel]⟩

/-- No run of the control plane marks the host of a control plane. In every state, whatever the phase of
the bring-up, its record is not ready with the address of the control plane: as long as it is there it
is registered without an address, and a pass over its pool finds a host available. -/
theorem host_never_taken {cfg : Settings} {ls : List Lbl} {c : State} (hr : Reaches cfg ls c)
    (cb : ClusterBootstrap) : ¬HostTaken cb c.world.store ∧
    ∀ h, c.world.store.db.hosts[ckey cb.cluster cb.cpMac]? = some h →
      h.state = .registered ∧ h.addr = "" ∧ ∀ selector, matchesSelector h.labels selector = true →
        (pickAvailable (c.world.store.listHosts cb.cluster h.pool) selector).isSome = true := by
  have hunused : ∀ h, c.world.store.db.hosts[ckey cb.cluster cb.cpMac]? = some h →
      h.state = .registered ∧ h.addr = "" := by
    intro h hget
    have hinv := (cfg.supervision .own).runs_inv (fun _ _ => rfl) hr
      (Supervision.inv_idle _ Discipline.storeOk_empty (m := Ghost.initial) fun _ _ => rfl)
      (along_of_split fun _ l _ _ => Settings.assumes_any _ l)
    exact (hinv.1.records _ _ _ (DB.entry_of_host hget)).unused trivial
  constructor
  · rintro ⟨h, hget, hready, -⟩
    rw [(hunused h hget).1] at hready
    cases hready
  · intro h hget
    obtain ⟨hstate, haddr⟩ := hunused h hget
    refine ⟨hstate, haddr, fun selector hsel => ?_⟩
    have hlisted : h ∈ c.world.store.listHosts cb.cluster h.pool :=
      Store.mem_listHosts.2 ⟨⟨_, hget, hasPrefix_ckey_self ..⟩, Or.inr rfl⟩
    exact pickAvailable_of_mem hlisted hstate hsel

/-- Cluster `c` is created and brought up. -/
def Script.broughtUp : List Move :=
  request (.createCluster
    { name := "c", cpEndpoint := "https://10.0.0.1:6443", cpMac := "m", cpIp := "10.0.0.1"
      talosVersion := "v1.7.0", kubernetesVersion := "v1.30.0", confirm := true }) ++
    (List.replicate 6 (run .bootstrap .bootstrapPass 20 (.working "v1.7.0" [node]))).flatten

theorem broughtUp_host_free :
    ¬HostTaken { cluster := "c", cpMac := "m", cpIp := "10.0.0.1" }
      (runScript Script.settings Script.broughtUp State.initial).2.world.store :=
  (host_never_taken (reaches_script Script.settings Script.broughtUp) _).1

/-- The cluster is ready, and the machine of its control plane is the host that the next pass over the
pool would stage. -/
theorem broughtUp_host_available : ∃ ls c cb, Reaches Script.settings ls c ∧
    c.world.store.getClusterBootstrap "c" = some cb ∧ cb.phase = .ready ∧
    ¬HostTaken cb c.world.store ∧
    (pickAvailable (c.world.store.listHosts "c" "controlplane") []).map (·.mac) = some cb.cpMac := by
  refine ⟨_, _, _, reaches_script Script.settings Script.broughtUp, rfl, ?_, ?_, ?_⟩
  · decide +kernel
  · decide +kernel
  · decide +kernel

end Medea
