import Medea.ControlPlane.Edits

/-!
# The requests follow the discipline

What a request writes is a change of a record it has read (`Server.handle_serves`). A change keeps in
order what it does not touch, so it is enough to look at the changes; the requests that change no
record look around, arm a new cluster, or delete.
-/

set_option autoImplicit false

namespace Medea

open Medea.Interaction

namespace Discipline

variable {D : Discipline} {cl cl' : Cluster}

/-- A change that raises one guard of a cluster at most is in order, or it is made by the request that
may raise the watched guard. -/
theorem ClusterOk.raised (h : D.ClusterOk cl) (g : Guard) (hn : cl'.name = cl.name)
    (hg : ∀ g', g' ≠ g → g'.of cl' = g'.of cl) :
    D.ClusterOk cl' ∨ D.named cl'.name ∧ D.Raises (.request (g.enable cl.name)) cl' := by
  by_cases hD : D.guard = some (g, cl.name)
  · exact Or.inr ⟨hn ▸ h.named, g, _, hD, hn, rfl⟩
  · refine Or.inl ⟨hn ▸ h.named, fun {g' c} hD' hc => ?_⟩
    have hc' : cl.name = c := hn.symm.trans hc
    have hne : g' ≠ g := by
      rintro rfl
      exact hD (hc' ▸ hD')
    rw [hg g' hne]
    exact h.down hD' hc'

/-- A change that lowers one guard of a cluster at most is in order. -/
theorem ClusterOk.lowered (h : D.ClusterOk cl) (g : Guard) (hn : cl'.name = cl.name)
    (hdown : g.of cl' = false) (hg : ∀ g', g' ≠ g → g'.of cl' = g'.of cl) : D.ClusterOk cl' where
  named := hn ▸ h.named
  down {g' c} hD hc := by
    by_cases hne : g' = g
    · exact hne ▸ hdown
    · rw [hg g' hne]
      exact h.down hD (hn ▸ hc)

/-- A record in order, under the key it was found at. -/
def RecordOk (D : Discipline) (key : EventKind × String) : Record → Prop
  | .cluster c => key = (.cluster, c.name) ∧ D.ClusterOk c
  | .nodePool np => key = (.nodepool, ckey np.cluster np.name) ∧ D.PoolOk np
  | .machine m => key = (.machine, ckey m.cluster m.talosEndpoint) ∧ D.named m.cluster
  | .host h => key = (.host, ckey h.cluster h.mac) ∧ D.HostOk h
  | _ => False

theorem recordOk_of_found {e : Ev} (h : D.reads e) {key : EventKind × String} {v : Record} {rev : Nat}
    (hf : Ev.found e = some (key, some v, rev)) : D.RecordOk key v := by
  obtain ⟨op, rep⟩ := e
  cases op with
  | store op =>
    cases op with
    | getCluster | getNodePool | getMachine | getHost =>
      rcases rep with err | ⟨_ | x, r⟩
      · cases hf
      · cases hf
      · cases hf
        exact ⟨congrArg (Prod.mk _) h.1.symm, h.2⟩
    | _ => cases hf
  | _ => cases hf

end Discipline

namespace Server

variable {D : Discipline} {req : Request}

theorem allowed {op : Op} (h : D.writes (.request req) op) : D.Allows (.request req) op :=
  .of_writes (by simp) h

/-- A request changes a cluster in order, or raises the guard it may raise. -/
theorem cluster_writes {f : Cluster → Cluster} {c : Cluster}
    (hu : req.performs (.cluster, c.name) (.cluster f)) (hc : D.ClusterOk c) :
    D.ClusterOk (f c) ∨ D.named (f c).name ∧ D.Raises (.request req) (f c) := by
  cases req with
  | setClusterVersions cluster t k expected =>
    obtain ⟨-, ⟨⟩⟩ := hu
    exact Or.inl (hc.of_same rfl fun g => by cases g <;> rfl)
  | createRollout r =>
    obtain ⟨⟨⟩, -⟩ | ⟨-, ⟨⟩⟩ := hu
    exact Or.inl (hc.of_same rfl fun g => by cases g <;> rfl)
  | enableRollouts cluster =>
    obtain ⟨⟨⟩, ⟨⟩⟩ := hu
    exact hc.raised .rollouts rfl fun g hg => by cases g <;> first | rfl | exact absurd rfl hg
  | enableProvisioning cluster =>
    obtain ⟨⟨⟩, ⟨⟩⟩ := hu
    exact hc.raised .provisioning rfl fun g hg => by cases g <;> first | rfl | exact absurd rfl hg
  | disableRollouts cluster =>
    obtain ⟨-, ⟨⟩⟩ := hu
    exact Or.inl (hc.lowered .rollouts rfl rfl fun g hg => by
      cases g <;> first | rfl | exact absurd rfl hg)
  | disableProvisioning cluster =>
    obtain ⟨-, ⟨⟩⟩ := hu
    exact Or.inl (hc.lowered .provisioning rfl rfl fun g hg => by
      cases g <;> first | rfl | exact absurd rfl hg)
  | setNodePoolVersion | pauseRollout | resumeRollout | registerHost => cases hu.1
  | _ => cases hu

/-- The changes of a pool that a request makes keep it in order. -/
theorem pool_writes {key : EventKind × String} {f : NodePool → NodePool}
    (hu : req.performs key (.nodePool f)) {np : NodePool} (hnp : D.PoolOk np) : D.PoolOk (f np) := by
  cases req with
  | setNodePoolVersion | pauseRollout | resumeRollout =>
    obtain ⟨-, ⟨⟩⟩ := hu
    exact hnp.of_same rfl rfl rfl
  | createRollout r =>
    obtain ⟨-, ⟨⟩⟩ | ⟨-, ⟨⟩⟩ := hu
    exact hnp.of_same rfl rfl rfl
  | setClusterVersions | enableRollouts | disableRollouts | enableProvisioning
  | disableProvisioning => cases hu.2
  | registerHost r =>
    obtain ⟨-, role, ⟨⟩⟩ := hu
  | _ => cases hu

/-- The host that a request writes is registered. -/
theorem host_writes {key : EventKind × String} {u : Edit} (hu : req.performs key u)
    {cur : Option Record} {host : Host} (ha : u.apply cur = some (.host host))
    (hn : D.named host.cluster) (hcur : ∀ v ∈ cur, D.RecordOk key v) : D.HostOk host := by
  cases u with
  | registration r role =>
    obtain ⟨cur', rfl, ⟨⟩⟩ := Edit.makes_of_apply ha
    rw [(registeredHost_names r role cur').1] at hn
    exact .registered hn fun h hh => (hcur (.host h) (Option.mem_map_of_mem _ hh)).2
  | host f =>
    -- the other changes of hosts are the provisioning pass's
    cases req with
    | registerHost r => obtain ⟨-, role, ⟨⟩⟩ := hu
    | createRollout r => obtain ⟨-, ⟨⟩⟩ | ⟨-, ⟨⟩⟩ := hu
    | setClusterVersions | setNodePoolVersion | pauseRollout | resumeRollout | enableRollouts
    | disableRollouts | enableProvisioning | disableProvisioning => cases hu.2
    | _ => cases hu
  | _ =>
    rcases cur with _ | v
    · cases ha
    · cases v <;> cases ha

/-- A known cluster has a name in use, and its rollouts are not the watched guard if one is created. -/
theorem named_of_knows {es : Trace medeaSig} (hes : ∀ e ∈ es, D.reads e) {name : String}
    (h : req.Knows es name) : D.named name ∧
      ∀ r, req = .createRollout r → ∀ c, D.guard = some (.rollouts, c) → name ≠ c := by
  obtain ⟨c, rev, hread, hen⟩ := h
  obtain ⟨rfl, hok⟩ := hes _ hread
  refine ⟨hok.named, fun r hr c' hD hc => ?_⟩
  have hdown : c.rolloutsEnabled = false := hok.down hD hc
  rw [hen r hr] at hdown
  cases hdown

theorem writes_of_serves {es : Trace medeaSig} (hes : ∀ e ∈ es, D.reads e) {op : Op}
    (h : req.Serves req.Knows es op) : D.writes (.request req) op := by
  cases op with
  | store op =>
    cases op with
    | putClusterDesired cl expected =>
      obtain ⟨-, e, he, key, cur, u, hf, hu, ha⟩ := h.backs _ _ rfl
      obtain ⟨f, c, rfl, rfl, rfl⟩ := Edit.cluster_of_apply ha
      obtain ⟨rfl, hc⟩ := Discipline.recordOk_of_found (hes e he) hf
      exact cluster_writes hu hc
    | putNodePoolDesired np expected =>
      obtain ⟨-, e, he, key, cur, u, hf, hu, ha⟩ := h.backs _ _ rfl
      obtain ⟨f, np, rfl, rfl, rfl⟩ := Edit.nodePool_of_apply ha
      obtain ⟨-, hnp⟩ := Discipline.recordOk_of_found (hes e he) hf
      exact pool_writes hu hnp
    | putHostDesired host expected =>
      obtain ⟨-, e, he, key, cur, u, hf, hu, ha⟩ := h.backs _ _ rfl
      refine host_writes hu ha (named_of_knows hes h.ordered).1 ?_
      rintro v rfl
      exact Discipline.recordOk_of_found (hes e he) hf
    | putRolloutJob job =>
      obtain ⟨hord, hk⟩ := h.ordered
      obtain ⟨hn, hne⟩ := named_of_knows hes hk
      refine ⟨hn, hord, fun c req' hreq hD => ?_⟩
      cases hreq
      cases req with
      | createRollout r => exact hne r rfl c hD
      | _ => cases hord
    | putMachineDesired | putClusterBootstrap | putMachineRollout | putClusterRollout =>
      exact h.ordered.elim
    | _ => trivial
  | _ => trivial

/-- Every request follows the discipline. -/
theorem handle_orderly (s : Server) (req : Request) (hn : ∀ c ∈ req.founds, D.named c) :
    D.Orderly (.request req) (s.handle req) := by
  by_cases hreq : Task.edits (.request req) = true
  · exact (s.handle_serves req hreq).within Op.reply_nonempty fun es op hes h =>
      allowed (writes_of_serves hes h)
  · refine (handle_does (.of_writeless (by simp)) s (by simpa using hreq) ?_ ?_).within
    · rintro r rfl
      have hname : D.named r.name := hn _ List.mem_cons_self
      exact ⟨allowed ⟨hname, fun _ => ⟨rfl, rfl⟩⟩, fun _ => allowed hname⟩
    · exact ⟨fun _ _ => allowed trivial, fun _ => allowed trivial⟩

end Server

end Medea
