import Medea.Server.Writes

/-!
# The other tasks follow the discipline

Seeding, refreshing, the bootstrap executor and the provisioning executor, function by function, and
the summary `Settings.task_follows` for every task that is not a rollout pass.

A provisioning pass is also bound to leave a cluster alone whose provisioning guard is down. Its
functions are given a cluster name; `Spared` says that it is not the watched one.
-/

set_option autoImplicit false

namespace Medea

open Medea.Interaction Discipline

/-! ## The bootstrap executor -/

section Bootstrapping

variable {D : Discipline} {t : Task} (ht : t ≠ .provisionPass)
include ht

namespace BootstrapReconciler

variable (r : BootstrapReconciler)

theorem reconcile_orderly (cluster : String) : D.Orderly t (r.reconcile cluster) := by
  refine follows_call (.of_writes ht trivial) fun rep hrep => ?_
  rcases rep with e | (_ | cb)
  · trivial
  · trivial
  have hn : D.named cb.cluster := hrep
  dsimp only
  split
  · trivial
  have hidle := Discipline.Allows.of_writeless (D := D) ht
  refine ((timedOut_does (fun op h => hidle op (op.writeless_of_passive h)) r).within).bind fun out _ => ?_
  split
  · exact (put_does (.of_writes ht hn)).within
  · refine (r.advance_does hidle (.of_writes ht (Or.inl (.of_new hn rfl rfl)))
      (.of_writes ht ⟨hn, fun _ => ⟨rfl, rfl⟩⟩) (.of_writes ht hn) fun cb' h => .of_writes ht ?_).within
    show D.named cb'.cluster
    rw [h]
    exact hn

/-- A pass takes each record up by reading it again, so its listing does not have to be in order. -/
theorem runOnce_listed {rep : Except StoreError (List ClusterBootstrap)}
    {p : Prog (Option String)}
    (hp : r.runOnce.Steps [⟨.store .listClusterBootstraps, rep⟩] p) : D.Orderly t p := by
  cases hp with
  | head _ hp =>
    rw [hp.of_nil]
    rcases rep with e | cbs
    · trivial
    refine (Program.within_forEach fun cb _ => ?_).bind fun _ _ => trivial
    split
    · trivial
    · exact (reconcile_orderly ht r cb.cluster).bind fun _ _ => trivial

theorem runOnce_orderly : D.Orderly t r.runOnce :=
  follows_call (.of_writes ht trivial) fun rep _ =>
    runOnce_listed ht r (.head rep (.refl _))

end BootstrapReconciler

end Bootstrapping

/-! ## The provisioning executor -/

namespace ProvisionReconciler

variable {D : Discipline}

/-- The discipline of a provisioning pass. -/
abbrev Orderly {α : Type} (D : Discipline) (p : Prog α) : Prop := D.Orderly .provisionPass p

/-- A cluster in use whose provisioning guard is not the watched one. -/
structure Spared (D : Discipline) (cluster : String) : Prop where
  named : D.named cluster
  other : ∀ {c}, D.guard = some (.provisioning, c) → cluster ≠ c

/-- A record found under a key of a spared cluster belongs to a spared cluster. -/
theorem Spared.of_key {cluster cluster' a b : String} (h : Spared D cluster)
    (hn : D.named cluster') (hk : ckey cluster' a = ckey cluster b) : Spared D cluster' where
  named := hn
  other {c} hD := by
    rw [(ckey_inj (D.plain hD hn) (D.plain hD h.named) hk).1]
    exact h.other hD

/-- A record in order lies under a key of its cluster. -/
theorem found_in_order {e : Ev} (h : D.reads e) {kind : EventKind} {k : String} {v : Record} {rev : Nat}
    (hkind : kind ≠ .cluster) (hf : Ev.found e = some ((kind, k), some v, rev)) :
    ∃ a, D.named v.clusterName ∧ ckey v.clusterName a = k := by
  have hv := recordOk_of_found h hf
  cases v with
  | cluster c => exact absurd (congrArg Prod.fst hv.1) hkind
  | nodePool np => exact ⟨_, hv.2.named, (congrArg Prod.snd hv.1).symm⟩
  | machine => exact ⟨_, hv.2, (congrArg Prod.snd hv.1).symm⟩
  | host h => exact ⟨_, hv.2.named, (congrArg Prod.snd hv.1).symm⟩
  | _ => exact hv.elim

/-- An operation that touches no cluster. -/
theorem allowed {op : Op} (hw : D.writes .provisionPass op) (ht : ∀ c, ¬op.touches c) :
    D.Allows .provisionPass op where
  writes := hw
  spares _ _ := ht _

section Seen

variable {es : Trace medeaSig} (hes : ∀ e ∈ es, D.reads e)
include hes

/-- The name that was asked for and the one that was found are the same. -/
theorem eq_of_named {cluster c : String} (h : Named cluster es c) : c = cluster := by
  rcases h with h | ⟨cl, rev, hread, rfl⟩
  · exact h
  · exact (hes _ hread).1

/-- What is reached from a spared cluster is spared. -/
theorem Spared.of_reached {cluster c : String} (hs : Spared D cluster)
    (h : Reached (Named cluster es) es c) : Spared D c := by
  rcases h with h | ⟨⟨op, rep⟩, he, kind, cluster', name, v, rev, hc, hf, rfl, hkind⟩
  · exact eq_of_named hes h ▸ hs
  obtain rfl := eq_of_named hes hc
  obtain ⟨a, hn, hk⟩ : ∃ a, D.named v.clusterName ∧ ckey v.clusterName a = ckey cluster' name :=
    found_in_order (hes _ he) hkind hf
  exact hs.of_key hn hk

theorem writes_of_provides {names : String → Prop} {P : GeneratorInput → Prop} {op : Op}
    (h : Provides names P es op) (hn : ∀ c, op.touches c → D.named c) (hf : ¬D.fresh) :
    D.writes .provisionPass op := by
  cases op with
  | store op =>
    cases op with
    | putClusterDesired cl expected =>
      obtain ⟨-, e, -, key, cur, u, -, hu, happly⟩ := h.backs _ _ rfl
      obtain ⟨f, c, rfl, -, -⟩ := Edit.cluster_of_apply happly
      cases hu
    | putNodePoolDesired np expected =>
      obtain ⟨-, e, he, key, cur, u, hfound, hu, happly⟩ := h.backs _ _ rfl
      obtain ⟨f, np, rfl, rfl, rfl⟩ := Edit.nodePool_of_apply happly
      obtain ⟨hcluster, hstrategy, hreplicas⟩ := hu.nodePool_same np
      exact (recordOk_of_found (hes e he) hfound).2.of_same hcluster hstrategy hreplicas
    | putMachineDesired => exact hn _ rfl
    | putHostDesired => exact ⟨hn _ rfl, fun h => absurd h hf⟩
    | putClusterBootstrap | putRolloutJob | putMachineRollout | putClusterRollout =>
      exact absurd h.books Bool.false_ne_true
    | _ => trivial
  | _ => trivial

end Seen

theorem reconcilePool_orderly {cluster : String} (hs : Spared D cluster) (r : ProvisionReconciler)
    (hr : r.client.cluster = cluster) (pool : String) : Orderly D (r.reconcilePool cluster pool) := by
  by_cases hf : D.fresh
  · -- no pool has replicas, so the pass comes to nothing
    refine follows_call (allowed trivial fun _ => id) fun rep _ => ?_
    rcases rep with err | ⟨_ | cl, rev⟩
    · trivial
    · trivial
    dsimp only
    split
    · trivial
    refine follows_call (allowed trivial fun _ => id) fun rep hrep => ?_
    rcases rep with err | ⟨_ | np, rev⟩
    · trivial
    · trivial
    · have hreplicas : np.replicas = 0 := (hrep.2.bare hf).2
      dsimp only
      rw [if_pos hreplicas]
      trivial
  · refine (r.reconcilePool_edits hr pool).within Op.reply_nonempty fun es op hes h => ?_
    have hreached : ∀ c, op.touches c → Spared D c := fun c hc => hs.of_reached hes (h.reached c hc)
    exact ⟨writes_of_provides hes h (fun c hc => (hreached c hc).named) hf,
      fun _ hD hc => (hreached _ hc).other hD rfl⟩

end ProvisionReconciler

namespace ProvisionExecutor

variable {D : Discipline} (e : ProvisionExecutor)

theorem runPool_orderly {cl : Cluster} (hs : ProvisionReconciler.Spared D cl.name)
    (np : NodePool) : ProvisionReconciler.Orderly D (e.runPool cl np) := by
  rw [runPool]
  split
  · trivial
  refine follows_call (ProvisionReconciler.allowed trivial fun _ => id) fun rep _ => ?_
  rcases rep with err | ⟨⟩
  · trivial
  · exact (ProvisionReconciler.reconcilePool_orderly hs _ rfl np.name).bind fun _ _ => trivial

/-- An enabled cluster is a spared one. -/
theorem runCluster_orderly {cl : Cluster} (hok : D.ClusterOk cl) :
    ProvisionReconciler.Orderly D (e.runCluster cl) := by
  rw [runCluster]
  split
  next hen =>
    have hs : ProvisionReconciler.Spared D cl.name := by
      refine ⟨hok.named, fun {c} hD hc => ?_⟩
      have hdown : cl.provisioningEnabled = false := hok.down hD hc
      rw [hdown] at hen
      cases hen
    refine follows_call (ProvisionReconciler.allowed trivial fun _ => id)
      fun rep _ => ?_
    rcases rep with err | pools
    · trivial
    · exact (Program.within_forEach fun np _ => runPool_orderly e hs np).bind fun _ _ => trivial
  next => trivial

theorem runOnce_orderly : ProvisionReconciler.Orderly D e.runOnce := by
  refine follows_call (ProvisionReconciler.allowed trivial fun _ => id)
    fun rep hrep => ?_
  rcases rep with err | cls
  · trivial
  · exact Program.within_untilSome fun cl hcl => runCluster_orderly e (hrep cl hcl)

end ProvisionExecutor

/-! ## Summary -/

/-- Every task that is not a rollout pass follows the discipline. -/
theorem Settings.task_follows {D : Discipline} (cfg : Settings) {t : Task} (ht : t ≠ .rolloutPass)
    (hn : ∀ c ∈ t.founds, D.named c) : D.Orderly t (cfg.task t) := by
  cases t with
  | request req => exact Server.handle_orderly cfg.server req hn
  | seed input =>
    have hname : D.named input.cluster := hn _ List.mem_cons_self
    exact orderly_discard (SeedInputs.apply_does (.of_writeless (by simp)) input
      (fun _ _ => .of_writes (by simp) (Or.inl (.of_new hname rfl rfl)))
      (fun _ _ _ => .of_writes (by simp) ⟨hname, fun _ => ⟨rfl, rfl⟩⟩)
      fun _ _ => .of_writes (by simp) hname).within
  | inject job =>
    have hj : D.writes (.inject job) (.store (.putRolloutJob job)) :=
      ⟨hn _ List.mem_cons_self, rfl, fun _ _ h => by cases h⟩
    exact orderly_discard (orderly_last (.of_writes (by simp) hj))
  | refresh =>
    exact orderly_discard (Refresher.once_does (.of_writeless (by simp))).within
  | rolloutPass => exact absurd rfl ht
  | provisionPass => exact orderly_discard (ProvisionExecutor.runOnce_orderly _)
  | bootstrapPass =>
    exact orderly_discard (BootstrapReconciler.runOnce_orderly (by simp) _)

/-- What is left of a bootstrap pass follows the discipline if what it has read after its listing is
in order. -/
theorem Settings.bootstrapPass_listed {D : Discipline} (cfg : Settings) {e : Ev}
    {es : Trace medeaSig} {p : Prog Unit} (hp : (cfg.task .bootstrapPass).Steps (e :: es) p)
    (hes : ∀ e ∈ es, D.reads e) : D.Orderly .bootstrapPass p := by
  cases hp with
  | head rep hp =>
    refine hp.within ?_ hes
    exact orderly_discard
      (BootstrapReconciler.runOnce_listed (by simp) cfg.bootstrap (.head rep (.refl _)))

end Medea
