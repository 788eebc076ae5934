import Medea.ControlPlane.Places
import Medea.Properties.LostUpdates
import Medea.Provision.Phases

/-!
# Where desired records come from

The tasks that change records swap in changes of what is stored (`LostUpdates.swap_applies`). The others
swap in records of their own: a new cluster brings the host of its control plane, seeding brings the
cluster that it has scanned, and the bootstrap executor the cluster it has brought up, made from the
bootstrap record it has read. `Task.records` says so, and `Reaches.records_of_swapped` finds the origin
of every such record in a run.
-/

set_option autoImplicit false

namespace Medea

open Medea.Interaction

/-- What the operation swaps in satisfies `P`. -/
def Op.Founds (P : Desired → Prop) : Op → Prop
  | .store op => ∀ d expected, op.swap = some (d, expected) → P d
  | _ => True

section Founds

variable {P : Desired → Prop}

theorem Op.founds_of_swap {op : StoreOp} (h : op.swap = none) : Op.Founds P (.store op) := by
  intro d expected hd
  rw [h] at hd
  cases hd

theorem Op.founds_of_writeless (op : Op) (h : op.writeless = true) : op.Founds P := by
  cases op with
  | store op =>
    refine Op.founds_of_swap ?_
    cases op with
    | putClusterDesired | putNodePoolDesired | putMachineDesired | putHostDesired => cases h
    | _ => rfl
  | _ => trivial

theorem Op.founds_put {op : StoreOp} {d : Desired} {expected : Nat} (h : op.swap = some (d, expected))
    (hd : P d) : Op.Founds P (.store op) := by
  intro d' expected' hd'
  rw [h] at hd'
  cases hd'
  exact hd

end Founds

/-! ## The bootstrap executor -/

/-- The operation swaps in nothing but the records of a cluster that was brought up, made from a
bootstrap record that was read. -/
def BootstrapReconciler.Seeds (es : Trace medeaSig) (d : Desired) : Prop :=
  ∃ name cb, ev (.store (.getClusterBootstrap name)) (.ok (some cb)) ∈ es ∧
    (d = .cluster (clusterRecord cb) ∨ d = .nodePool (poolRecord cb) ∨ d = .machine (machineRecord cb))

namespace BootstrapReconciler

variable (r : BootstrapReconciler)

theorem reconcile_seeds (cluster : String) :
    (r.reconcile cluster).Justified fun es => Op.Founds (Seeds es) := by
  refine Program.justified_seen (fun _ => Op.founds_of_swap rfl) ?_
  rintro (e | _ | cb) es hread
  · exact Program.justified_done _ es
  · exact Program.justified_done _ es
  refine Program.keeps_memory (fun h hsub => hsub h) (fun es hes => ?_) hread
  have hseeds : ∀ d, d = .cluster (clusterRecord cb) ∨ d = .nodePool (poolRecord cb) ∨
      d = .machine (machineRecord cb) → Seeds es d := fun d hd => ⟨cluster, cb, hes, hd⟩
  show Does _ (if terminal cb.phase = true then _ else _)
  split
  · trivial
  apply does_bind (timedOut_does (fun op h => Op.founds_of_writeless op (op.writeless_of_passive h)) r)
  rintro (_ | _)
  · exact r.advance_does Op.founds_of_writeless (Op.founds_put rfl (hseeds _ (Or.inl rfl)))
      (Op.founds_put rfl (hseeds _ (Or.inr (Or.inl rfl))))
      (Op.founds_put rfl (hseeds _ (Or.inr (Or.inr rfl)))) fun _ _ => Op.founds_of_swap rfl
  · exact put_does (Op.founds_of_swap rfl)

theorem runOnce_seeds : r.runOnce.Justified fun es => Op.Founds (Seeds es) := by
  refine Program.justified_request (fun _ => Op.founds_of_swap rfl) ?_
  rintro (e | cbs)
  · exact Program.justified_done _
  refine (Program.Justified.forEach fun cb _ => ?_).bind fun _ => Program.justified_done _
  split
  · exact Program.justified_done _
  · exact (r.reconcile_seeds cb.cluster).bind fun _ => Program.justified_done _

end BootstrapReconciler

/-! ## Tasks -/

/-- The records that a task which makes no changes swaps in, given what it has seen. -/
def Task.records (es : Trace medeaSig) : Task → Desired → Prop
  | .request (.createCluster req), d => d = .host (Server.controlPlaneHost req)
  | .seed input, .cluster c => ∃ scan, c = input.clusterRecord scan
  | .seed _, .nodePool _ | .seed _, .machine _ => True
  | .bootstrapPass, d => BootstrapReconciler.Seeds es d
  | _, _ => False

theorem Server.handle_founds (s : Server) {req : Request} (h : Task.edits (.request req) = false)
    (es : Trace medeaSig) :
    Does (Op.Founds (Task.records es (.request req))) (s.handle req) := by
  refine handle_does Op.founds_of_writeless s h ?_ ?_
  · rintro r rfl
    exact ⟨Op.founds_put rfl rfl, fun _ => Op.founds_of_swap rfl⟩
  · exact ⟨fun _ _ => Op.founds_of_swap rfl, fun _ => Op.founds_of_swap rfl⟩

/-- A task that makes no changes swaps in its own records only. -/
theorem Settings.task_records (cfg : Settings) {t : Task} (h : t.edits = false)
    (hroll : t ≠ .rolloutPass) :
    (cfg.task t).Justified fun es => Op.Founds (t.records es) := by
  cases t with
  | request req => exact Program.justified_of_within (cfg.server.handle_founds h)
  | seed input =>
    exact Program.justified_of_within fun es => does_discard
      (SeedInputs.apply_does Op.founds_of_writeless input
        (fun scan _ => Op.founds_put rfl ⟨scan, rfl⟩) (fun _ _ _ => Op.founds_put rfl trivial)
        fun _ _ => Op.founds_put rfl trivial)
  | inject job =>
    exact Program.justified_of_within fun es => does_call (Op.founds_of_swap rfl) fun _ => trivial
  | refresh =>
    exact Program.justified_of_within fun es => does_discard (Refresher.once_does Op.founds_of_writeless)
  | rolloutPass => exact absurd rfl hroll
  | provisionPass => cases h
  | bootstrapPass => exact cfg.bootstrap.runOnce_seeds.bind fun _ => Program.justified_done _

/-- The rollout executor swaps in no desired record. -/
theorem Settings.swap_of_rolloutPass (cfg : Settings) {es : Trace medeaSig} {op : StoreOp}
    {next : (Op.store op).Reply → Prog Unit}
    (hs : (cfg.task .rolloutPass).Steps es (.request (.store op) next)) (rep : (Op.store op).Reply) :
    op.swap = none := by
  have hadmits : Along cfg.rollouts.control.next cfg.rollouts.control.admits .clusters es :=
    along_of_split fun _ _ _ _ => trivial
  have hleft := (cfg.rolloutPass_conforms.steps hs hadmits).2
  have hof := RolloutExecutor.issues_ofRollouts
    (hleft _ (cfg.rollouts.control.drift_refl _) rep trivial).1
  cases op with
  | putClusterDesired | putNodePoolDesired | putMachineDesired | putHostDesired => cases hof
  | _ => rfl

/-- What a task that makes no changes swaps in, at the end of a trace. -/
theorem Settings.records_of_steps (cfg : Settings) {t : Task} (hed : t.edits = false)
    {es : Trace medeaSig} {op : StoreOp} {next : (Op.store op).Reply → Prog Unit}
    (hs : (cfg.task t).Steps es (.request (.store op) next)) (rep : (Op.store op).Reply) {d : Desired}
    {expected : Nat} (hop : op.swap = some (d, expected)) : t.records es d := by
  have hroll : t ≠ .rolloutPass := by
    rintro rfl
    rw [cfg.swap_of_rolloutPass hs rep] at hop
    cases hop
  exact (cfg.task_records hed hroll).of_steps hs rep d expected hop

/-! ## Runs -/

section Runs

variable {cfg : Settings} {ls : List Lbl} {c : State}

/-- The origin of a record that was swapped in by a task that makes no changes. -/
theorem Reaches.records_of_swapped (hr : Reaches cfg ls c) {n : Nat} {i : Who} {t : Task} {d : Desired}
    {expected rev : Nat} (hn : ls[n]?.bind Lbl.swapped = some (i, d, expected, rev))
    (ht : tasksAfter (ls.take n) i = some t) (hed : t.edits = false) :
    ∃ es, (∀ e ∈ es, ∃ m < n, ls[m]? = some (.act i e)) ∧ t.records es d := by
  obtain ⟨l, hl, hsw⟩ := Option.bind_eq_some_iff.1 hn
  obtain ⟨op, rep, rfl, hop, -⟩ := Lbl.swap_of_swapped hsw
  obtain ⟨es, next, hwork, hsteps⟩ := hr.stocked.work_at hl ht
  refine ⟨es, fun e he => ?_, cfg.records_of_steps hed hsteps rep hop⟩
  exact before_of_work hwork he

end Runs

/-! ## Hosts -/

/-- The cluster and the MAC of the host that a request registers. -/
def Request.registers : Request → Option (String × String)
  | .registerHost req => some (req.cluster, req.mac)
  | .createCluster req => some (req.name, req.cpMac)
  | _ => none

def Lbl.registers : Lbl → Option (String × String)
  | .start _ (.request req) => req.registers
  | _ => none

/-- The hosts that the requests of a run register. -/
def registrations (ls : List Lbl) : List (String × String) := ls.filterMap Lbl.registers

theorem mem_registrations {ls : List Lbl} {i : Who} {req : Request} {p : String × String}
    (h : Label.start i (.request req) ∈ ls) (hp : req.registers = some p) : p ∈ registrations ls :=
  List.mem_filterMap.2 ⟨_, h, hp⟩

/-- A change of a host is a registration, or keeps its names. -/
theorem Task.performs_host {t : Task} {k : String} {u : Edit} (h : t.performs (.host, k) u) :
    (∃ req role, t = .request (.registerHost req) ∧ u = .registration req role) ∨
      ∃ f, u = .host f ∧ ∀ h, (f h).cluster = h.cluster ∧ (f h).mac = h.mac := by
  cases t with
  | request req =>
    cases req with
    | registerHost req =>
      obtain ⟨-, role, rfl⟩ := h
      exact Or.inl ⟨req, role, rfl, rfl⟩
    | createRollout req =>
      rcases h with ⟨hkey, -⟩ | ⟨hkey, -⟩
      · cases hkey
      · cases hkey
    | setClusterVersions | setNodePoolVersion | pauseRollout | resumeRollout | enableRollouts
    | disableRollouts | enableProvisioning | disableProvisioning =>
      obtain ⟨hkey, -⟩ := h
      cases hkey
    | _ => cases h
  | provisionPass =>
    right
    cases h with
    | bindHost | fail | releaseHost | startProvisioning => exact ⟨_, rfl, fun _ => ⟨rfl, rfl⟩⟩
  | _ => cases h

theorem names_of_stamped {h h' : Host} {rev : Nat}
    (heq : (Desired.host h').stamped rev = (Desired.host h).stamped rev) :
    h'.cluster = h.cluster ∧ h'.mac = h.mac := by
  have hstamp : Store.hostTable.stamp h' rev = Store.hostTable.stamp h rev := Record.host.inj heq
  have hc := congrArg Host.cluster hstamp
  have hm := congrArg Host.mac hstamp
  exact ⟨hc, hm⟩

section Hosts

variable {cfg : Settings} {ls : List Lbl} {c : State}

/-- A host that is swapped in has the names of a request, or those of the host it replaces. -/
theorem Reaches.host_origin (hr : Reaches cfg ls c) {n : Nat} {i : Who} {h : Host}
    {expected rev : Nat} (hn : ls[n]?.bind Lbl.swapped = some (i, .host h, expected, rev)) :
    (h.cluster, h.mac) ∈ registrations (ls.take n) ∨
      ∃ r h0, (storeAt (ls.take n)).db.entry (.host, ckey h.cluster h.mac) = some (r, .host h0) ∧
        h0.cluster = h.cluster ∧ h0.mac = h.mac := by
  obtain ⟨l, hl, hsw⟩ := Option.bind_eq_some_iff.1 hn
  obtain ⟨op, rep, rfl, hop, -⟩ := Lbl.swap_of_swapped hsw
  obtain ⟨t, ht, hstart⟩ := hr.task_of_act hl
  cases hed : t.edits with
  | false =>
    left
    obtain ⟨es, -, hrec⟩ := hr.records_of_swapped hn ht hed
    cases t with
    | request req =>
      cases req with
      | createCluster req =>
        cases hrec
        exact mem_registrations hstart rfl
      | _ => cases hrec
    | bootstrapPass =>
      obtain ⟨name, cb, -, hd | hd | hd⟩ := hrec
      · cases hd
      · cases hd
      · cases hd
    | _ => cases hrec
  | true =>
    obtain ⟨u, d', hu, hd', hstamp⟩ := LostUpdates.change_of_swapped hr.stocked hn ht hed
    rcases Task.performs_host hu with ⟨req, role, rfl, rfl⟩ | ⟨f, rfl, hf⟩
    · left
      obtain ⟨cur, -, rfl⟩ := Edit.makes_of_apply hd'
      obtain ⟨hcluster, hmac⟩ := Server.registeredHost_names req role cur
      obtain ⟨hc, hm⟩ := names_of_stamped hstamp
      refine mem_registrations hstart ?_
      rw [← hc, ← hm, hcluster, hmac]
      rfl
    · right
      obtain ⟨h0, hcur, rfl⟩ := Edit.makes_of_apply hd'
      obtain ⟨⟨r, v⟩, hentry, rfl⟩ := Option.map_eq_some_iff.1 hcur
      obtain ⟨hc, hm⟩ := names_of_stamped hstamp
      exact ⟨r, h0, hentry, (hf h0).1.symm.trans hc, (hf h0).2.symm.trans hm⟩

/-- The names of a host that is stored were registered, and the MAC is there. -/
theorem Reaches.host_registered (hr : Reaches cfg ls c) {n r : Nat} {k : String} {h : Host}
    (he : (storeAt (ls.take n)).db.entry (.host, k) = some (r, .host h)) :
    (h.cluster, h.mac) ∈ registrations ls ∧ h.mac ≠ "" := by
  induction n generalizing r k h with
  | zero => cases he
  | succ n ih =>
    cases hl : ls[n]? with
    | none =>
      rw [List.take_add_one, hl, Option.toList_none, List.append_nil] at he
      exact ih he
    | some l =>
      obtain ⟨hkey, -⟩ := (Revisions.of_history (hr.history.1.take (n + 1))).own _ _ _ he
      rw [← hkey] at he
      rcases hr.history.1.swapped_of_entry (d := .host h) hl he with hold | ⟨i, d', expected, hsw, -, hv⟩
      · exact ih hold
      -- the label has swapped it in, under the names that it has now
      cases d' with
      | host h' =>
        cases hv
        have hn : ls[n]?.bind Lbl.swapped = some (i, .host h', expected, r) := by
          rw [hl]
          exact hsw
        obtain ⟨op, rep, rfl, -, hput⟩ := Lbl.swap_of_swapped hsw
        obtain ⟨⟨-, hmac⟩, -⟩ := CompareAndSwap.put_value (hput (hr.fits hl)).1
        refine ⟨?_, hmac⟩
        rcases hr.host_origin hn with hreg | ⟨r0, h0, hentry, hc, hm⟩
        · exact ((List.take_sublist n ls).filterMap Lbl.registers).subset hreg
        · have hbefore := (ih hentry).1
          rw [hc, hm] at hbefore
          exact hbefore
      | _ => cases hv

end Hosts

end Medea
