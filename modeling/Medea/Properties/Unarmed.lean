import Medea.ControlPlane.Observations
import Medea.Rollout.Holdings

/-!
# Clusters that were never armed

Rollouts and provisioning have to be enabled for a cluster before anything is done to it. The flags
are fields of a record that many tasks rewrite; the discipline of the tasks says that none of them
raises a flag except the request that is there to raise it.

`unarmed_cluster_untouched`: without such a request no job is created for the cluster and the rollout
executor makes no call for it, also if a job record is injected, and the provisioning executor
neither touches its boot files and nodes nor changes its hosts, machines and pools.
-/

set_option autoImplicit false

namespace Medea

open Medea.Interaction

/-- The request that raises a guard of the cluster commits a record. -/
def enables (g : Guard) (c : String) (past : List Lbl) : Lbl → Bool
  | .act i ⟨.store (.putClusterDesired _ _), .ok _⟩ =>
    tasksAfter past i = some (.request (g.enable c))
  | _ => false

namespace Lbl

/-- The cluster names that a task brings with it. -/
def names : Lbl → List String
  | .start _ t => t.clusters
  | _ => []

/-- The cluster for which a request creates a job. -/
def createsJob (past : List Lbl) : Lbl → Option String
  | .act i ⟨.store (.putRolloutJob job), _⟩ =>
    match tasksAfter past i with
    | some (.request _) => some job.cluster
    | _ => none
  | _ => none

/-- The cluster for which the rollout executor builds clients or makes a call. -/
def rolloutCall : Lbl → Option String
  | .act .rollouts ⟨.connect cl _, _⟩ => some cl.name
  | .act .rollouts ⟨.connectK8s cl _, _⟩ => some cl.name
  | .act .rollouts ⟨.talos client _, _⟩ => some client.cluster
  | .act .rollouts ⟨.kube client _ _, _⟩ => some client.cluster
  | .act .rollouts ⟨.upgradeK8s client _ _, _⟩ => some client.cluster
  | _ => none

end Lbl

namespace Unarmed

/-- Plain names, and one guard of one cluster that is watched. -/
def watch (g : Guard) (c : String) : Discipline where
  named := PlainName
  guard := some (g, c)
  plain _ h := h
  fresh := False

/-- The runs considered: names are plain and the guard is never raised. -/
def Assumed (g : Guard) (c : String) (past : List Lbl) (l : Lbl) : Prop :=
  (∀ name ∈ l.names, PlainName name) ∧ enables g c past l = false

/-- Every cluster the executor has listed has the guard down, and processes run their own tasks. -/
structure Kept (D : Discipline) (m : Ghost) : Prop where
  pending : ∀ cl ∈ m.pos.pending, D.ClusterOk cl
  started : ∀ f, m.pos.started = some f → D.ClusterOk f.cl
  tasks : ∀ i t, m.task i = some t → i.may t = true

variable {g : Guard} {c : String} {D : Discipline} {m : Ghost} {e : RolloutExecutor} {cfg : Settings}
  {ls : List Lbl}

theorem assumes_of_assumed {l : Lbl} (ht : Tracked cfg m ls) (h : Assumed g c ls l) :
    Settings.assumes (watch g c) m l := by
  cases l with
  | start i t => exact h.1
  | act i e =>
    rintro cl expected v t htask ⟨g', c', hg, _, rfl⟩ rfl
    cases hg
    have hno : enables g c ls
        (.act i (ev (.store (.putClusterDesired cl expected)) (.ok v))) = false := h.2
    rw [ht.tasks] at htask
    simp [enables, htask] at hno
  | crash => trivial

/-! ## Steps -/

theorem Kept.start {i : Who} {t : Task} (h : Kept D m) (hmay : i.may t = true) :
    Kept D (Settings.mark m (.start i t)) := by
  have htasks : ∀ j t', (Settings.mark m (.start i t)).task j = some t' → j.may t' = true :=
    (Function.forall_update_iff m.task fun j x => ∀ t', x = some t' → j.may t' = true).2
      ⟨fun t' h' => Option.some.inj h' ▸ hmay, fun j _ => h.tasks j⟩
  by_cases hi : i = .rollouts
  · subst hi
    exact ⟨fun cl hcl => (nomatch hcl), fun f hf => (nomatch hf), htasks⟩
  · have hpos : (Settings.mark m (.start i t)).pos = m.pos := if_neg hi
    exact ⟨hpos ▸ h.pending, hpos ▸ h.started, htasks⟩

theorem Kept.initial : Kept D Ghost.initial where
  pending _ hcl := nomatch hcl
  started _ hf := nomatch hf
  tasks _ _ h := nomatch h

/-- What the executor takes up comes from the store, where the guard is down. -/
theorem Kept.exec {ev : Ev} (h : Kept D m) (hread : D.reads ev) (hop : e.issues m.pos = some ev.op) :
    Kept D { m with pos := e.next m.pos ev } where
  pending cl hcl := by
    rcases RolloutExecutor.pending_next hop hcl with hmem | ⟨cls, rfl, hmem⟩
    · exact h.pending cl hmem
    · exact hread cl hmem
  started f hf := by
    rcases RolloutExecutor.started_next hop hf with hbefore | ⟨hpos, _⟩
    · exact h.started f hbefore
    · refine h.pending f.cl ?_
      rw [hpos]
      exact List.mem_cons_self
  tasks := h.tasks

/-- A call is made for the job in hand, which runs on a cluster listed as enabled. -/
theorem place_of_call {pos : ExecPos} {ev : Ev} {c0 : String} (hcoh : pos.Coherent)
    (hop : e.issues pos = some ev.op) (h : Lbl.rolloutCall (.act .rollouts ev) = some c0) :
    ∃ f, (pos = .connect f ∨ pos.started = some f) ∧ f.Active ∧ f.cl.name = c0 := by
  obtain ⟨client, hc, rfl⟩ : ∃ client, ev.op.client = some client ∧ client.cluster = c0 := by
    unfold Lbl.rolloutCall at h
    split at h <;> first | (rename_i heq; cases heq; cases h; exact ⟨_, rfl, rfl⟩) | cases h
  obtain ⟨f, rfl, hcalls⟩ := RolloutExecutor.calls_of_issues hop hc
  generalize ev.op = op at hcalls
  cases hcalls with
  | connect => exact ⟨f, Or.inl rfl, hcoh, rfl⟩
  | _ => exact ⟨f, Or.inr rfl, hcoh.1, rfl⟩

theorem rolloutCall_other {i : Who} {e : Ev} (hi : i ≠ .rollouts) :
    Lbl.rolloutCall (.act i e) = none := by
  cases i <;> first | rfl | exact absurd rfl hi

/-- With the guard of rollouts down the executor does not call for the cluster. -/
theorem Kept.no_call {ev : Ev} (h : Kept (watch .rollouts c) m) (hcoh : m.pos.Coherent)
    (hop : e.issues m.pos = some ev.op) :
    Lbl.rolloutCall (.act .rollouts ev) ≠ some c := by
  intro hcall
  obtain ⟨f, hplace, hactive, hname⟩ := place_of_call hcoh hop hcall
  have hok : (watch .rollouts c).ClusterOk f.cl := by
    rcases hplace with hpos | hstarted
    · refine h.pending f.cl ?_
      rw [hpos]
      exact List.mem_cons_self
    · exact h.started f hstarted
  have hdown : f.cl.rolloutsEnabled = false := hok.down rfl hname
  exact absurd (hdown.symm.trans hactive.enabled) Bool.false_ne_true

/-- A job record written for a request is none of the cluster. -/
theorem createsJob_ne {i : Who} {t : Task} {e : Ev} (ht : Tracked cfg m ls) (htask : m.task i = some t)
    (hal : (watch .rollouts c).Allows t e.op) :
    Lbl.createsJob ls (.act i e) ≠ some c := by
  obtain ⟨op, rep⟩ := e
  rw [ht.tasks] at htask
  cases op with
  | store op =>
    cases op with
    | putRolloutJob job =>
      intro hc
      simp only [Lbl.createsJob, htask] at hc
      cases t with
      | request req => exact hal.writes.2.2 c req rfl rfl (Option.some.inj hc)
      | _ => cases hc
    | _ => exact fun hc => nomatch hc
  | _ => exact fun hc => nomatch hc

/-- The executor does not work for requests. -/
theorem createsJob_rollouts {e : Ev} (ht : Tracked cfg m ls) (h : Kept D m) :
    Lbl.createsJob ls (.act .rollouts e) = none := by
  have hno : ∀ req, tasksAfter ls .rollouts ≠ some (.request req) := by
    intro req htask
    rw [← ht.tasks] at htask
    exact Bool.false_ne_true (h.tasks _ _ htask)
  unfold Lbl.createsJob
  split
  next heq =>
    cases heq
    split
    next req htask => exact absurd htask (hno req)
    next => rfl
  next => rfl

/-! ## The two guards -/

/-- No job is created for the cluster, and the rollout executor makes no call for it. -/
def Idle (c : String) (past : List Lbl) (l : Lbl) : Prop :=
  l.createsJob past ≠ some c ∧ l.rolloutCall ≠ some c

theorem rollouts_invariant (cfg : Settings) (c : String) :
    RunInvariant cfg (watch .rollouts c) (Assumed .rollouts c) (Idle c)
      (fun _ m _ => Kept (watch .rollouts c) m) where
  initial := Kept.initial
  assumes _ ht ha := assumes_of_assumed ht ha
  start hmay h _ := ⟨⟨fun hc => (nomatch hc), fun hc => (nomatch hc)⟩, h.start hmay⟩
  crash _ _ := ⟨⟨fun hc => (nomatch hc), fun hc => (nomatch hc)⟩, Kept.initial⟩
  exec h hstore ht _ hop hw := by
    refine ⟨⟨?_, h.no_call ht.coherent hop⟩, h.exec (hstore.handles_reads hw) hop⟩
    rw [createsJob_rollouts ht h]
    exact fun hc => nomatch hc
  other hi h _ ht _ htask hal _ := by
    refine ⟨⟨createsJob_ne ht htask hal, ?_⟩, h⟩
    rw [rolloutCall_other hi]
    exact fun hc => nomatch hc

/-- An operation of the provisioning executor leaves the cluster alone. -/
def Spared (c : String) : Lbl → Prop
  | .act .provisioning e => ¬e.op.touches c
  | _ => True

theorem provisioning_invariant (cfg : Settings) (c : String) :
    RunInvariant cfg (watch .provisioning c) (Assumed .provisioning c) (fun _ => Spared c)
      (fun _ m _ => Kept (watch .provisioning c) m) where
  initial := Kept.initial
  assumes _ ht ha := assumes_of_assumed ht ha
  start hmay h _ := ⟨trivial, h.start hmay⟩
  crash _ _ := ⟨trivial, Kept.initial⟩
  exec h hstore _ _ hop hw := ⟨trivial, h.exec (hstore.handles_reads hw) hop⟩
  other {w m ls i t e w'} _ h _ _ _ htask hal _ := by
    refine ⟨?_, h⟩
    cases i with
    | provisioning =>
      have hmay := h.tasks _ _ htask
      cases t with
      | provisionPass => exact hal.spares rfl rfl
      | _ => cases hmay
    | _ => trivial

end Unarmed

/-- In every run whose tasks bring only plain cluster names. If no request to enable rollouts of the
cluster ever commits, no request creates a job for the cluster and the rollout executor neither
builds clients nor makes a Talos, kube or upgrade call for it. If no request to enable provisioning
of the cluster ever commits, no operation of the provisioning executor stages or unstages boot files
of the cluster, drains one of its nodes, or changes one of its hosts, machines or pools. -/
theorem unarmed_cluster_untouched {cfg : Settings} {ls : List Lbl} {s : State} (c : String)
    (h : Reaches cfg ls s) (hnames : ∀ l ∈ ls, ∀ name ∈ l.names, PlainName name) :
    (Throughout (fun past l => enables .rollouts c past l = false) ls →
      Throughout (fun past l => l.createsJob past ≠ some c ∧ l.rolloutCall ≠ some c) ls) ∧
    (Throughout (fun past l => enables .provisioning c past l = false) ls →
      ∀ e, .act .provisioning e ∈ ls → ¬e.op.touches c) := by
  refine ⟨fun hnever => ?_, fun hnever e he => ?_⟩
  · have hassumed : Throughout (Unarmed.Assumed .rollouts c) ls := fun n l hn =>
      ⟨hnames l (List.mem_of_getElem? hn), hnever n l hn⟩
    exact ((Unarmed.rollouts_invariant cfg c).along h hassumed).1
  · have hassumed : Throughout (Unarmed.Assumed .provisioning c) ls := fun n l hn =>
      ⟨hnames l (List.mem_of_getElem? hn), hnever n l hn⟩
    obtain ⟨n, hn⟩ := List.getElem?_of_mem he
    exact ((Unarmed.provisioning_invariant cfg c).along h hassumed).1 n _ hn

/-- A job record written by hand. -/
def Script.injected : Rollout :=
  { cluster := "c", pool := "controlplane", kind := .talos, targetVersion := "v1.8.0",
    state := .pending }

/-- A seeded cluster that nobody arms: an order is refused, a job is injected, and the executors
pass. -/
def Script.neverArmed : List Move :=
  run (.client 0) (.seed ⟨"c", "k", ["10.0.0.1"], [node]⟩) 20 (.working "v1.7.0" [node]) ++
    order ++ run (.client 0) (.inject injected) 5 (.working "v1.7.0" [node]) ++
    pass 20 (.working "v1.7.0" [node]) ++
    run .provisioning .provisionPass 20 (.working "v1.7.0" [node])

set_option maxRecDepth 100000 in
theorem neverArmed_untouched :
    Throughout (fun past l => l.createsJob past ≠ some "c" ∧ l.rolloutCall ≠ some "c")
      (runScript Script.settings Script.neverArmed State.initial).1 ∧
    ∀ e, .act .provisioning e ∈ (runScript Script.settings Script.neverArmed State.initial).1 →
      ¬e.op.touches "c" :=
  have h := unarmed_cluster_untouched "c" (reaches_script Script.settings Script.neverArmed)
    (by decide +kernel)
  ⟨h.1 (by decide +kernel), h.2 (by decide +kernel)⟩

end Medea
