import Medea.ControlPlane.Places
import Medea.Rollout.Holdings

/-!
# What a job authorizes

A job names a target version and the members it was planned for. A pass that executes it reads
neither: it takes the version from the pool record, or from the cluster if the pool has none, and the
members from the pool record, both as they are when the pass begins.

`upgrade_tag_iff`: an upgrade call carries the version of its job exactly when the version the pass
has read gives the same tag. `targets_planned`: if the members a pass reads are planned, so is every
node it drains, upgrades or uncordons.
-/

set_option autoImplicit false
set_option maxRecDepth 100000

namespace Medea

open Medea.Interaction

/-! ## Image tags -/

/-- The tag of an image: what follows the last colon, unless that is the port of a registry. -/
def imageTag (image : String) : Option String :=
  match splitLastColon image.toList with
  | some (_, after) => if '/' ∈ after then none else some (String.ofList after)
  | none => none

/-- The last colon of a text with a colon in it is in what follows that one, or is that one. -/
theorem splitLastColon_snd (before after : List Char) :
    (splitLastColon (before ++ ':' :: after)).map Prod.snd =
      (splitLastColon (':' :: after)).map Prod.snd := by
  induction before with
  | nil => rfl
  | cons c before ih =>
    rw [List.cons_append, splitLastColon]
    cases hs : splitLastColon (before ++ ':' :: after) with
    | some p =>
      rw [hs] at ih
      rw [← ih]
      rfl
    | none =>
      -- there is a colon, so this case does not arise
      rw [hs, splitLastColon] at ih
      split at ih
      · cases ih
      · cases ih

theorem imageTag_eq (image : String) : imageTag image =
    ((splitLastColon image.toList).map Prod.snd).bind fun after =>
      if '/' ∈ after then none else some (String.ofList after) := by
  rw [imageTag]
  cases splitLastColon image.toList with
  | none => rfl
  | some p => rfl

theorem imageTag_append (base version : String) :
    imageTag (base ++ ":" ++ version) = imageTag (":" ++ version) := by
  have hlong : (base ++ ":" ++ version).toList = base.toList ++ ':' :: version.toList := by
    simp [String.toList_append]
  have hshort : (":" ++ version).toList = ':' :: version.toList := by
    simp [String.toList_append]
  rw [imageTag_eq, imageTag_eq, hlong, hshort, splitLastColon_snd]

/-- The tag of a derived image depends only on the version it is derived for. -/
theorem imageTag_deriveInstallerImage (cur version : String) :
    imageTag (deriveInstallerImage cur version) = imageTag (":" ++ version) := by
  rw [deriveInstallerImage]
  split
  · exact imageTag_append _ _
  · split
    · split
      · exact imageTag_append _ _
      · exact imageTag_append _ _
    · exact imageTag_append _ _

/-- A version without colons and slashes is its own tag. -/
theorem imageTag_plain {version : String} (hc : ':' ∉ version.toList) (hs : '/' ∉ version.toList) :
    imageTag (":" ++ version) = some version := by
  have hshort : (":" ++ version).toList = ':' :: version.toList := by
    simp [String.toList_append]
  have hnone : splitLastColon version.toList = none := by
    generalize version.toList = cs at hc
    induction cs with
    | nil => rfl
    | cons c cs ih =>
      rw [List.mem_cons, not_or] at hc
      rw [splitLastColon, ih hc.2]
      exact if_neg (Ne.symm hc.1)
  rw [imageTag, hshort, splitLastColon, hnone]
  simp [hs]

/-! ## Calls and their jobs -/

namespace Lbl

/-- The job of an upgrade call, and the image. -/
def installs : Lbl → Option (Rollout × String)
  | .act .rollouts ⟨.talos ⟨_, .rollout job⟩ (.upgradeOS _ image), _⟩ => some (job, image)
  | _ => none

/-- The job of a drain, upgrade or uncordon call, and the member. -/
def disturbs : Lbl → Option (Rollout × String)
  | .act .rollouts ⟨.talos ⟨_, .rollout job⟩ (.upgradeOS addr _), _⟩ => some (job, addr)
  | .act .rollouts ⟨.kube ⟨_, .rollout job⟩ member (.drain _ _), _⟩ => some (job, member)
  | .act .rollouts ⟨.kube ⟨_, .rollout job⟩ member (.uncordon _), _⟩ => some (job, member)
  | _ => none

/-- The pool record the executor reads. -/
def readsPoolRecord : Lbl → Option NodePool
  | .act .rollouts ⟨.store (.getNodePool _ _), .ok (np, _)⟩ => np
  | _ => none

/-- Only the executor makes such calls. -/
theorem disturbs_rollouts {l : Lbl} {p : Rollout × String} (h : l.disturbs = some p) :
    ∃ e, l = .act .rollouts e := by
  unfold disturbs at h
  split at h
  · exact ⟨_, rfl⟩
  · exact ⟨_, rfl⟩
  · exact ⟨_, rfl⟩
  · cases h

end Lbl

namespace RolloutExecutor

variable {x : RolloutExecutor} {pos : ExecPos} {e : Ev} {job : Rollout}

/-- An upgrade call is made during the visit of a member, for the job in hand. -/
theorem place_of_installs {image : String} (hop : x.issues pos = some e.op)
    (h : Lbl.installs (.act .rollouts e) = some (job, image)) :
    ∃ f view visited addr todo, f.job = job ∧
      pos = .pool f (.member view visited addr todo (.upgrade image)) := by
  unfold Lbl.installs at h
  split at h
  next _ _ addr _ _ heq =>
    cases heq
    cases h
    obtain ⟨f, view, visited, todo, stage, hclient, rfl, hstage⟩ := visit_of_issues hop rfl
    cases hclient
    cases stage <;> cases hstage
    exact ⟨f, view, visited, addr, todo, rfl, rfl⟩
  next => cases h

/-- The calls that disturb a node are made during the visit of a member, for the job in hand. -/
theorem place_of_disturbs {addr : String} (hop : x.issues pos = some e.op)
    (h : Lbl.disturbs (.act .rollouts e) = some (job, addr)) :
    ∃ f view visited todo stage, f.job = job ∧
      pos = .pool f (.member view visited addr todo stage) := by
  obtain ⟨client, hvisit, hjob⟩ : ∃ client, e.op.visits = some (client, addr) ∧
      client.work = .rollout job := by
    unfold Lbl.disturbs at h
    split at h <;> first | (rename_i heq; cases heq; cases h; exact ⟨_, rfl, rfl⟩) | cases h
  obtain ⟨f, view, visited, todo, stage, rfl, hpos, -⟩ := visit_of_issues hop hvisit
  cases hjob
  exact ⟨f, view, visited, todo, stage, rfl, hpos⟩

end RolloutExecutor

/-! ## The version -/

/-- In every run, an upgrade call made while a job is executed carries an image whose tag is the
target of the job, exactly when the version that the pass has read, of the pool or of the cluster,
gives that tag. -/
theorem upgrade_tag_iff {cfg : Settings} {ls : List Lbl} {c : State} (hr : Reaches cfg ls c)
    {n : Nat} {job : Rollout} {image : String}
    (hn : ls[n]?.bind Lbl.installs = some (job, image)) :
    imageTag image = some job.targetVersion ↔
      imageTag (":" ++ (passLog (ls.take n)).target) = some job.targetVersion := by
  obtain ⟨l, hl, hi⟩ := Option.bind_eq_some_iff.1 hn
  obtain ⟨e, rfl⟩ : ∃ e, l = .act .rollouts e := by
    unfold Lbl.installs at hi
    split at hi
    · exact ⟨_, rfl⟩
    · cases hi
  have hfrom := hr.driven.steps hl
  obtain ⟨f, view, visited, addr, todo, -, hpos⟩ :=
    RolloutExecutor.place_of_installs hfrom.issues hi
  have hlog := hfrom.log
  rw [hpos] at hlog
  have hvisit : (passLog (ls.take n)).OfVisit view (.upgrade image) := hlog
  obtain ⟨cur, rfl⟩ := hvisit.image image rfl
  rw [imageTag_deriveInstallerImage, hvisit.target]

theorem nodeInTime_tag : ∃ job image,
    (runScript Script.settings Script.nodeInTime State.initial).1[34]?.bind Lbl.installs =
      some (job, image) ∧ job.targetVersion = "v1.8.0" ∧ imageTag image = some "v1.8.0" := by
  refine ⟨_, _, rfl, rfl, ?_⟩
  refine (upgrade_tag_iff (reaches_script Script.settings Script.nodeInTime) (n := 34) rfl).2 ?_
  have htarget : (passLog ((runScript Script.settings Script.nodeInTime State.initial).1.take
      34)).target = "v1.8.0" := by decide +kernel
  rw [htarget]
  exact imageTag_plain (by decide) (by decide)

/-- The version of the pool is edited between the order and the pass. -/
def Script.editedVersion : List Move :=
  armed ++ order ++ request (.setNodePoolVersion "c" "controlplane" (some "v1.9.0") 0) ++
    pass 40 (.working "v1.7.0" [node])

/-- The job authorizes `v1.8.0`, and the node is upgraded to `v1.9.0`. -/
theorem editedVersion_installed : ∃ (ls : List Lbl) (c : State) (n : Nat) (job : Rollout)
    (image : String), Reaches Script.settings ls c ∧
    ls[n]?.bind Lbl.installs = some (job, image) ∧ job.kind = .talos ∧
    job.targetVersion = "v1.8.0" ∧ imageTag image = some "v1.9.0" := by
  refine ⟨_, _, 38, _, _, reaches_script Script.settings Script.editedVersion, rfl, rfl, rfl, ?_⟩
  decide +kernel

/-! ## The members -/

namespace Authorization

/-- The members of the pool were planned for the job. -/
def Planned (job : Rollout) (np : NodePool) : Prop := ∀ addr ∈ np.members, addr ∈ job.plannedTargets

instance (job : Rollout) (np : NodePool) : Decidable (Planned job np) :=
  inferInstanceAs (Decidable (∀ _ ∈ _, _))

/-- The job whose pass reads its pool next. -/
def opening : ExecPos → Option JobFrame
  | .pool f .pool => some f
  | _ => none

/-- The pool that a pass reads has only members that were planned for its job. -/
def ReadsPlanned (cfg : Settings) (past : List Lbl) (l : Lbl) : Prop :=
  ∀ f ∈ opening (cfg.place past), ∀ np ∈ l.readsPoolRecord, Planned f.job np

instance (cfg : Settings) (past : List Lbl) (l : Lbl) : Decidable (ReadsPlanned cfg past l) :=
  inferInstanceAs (Decidable (∀ _ ∈ _, _))

/-- The pass works from a pool with planned members. -/
def Bound (m : Ghost) : Prop := ∀ f np, m.pos.carried = some (f, np) → Planned f.job np

/-- What is shown of every label. -/
def Fine (l : Lbl) : Prop := ∀ job addr, l.disturbs = some (job, addr) → addr ∈ job.plannedTargets

theorem bound_invariant (cfg : Settings) :
    RunInvariant cfg .any (ReadsPlanned cfg) (fun _ l => Fine l) (fun _ m _ => Bound m) where
  initial f np h := nomatch h
  start {w m ls i t} _ h _ := by
    refine ⟨fun job addr hd => (nomatch hd), ?_⟩
    intro f np hc
    change (if i = Who.rollouts then ExecPos.clusters else m.pos).carried = some (f, np) at hc
    split at hc
    · cases hc
    · exact h f np hc
  crash _ _ := ⟨fun job addr hd => (nomatch hd), fun f np hc => (nomatch hc)⟩
  exec {w m ls e w'} h _ ht ha hop _ := by
    refine ⟨?_, ?_⟩
    · intro job addr hd
      obtain ⟨f, view, visited, todo, stage, rfl, hpos⟩ :=
        RolloutExecutor.place_of_disturbs hop hd
      have hcoh := ht.coherent
      rw [hpos] at hcoh
      -- the member in hand is one of the pool the pass works from
      have hmem : addr ∈ view.np.members := by
        rw [← PoolView.mem_members, hcoh.2.2.2]
        exact List.mem_append_right _ List.mem_cons_self
      refine h f view.np ?_ addr hmem
      rw [hpos]
      rfl
    · intro f np hc
      rcases RolloutExecutor.carried_next hop hc with hc | ⟨hpos, rev, rfl⟩
      · exact h f np hc
      · have hread : ReadsPlanned cfg ls _ := ha
        rw [ReadsPlanned, ← ht.place, hpos] at hread
        exact hread f rfl np rfl
  other {w m ls i t e w'} hi h _ _ _ _ _ _ := by
    refine ⟨?_, h⟩
    intro job addr hd
    obtain ⟨e', he⟩ := Lbl.disturbs_rollouts hd
    cases he
    exact absurd rfl hi

end Authorization

/-- In every run in which each pass finds only planned members in the pool when it reads it: every
node that is drained, upgraded or uncordoned while a job is executed was planned for the job. -/
theorem targets_planned {cfg : Settings} {ls : List Lbl} {c : State} (hr : Reaches cfg ls c)
    (hreads : Throughout (Authorization.ReadsPlanned cfg) ls) {n : Nat} {job : Rollout}
    {addr : String} (hn : ls[n]?.bind Lbl.disturbs = some (job, addr)) :
    addr ∈ job.plannedTargets := by
  obtain ⟨l, hl, hd⟩ := Option.bind_eq_some_iff.1 hn
  exact ((Authorization.bound_invariant cfg).along hr hreads).1 n l hl job addr hd

theorem nodeInTime_planned : ∃ job addr,
    (runScript Script.settings Script.nodeInTime State.initial).1[34]?.bind Lbl.disturbs =
      some (job, addr) ∧ addr ∈ job.plannedTargets :=
  ⟨_, _, rfl, targets_planned (reaches_script Script.settings Script.nodeInTime)
    (by decide +kernel) (n := 34) rfl⟩

/-- A node that is there at the next boot. -/
def Script.joined : NodeInfo := ⟨"n0", "10.0.0.0", "controlplane", "v1.30.0", true⟩

/-- The server is restarted after the order and seeded with one more node; then rollouts are enabled
again and the job is executed. -/
def Script.reseeded : List Move :=
  armed ++ order ++ [.crash] ++
    run (.client 0) (.seed ⟨"c", "k", ["10.0.0.1"], [joined, node]⟩) 20
      (.working "v1.7.0" [joined, node]) ++
    request (.setNodePoolVersion "c" "controlplane" (some "v1.8.0") 0) ++
    request (.enableRollouts "c") ++ pass 40 (.working "v1.7.0" [joined, node])

/-- The job was planned for one node, and another one is upgraded. -/
theorem reseeded_upgraded : ∃ (ls : List Lbl) (c : State) (n : Nat) (job : Rollout)
    (image : String), Reaches Script.settings ls c ∧
    ls[n]?.bind Lbl.disturbs = some (job, "10.0.0.0") ∧
    ls[n]?.bind Lbl.installs = some (job, image) ∧ job.kind = .talos ∧
    job.plannedTargets = ["10.0.0.1"] :=
  ⟨_, _, 54, _, _, reaches_script Script.settings Script.reseeded, rfl, rfl, rfl, rfl⟩

end Medea
