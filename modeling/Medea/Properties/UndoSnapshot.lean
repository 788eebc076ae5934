import Medea.ControlPlane.Places
import Medea.ControlPlane.Jobs

/-!
# The undo snapshot of a job

Before a job changes a control-plane node it streams a snapshot of etcd into a file. The name of the
file depends on the cluster and the node only, and every attempt opens it with truncation. A job that
is taken up again after a crash, and finds the node behind its target, destroys the snapshot it has
taken before its first change: in `redriven_tears` a Kubernetes upgrade is interrupted and driven
again.

`undo_kept` says that this is the only way. A file is followed along the labels of a run; the answers
of the store, the nodes and the file system are arbitrary, and so is the point of a crash. If, while
the file holds the undo snapshot of a job, no pass finds a node with this file behind its target, then
the file holds that snapshot until the job is recorded as done or failed.
-/

set_option autoImplicit false
set_option maxRecDepth 100000

namespace Medea

open Medea.Interaction RolloutReconciler

/-! ## Jobs and files in the labels -/

/-- The key of the job that a client was built for. -/
def Client.job : Client → Option String
  | ⟨_, .rollout job⟩ => some job.key
  | _ => none

/-- The file that an operation works on. -/
def Op.file : Op → Option String
  | .openFile path | .closeFile path | .talos _ (.etcdSnapshot _ path) => some path
  | _ => none

namespace Lbl

/-- The executor changes a node, or the control plane, for the job. -/
def mutates (job : String) : Lbl → Bool
  | .act .rollouts ⟨.kube client _ (.drain _ _), _⟩
  | .act .rollouts ⟨.kube client _ (.uncordon _), _⟩
  | .act .rollouts ⟨.talos client (.upgradeOS _ _), _⟩
  | .act .rollouts ⟨.upgradeK8s client _ _, _⟩ => client.job == some job
  | _ => false

/-- The job is recorded as done or failed. -/
def ends (job : String) (l : Lbl) : Bool :=
  l.jobWrite.any fun w => w.2.key == job && (w.2.state == .done || w.2.state == .failed)

end Lbl

/-- A snapshot that was streamed to its end: the position of the call in the run, its client and its
node. -/
structure Snapshot where
  position : Nat
  client : Client
  node : String
  deriving DecidableEq

/-- What a snapshot file is worth. A file that does not exist, is empty or was cut off is torn. -/
inductive SnapshotFile where
  | torn
  | streamed (s : Snapshot)
  | stored (s : Snapshot)
  deriving DecidableEq

namespace SnapshotFile

/-- The file is closed; what was streamed is lost if that fails. -/
def close : SnapshotFile → Except String Unit → SnapshotFile
  | .streamed s, .ok _ => .stored s
  | .streamed _, .error _ => .torn
  | file, _ => file

/-- The stream of a snapshot into the file has ended. -/
def stream (s : Snapshot) : Except String Unit → SnapshotFile
  | .ok _ => .streamed s
  | .error _ => .torn

/-- The file at a path after the label at a position. The executor is the only one that opens
snapshot files. -/
def see (path : String) (n : Nat) (file : SnapshotFile) : Lbl → SnapshotFile
  | .act .rollouts ⟨.openFile p, .ok _⟩ => if p = path then .torn else file
  | .act .rollouts ⟨.talos client (.etcdSnapshot node p), rep⟩ =>
    if p = path then stream ⟨n, client, node⟩ rep else file
  | .act .rollouts ⟨.closeFile p, rep⟩ => if p = path then file.close rep else file
  | _ => file

/-- The snapshot in the file, closed or not. -/
def content : SnapshotFile → Option Snapshot
  | .torn => none
  | .streamed s | .stored s => some s

/-- The complete snapshot that the file holds. -/
def held : SnapshotFile → Option Snapshot
  | .stored s => some s
  | _ => none

theorem content_of_held {file : SnapshotFile} {s : Snapshot} (h : file.held = some s) :
    file.content = some s := by
  cases file with
  | stored s' => exact h
  | _ => cases h

end SnapshotFile

open SnapshotFile

/-- The file at a path after the labels of a run. -/
def fileAt (path : String) (ls : List Lbl) : SnapshotFile :=
  ls.zipIdx.foldl (fun file l => file.see path l.2 l.1) .torn

/-- The snapshot was taken for the job, whose labels are counted from position `start` on, before the
first change that the job made, and the job has not ended since. -/
structure Undo (job : String) (start : Nat) (past : List Lbl) (s : Snapshot) : Prop where
  taken : s.client.job = some job
  first : ∀ l ∈ (past.take s.position).drop start, l.mutates job = false
  ongoing : ∀ l ∈ past.drop s.position, l.ends job = false

instance (job : String) (start : Nat) (past : List Lbl) (s : Snapshot) :
    Decidable (Undo job start past s) :=
  decidable_of_iff
    (s.client.job = some job ∧ (∀ l ∈ (past.take s.position).drop start, l.mutates job = false) ∧
      ∀ l ∈ past.drop s.position, l.ends job = false)
    ⟨fun h => ⟨h.1, h.2.1, h.2.2⟩, fun h => ⟨h.taken, h.first, h.ongoing⟩⟩

/-- The snapshot file of a node. -/
def RolloutExecutor.snapshotPath (x : RolloutExecutor) (cluster addr : String) : String :=
  joinPath x.snapshotDir (cluster ++ "-" ++ addr ++ ".snapshot")

namespace ExecPos

/-- The node that an answer shows behind its target, where a snapshot comes before its upgrade. -/
def finds : ExecPos → Lbl → Option (String × String)
  | .pool _ (.member view _ addr _ .check), .act .rollouts ⟨.talos _ (.version _), .ok version⟩ =>
    if version = view.target ∨ view.overBudget addr ∨ view.name addr = "" ∨
        RolloutReconciler.snapshots view.np = false
      then none else some (view.cluster, addr)
  | .k8s f .nodes, .act .rollouts ⟨.kube _ _ .listNodes, .ok nodes⟩ =>
    if (RolloutReconciler.controlPlaneOf nodes).1 = "" ∨
        sameVersion (RolloutReconciler.controlPlaneOf nodes).2 f.job.targetVersion
      then none else some (f.cl.name, (RolloutReconciler.controlPlaneOf nodes).1)
  | _, _ => none

end ExecPos

namespace Undoing

/-! ## Files -/

variable {path : String} {ls : List Lbl} {s : Snapshot} {file : SnapshotFile}

theorem fileAt_snoc (path : String) (ls : List Lbl) (l : Lbl) :
    fileAt path (ls ++ [l]) = (fileAt path ls).see path ls.length l := by
  simp [fileAt, List.zipIdx_append, List.foldl_append]

/-- Labels that do not work on the file leave it alone. -/
theorem see_frame {n : Nat} {l : Lbl} (h : ∀ e, l = .act .rollouts e → e.op.file ≠ some path) :
    file.see path n l = file := by
  unfold see
  split
  next p u =>
    have hp : p ≠ path := fun hp => h _ rfl (congrArg some hp)
    exact if_neg hp
  next client node p rep =>
    have hp : p ≠ path := fun hp => h _ rfl (congrArg some hp)
    exact if_neg hp
  next p rep =>
    have hp : p ≠ path := fun hp => h _ rfl (congrArg some hp)
    exact if_neg hp
  next => rfl

theorem content_close {rep : Except String Unit} (h : (file.close rep).content = some s) :
    file.content = some s := by
  cases file with
  | streamed s' =>
    cases rep with
    | ok => exact h
    | error => cases h
  | _ => exact h

theorem content_see {n : Nat} {l : Lbl} (h : (file.see path n l).content = some s) :
    file.content = some s ∨ s.position = n := by
  unfold see at h
  split at h
  · split at h
    · cases h
    · exact Or.inl h
  · split at h
    next client node p rep hp =>
      cases rep with
      | ok =>
        cases h
        exact Or.inr rfl
      | error => cases h
    · exact Or.inl h
  · split at h
    · exact Or.inl (content_close h)
    · exact Or.inl h
  · exact Or.inl h

/-- What is in the file was streamed before. -/
theorem position_lt (h : (fileAt path ls).content = some s) :
    s.position < ls.length := by
  induction ls using List.reverseRecOn with
  | nil => cases h
  | append_singleton ls l ih =>
    rw [fileAt_snoc] at h
    rw [List.length_append, List.length_singleton]
    rcases content_see h with hbefore | heq
    · exact Nat.lt_succ_of_lt (ih hbefore)
    · omega

/-! ## Undo snapshots -/

section Step

variable {job : String} {start : Nat} {past : List Lbl} {l : Lbl} {s : Snapshot}

/-- The undo snapshot of a job stays one until the job ends. -/
theorem undo_snoc (h : Undo job start past s) (hs : s.position < past.length)
    (hl : l.ends job = false) : Undo job start (past ++ [l]) s := by
  refine ⟨h.taken, ?_, ?_⟩
  · rw [List.take_append_of_le_length (Nat.le_of_lt hs)]
    exact h.first
  · intro l' hmem
    rw [List.drop_append_of_le_length (Nat.le_of_lt hs)] at hmem
    rcases List.mem_append.1 hmem with hbefore | hlast
    · exact h.ongoing l' hbefore
    · rw [List.mem_singleton.1 hlast]
      exact hl

theorem undo_before (h : Undo job start (past ++ [l]) s) (hs : s.position < past.length) :
    Undo job start past s := by
  refine ⟨h.taken, ?_, ?_⟩
  · have hfirst := h.first
    rw [List.take_append_of_le_length (Nat.le_of_lt hs)] at hfirst
    exact hfirst
  · intro l' hmem
    refine h.ongoing l' ?_
    rw [List.drop_append_of_le_length (Nat.le_of_lt hs)]
    exact List.mem_append_left _ hmem

end Step

/-- The file holds no undo snapshot of the job. -/
def Free (job : String) (start : Nat) (path : String) (past : List Lbl) : Prop :=
  ∀ s, (fileAt path past).held = some s → ¬Undo job start past s

variable {job : String} {start : Nat} {past : List Lbl} {l : Lbl}

/-- A label that leaves the file alone does not make its content an undo snapshot. -/
theorem free_snoc (h : Free job start path past)
    (hl : ∀ e, l = .act .rollouts e → e.op.file ≠ some path) :
    Free job start path (past ++ [l]) := by
  intro s hs hundo
  rw [fileAt_snoc, see_frame hl] at hs
  exact h s hs (undo_before hundo (position_lt (content_of_held hs)))

/-! ## Places -/

/-- The control-plane node of which a Kubernetes upgrade is taking the snapshot. -/
def takingOf : K8sPos → Option String
  | .mkdir cpIP _ | .openFile cpIP _ | .snapshot cpIP _ | .closeFile cpIP _ _ => some cpIP
  | _ => none

/-- While a snapshot is taken into the file, it holds no undo snapshot. -/
structure Clear (x : RolloutExecutor) (job : String) (start : Nat) (path : String)
    (past : List Lbl) (pos : ExecPos) : Prop where
  member : pos.AtMember fun view addr stage => stage.taking = true →
    x.snapshotPath view.cluster addr = path → Free job start path past
  upgrade : pos.InK8s fun f pos => ∀ cpIP, takingOf pos = some cpIP →
    x.snapshotPath f.cl.name cpIP = path → Free job start path past

/-- A file that has just been opened or streamed into holds nothing yet. -/
theorem free_of_held_none (h : ((fileAt path past).see path past.length l).held = none) :
    Free job start path (past ++ [l]) := by
  intro s hs
  rw [fileAt_snoc, h] at hs
  cases hs

theorem held_opened (path : String) (n : Nat) (file : SnapshotFile) :
    (file.see path n (.act .rollouts (ev (.openFile path) (.ok ())))).held = none := by
  show held (if path = path then .torn else file) = none
  rw [if_pos rfl]
  rfl

theorem held_streamed (path : String) (n : Nat) (file : SnapshotFile) (client : Client)
    (node : String) (rep : Except String Unit) :
    (file.see path n (.act .rollouts (ev (.talos client (.etcdSnapshot node path)) rep))).held =
      none := by
  show held (if path = path then stream ⟨n, client, node⟩ rep else file) = none
  rw [if_pos rfl]
  cases rep <;> rfl

/-- The steps of the runs considered: while the file holds an undo snapshot of the job, no pass finds
a node with this file behind its target. -/
def Assumed (cfg : Settings) (job : String) (start : Nat) (path : String) (past : List Lbl)
    (l : Lbl) : Prop :=
  ∀ s ∈ (fileAt path past).held, Undo job start past s →
    ∀ node ∈ (cfg.place past).finds l, cfg.rollouts.snapshotPath node.1 node.2 ≠ path

instance (cfg : Settings) (job : String) (start : Nat) (path : String) (past : List Lbl)
    (l : Lbl) : Decidable (Assumed cfg job start path past l) :=
  inferInstanceAs (Decidable (∀ _ ∈ _, _))

/-- Where a node with the file is found behind its target, the file holds no undo snapshot. -/
theorem free_of_found {cfg : Settings} {cluster addr : String}
    (ha : Assumed cfg job start path past l)
    (hfound : (cfg.place past).finds l = some (cluster, addr))
    (hpath : cfg.rollouts.snapshotPath cluster addr = path) : Free job start path past :=
  fun s hs hundo => ha s hs hundo (cluster, addr) hfound hpath

/-- A Kubernetes upgrade takes the snapshot of a control-plane node that is behind the target. -/
theorem takingOf_afterNodes {target cpIP : String} {nodes : List NodeInfo}
    (h : takingOf (afterNodes target nodes) = some cpIP) :
    ¬((controlPlaneOf nodes).1 = "" ∨
      sameVersion (controlPlaneOf nodes).2 target = true) ∧
      (controlPlaneOf nodes).1 = cpIP := by
  rw [afterNodes] at h
  split at h
  · cases h
  next hip =>
    split at h
    · cases h
    next hv =>
      cases h
      exact ⟨not_or.2 ⟨hip, hv⟩, rfl⟩

section Step

variable {cfg : Settings} {e : Ev} (ha : Assumed cfg job start path past (.act .rollouts e))
  (hop : cfg.rollouts.issues (cfg.place past) = some e.op)
  (h : Clear cfg.rollouts job start path past (cfg.place past))

include ha hop h

theorem member_next :
    (cfg.rollouts.next (cfg.place past) e).AtMember fun view addr stage => stage.taking = true →
      cfg.rollouts.snapshotPath view.cluster addr = path →
      Free job start path (past ++ [.act .rollouts e]) := by
  refine RolloutExecutor.next_atMember hop (fun _ _ ht => (nomatch ht)) ?_
  intro f view visited addr todo stage stage' hpos hmove ht hpath
  have hmember := h.member
  rw [hpos] at hmember
  cases hmove with
  | snapshotFirst hs hname hsnap =>
    -- the snapshot begins: the version has just been read
    refine free_snoc (free_of_found ha ?_ hpath) ?_
    · rw [hpos]
      refine if_neg ?_
      rintro (htarget | hbudget | hunlisted | hstrategy)
      · exact hs.behind htarget
      · exact hs.inBudget hbudget
      · exact hname hunlisted
      · rw [hsnap] at hstrategy
        cases hstrategy
    · rintro _ ⟨⟩
      exact nofun
  | dirMade =>
    refine free_snoc (hmember rfl hpath) ?_
    rintro _ ⟨⟩
    exact nofun
  | opened =>
    have hfile : (cfg.rollouts.reconcilerOf f).snapshotPath view.cluster addr = path := hpath
    refine free_of_held_none ?_
    rw [hfile]
    exact held_opened path _ _
  | streamed =>
    have hfile : (cfg.rollouts.reconcilerOf f).snapshotPath view.cluster addr = path := hpath
    refine free_of_held_none ?_
    rw [hfile]
    exact held_streamed path _ _ _ _ _
  | _ => cases ht

theorem upgrade_next :
    (cfg.rollouts.next (cfg.place past) e).InK8s fun f pos => ∀ cpIP, takingOf pos = some cpIP →
      cfg.rollouts.snapshotPath f.cl.name cpIP = path →
      Free job start path (past ++ [.act .rollouts e]) := by
  refine RolloutExecutor.next_inK8s hop ?_ ?_
  · intro f cpIP ht
    rw [k8sStart] at ht
    split at ht <;> cases ht
  intro f pos hpos hissues cpIP ht hpath
  have hupgrade := h.upgrade
  rw [hpos] at hupgrade
  obtain ⟨op, rep⟩ := e
  cases pos with
  | nodes =>
    cases hissues
    rcases rep with err | nodes
    · cases ht
    · -- the snapshot begins: the nodes have just been listed
      obtain ⟨hbehind, rfl⟩ := takingOf_afterNodes ht
      refine free_snoc (free_of_found ha ?_ hpath) ?_
      · rw [hpos]
        exact if_neg hbehind
      · rintro _ ⟨⟩ h
        cases h
  | mkdir ip src =>
    cases hissues
    rcases rep with err | _
    · cases ht
    · refine free_snoc (hupgrade cpIP ht hpath) ?_
      rintro _ ⟨⟩ h
      cases h
  | openFile ip src =>
    cases hissues
    rcases rep with err | _
    · cases ht
    · cases ht
      have hfile : (cfg.rollouts.reconcilerOf f).snapshotPath f.cl.name cpIP = path := hpath
      refine free_of_held_none ?_
      rw [hfile]
      exact held_opened path _ _
  | snapshot ip src =>
    cases hissues
    cases ht
    have hfile : (cfg.rollouts.reconcilerOf f).snapshotPath f.cl.name cpIP = path := hpath
    refine free_of_held_none ?_
    rw [hfile]
    exact held_streamed path _ _ _ _ _
  | closeFile ip src result =>
    cases hissues
    rcases result with err | _
    · cases ht
    · rcases rep with err | _ <;> cases ht
  | verify =>
    cases hissues
    rcases rep with err | nodes
    · cases ht
    · have hnone : takingOf (afterVerify f.job.targetVersion nodes) = none := by
        rw [afterVerify]
        split <;> rfl
      cases ht.symm.trans hnone
  | upgrade src =>
    cases hissues
    rcases rep with err | _ <;> cases ht
  | settle phase msg =>
    cases hissues
    cases phase <;> cases ht
  | start =>
    cases hissues
    cases ht
  | returned result => cases hissues

end Step

/-! ## Runs -/

variable {cfg : Settings}

/-- Along a run a snapshot is never taken over an undo snapshot. -/
theorem clear (hd : Driven cfg ls) (ha : Throughout (Assumed cfg job start path) ls) (n : Nat)
    (hn : n ≤ ls.length) :
    Clear cfg.rollouts job start path (ls.take n) (cfg.place (ls.take n)) := by
  refine cfg.places (P := fun n pos => Clear cfg.rollouts job start path (ls.take n) pos)
    (fun _ => ⟨trivial, trivial⟩) (fun _ => ⟨trivial, trivial⟩) ?_ ?_ n hn
  · intro n e hget h
    rw [take_succ_eq hget]
    exact ⟨member_next (ha n _ hget) (hd n e hget) h, upgrade_next (ha n _ hget) (hd n e hget) h⟩
  · intro n l hget hl h
    have hframe : ∀ e, l = .act .rollouts e → e.op.file ≠ some path := by
      rintro e rfl
      cases hl
    rw [take_succ_eq hget]
    refine ⟨h.member.mono ?_, ?_⟩
    · intro view addr stage hfree ht hpath
      exact free_snoc (hfree ht hpath) hframe
    · have hupgrade := h.upgrade
      revert hupgrade
      cases cfg.place (ls.take n) with
      | k8s f pos => exact fun hfree cpIP ht hpath => free_snoc (hfree cpIP ht hpath) hframe
      | _ => exact fun _ => trivial

/-- An operation on the file is made while a snapshot is taken into it. -/
theorem free_of_file {x : RolloutExecutor} {pos : ExecPos} {op : Op}
    (h : Clear x job start path past pos) (hop : x.issues pos = some op)
    (hfile : op.file = some path) : Free job start path past := by
  cases pos with
  | pool f pos =>
    cases pos with
    | member view visited addr todo stage =>
      have hmember : stage.taking = true → x.snapshotPath view.cluster addr = path →
        Free job start path past := h.member
      cases stage with
      | openFile | snapshot | closeFile =>
        cases hop
        exact hmember rfl (Option.some.inj hfile)
      | _ =>
        cases hop
        cases hfile
    | _ =>
      cases hop
      cases hfile
  | k8s f pos =>
    have hupgrade : ∀ cpIP, takingOf pos = some cpIP → x.snapshotPath f.cl.name cpIP = path →
      Free job start path past := h.upgrade
    cases pos with
    | openFile cpIP | snapshot cpIP | closeFile cpIP =>
      cases hop
      exact hupgrade cpIP rfl (Option.some.inj hfile)
    | _ =>
      cases hop
      cases hfile
  | idle => cases hop
  | _ =>
    cases hop
    cases hfile

/-- One step keeps the undo snapshot, unless it ends the job. -/
theorem undo_succ (hd : Driven cfg ls) (ha : Throughout (Assumed cfg job start path) ls) {n : Nat}
    {l : Lbl} (hget : ls[n]? = some l) (hl : l.ends job = false)
    (hheld : (fileAt path (ls.take n)).held = some s) (hundo : Undo job start (ls.take n) s) :
    (fileAt path (ls.take (n + 1))).held = some s ∧ Undo job start (ls.take (n + 1)) s := by
  have hlt : n < ls.length := (List.getElem?_eq_some_iff.1 hget).1
  have hframe : ∀ e, l = .act .rollouts e → e.op.file ≠ some path := by
    rintro e rfl hfile
    exact free_of_file (clear hd ha n (Nat.le_of_lt hlt)) (hd n e hget) hfile s hheld hundo
  rw [take_succ_eq hget]
  constructor
  · rw [fileAt_snoc, see_frame hframe]
    exact hheld
  · exact undo_snoc hundo (position_lt (content_of_held hheld)) hl

end Undoing

/-- The undo snapshot survives until the job is over. In every run in which the executor follows its
program, whatever the answers it gets and wherever it crashes, and in which no pass finds a node with
the snapshot file behind its target while the file holds an undo snapshot of the job: if the file of
a node holds a complete snapshot of the node that was taken for the job before its first change, it
holds it until the job is recorded as done or failed. -/
theorem undo_kept {cfg : Settings} {ls : List Lbl} (hd : Driven cfg ls) {job : String} {start : Nat}
    {s : Snapshot}
    (ha : Throughout
      (Undoing.Assumed cfg job start (cfg.rollouts.snapshotPath s.client.cluster s.node)) ls)
    {p q : Nat}
    (hheld : (fileAt (cfg.rollouts.snapshotPath s.client.cluster s.node) (ls.take p)).held = some s)
    (hundo : Undo job start (ls.take p) s) (hpq : p ≤ q) (hq : q ≤ ls.length)
    (hongoing : ∀ l ∈ (ls.take q).drop p, l.ends job = false) :
    (fileAt (cfg.rollouts.snapshotPath s.client.cluster s.node) (ls.take q)).held = some s ∧
      Undo job start (ls.take q) s := by
  induction q, hpq using Nat.le_induction with
  | base => exact ⟨hheld, hundo⟩
  | succ q hpq ih =>
    have hget : ls[q]? = some ls[q] := List.getElem?_eq_getElem hq
    generalize ls[q] = l at hget
    have hlen : (ls.take q).length = q := List.length_take_of_le (Nat.le_of_lt hq)
    rw [take_succ_eq hget, List.drop_append_of_le_length (hlen.symm ▸ hpq)] at hongoing
    obtain ⟨hbefore, hafter⟩ := ih (Nat.le_of_lt hq) fun l' hl' =>
      hongoing l' (List.mem_append_left _ hl')
    exact Undoing.undo_succ hd ha hget
      (hongoing l (List.mem_append_right _ List.mem_cons_self)) hbefore hafter

/-- A Kubernetes upgrade to `v1.31.0`, interrupted right after the upgrade call. -/
def Script.interrupted : List Move :=
  armed ++ request (.createRollout ⟨"c", "", .kubernetes, "v1.31.0", "me"⟩) ++
    pass 12 (.working "v1.7.0" [node]) ++ [.crash]

/-- The next pass finds the control plane at the target, and ends the job. -/
def Script.recovered : List Move :=
  interrupted ++ pass 20 (.working "v1.7.0" [{ node with kubeletVersion := "v1.31.0" }])

/-- The next pass finds the control plane behind the target. -/
def Script.redriven : List Move := interrupted ++ pass 9 (.working "v1.7.0" [node])

/-- The snapshot taken before the upgrade call is there when the job is about to be recorded as
done. -/
theorem recovered_keeps : ∃ s : Snapshot, s.client.cluster = "c" ∧ s.node = "10.0.0.1" ∧
    (fileAt (Script.settings.rollouts.snapshotPath s.client.cluster s.node)
      ((runScript Script.settings Script.recovered State.initial).1.take 44)).held = some s ∧
    Undo (ckey "c" "") 0 ((runScript Script.settings Script.recovered State.initial).1.take 44) s := by
  have hstored : (fileAt (Script.settings.rollouts.snapshotPath "c" "10.0.0.1")
      ((runScript Script.settings Script.recovered State.initial).1.take 33)).held.map
      (fun s => (s.client.cluster, s.node)) = some ("c", "10.0.0.1") := by decide +kernel
  have hundo : ∀ s ∈ (fileAt (Script.settings.rollouts.snapshotPath "c" "10.0.0.1")
      ((runScript Script.settings Script.recovered State.initial).1.take 33)).held,
      Undo (ckey "c" "") 0
        ((runScript Script.settings Script.recovered State.initial).1.take 33) s := by
    decide +kernel
  have hassumed : Throughout (Undoing.Assumed Script.settings (ckey "c" "") 0
      (Script.settings.rollouts.snapshotPath "c" "10.0.0.1"))
      (runScript Script.settings Script.recovered State.initial).1 := by decide +kernel
  have hlength : 44 ≤ (runScript Script.settings Script.recovered State.initial).1.length := by
    decide +kernel
  have hongoing : ∀ l ∈ ((runScript Script.settings Script.recovered State.initial).1.take 44).drop 33,
      l.ends (ckey "c" "") = false := by decide +kernel
  obtain ⟨s, hs, hnode⟩ := Option.map_eq_some_iff.1 hstored
  obtain ⟨hcluster, hnode⟩ := Prod.mk.inj hnode
  refine ⟨s, hcluster, hnode, ?_⟩
  have hpath : Script.settings.rollouts.snapshotPath s.client.cluster s.node =
      Script.settings.rollouts.snapshotPath "c" "10.0.0.1" := by rw [hcluster, hnode]
  refine undo_kept (s := s) (p := 33) (reaches_script Script.settings Script.recovered).driven
    ?_ ?_ (hundo s hs) (by decide) hlength hongoing
  · rw [hpath]
    exact hassumed
  · rw [hpath]
    exact hs

/-- The snapshot taken before the upgrade call is destroyed by the second attempt, while the job is
running. -/
theorem redriven_tears : ∃ (ls : List Lbl) (c : State) (p q : Nat),
    Reaches Script.settings ls c ∧ p ≤ q ∧
    (fileAt (Script.settings.rollouts.snapshotPath "c" "10.0.0.1") (ls.take p)).held.map
      (fun s => (s.client.cluster, s.node)) = some ("c", "10.0.0.1") ∧
    (∀ s ∈ (fileAt (Script.settings.rollouts.snapshotPath "c" "10.0.0.1") (ls.take p)).held,
      Undo (ckey "c" "") 0 (ls.take p) s) ∧
    (ls.drop p).any (Lbl.mutates (ckey "c" "")) = true ∧
    (∀ l ∈ ls, l.ends (ckey "c" "") = false) ∧
    fileAt (Script.settings.rollouts.snapshotPath "c" "10.0.0.1") (ls.take q) = .torn := by
  refine ⟨_, _, 33, 45, reaches_script Script.settings Script.redriven, by decide, ?_⟩
  refine ⟨?_, ?_, ?_, ?_, ?_⟩
  · decide +kernel
  · decide +kernel
  · decide +kernel
  · decide +kernel
  · decide +kernel

end Medea
