import Medea.ControlPlane.Observations
import Medea.Rollout.Holdings

/-!
# Disabling rollouts during a pass

A pass lists the clusters at its start. Both checks of the flag that enables rollouts, the one of the
pass and the one of the job, look at the listed record, so disabling a cluster is not seen by a pass
that has listed it before: its jobs are still started.

`no_start_while_disabled` says that this is the only way: if rollouts of a cluster are disabled only
while no pass holds it as enabled with jobs to start, none of its jobs is started until rollouts are
enabled again. Since everything that is done for a job follows its start, nothing is done for a job
that had not been started when rollouts were disabled.
-/

set_option autoImplicit false
set_option maxRecDepth 100000

namespace Medea

open Medea.Interaction

namespace Lbl

/-- The flag that a committed record of the cluster carries. -/
def rolloutsCommit (c : String) : Lbl → Option Bool
  | .act _ ⟨.store (.putClusterDesired cl _), .ok _⟩ =>
    if cl.name = c then some cl.rolloutsEnabled else none
  | _ => none

/-- The job that is started: its cluster and its key. A job starts with building its clients. -/
def startsJob : Lbl → Option (String × String)
  | .act .rollouts ⟨.connect cl (.rollout job), _⟩ => some (cl.name, job.key)
  | _ => none

/-- The key of the started job that the executor works for: it writes its state, builds its upgrader,
or makes a call through its clients. -/
def worksFor : Lbl → Option String
  | .act .rollouts ⟨.store (.putRolloutJob job), _⟩ => some job.key
  | .act .rollouts ⟨.connectK8s _ (.rollout job), _⟩ => some job.key
  | .act .rollouts ⟨.talos ⟨_, .rollout job⟩ _, _⟩ => some job.key
  | .act .rollouts ⟨.kube ⟨_, .rollout job⟩ _ _, _⟩ => some job.key
  | .act .rollouts ⟨.upgradeK8s ⟨_, .rollout job⟩ _ _, _⟩ => some job.key
  | _ => none

end Lbl

/-- The last committed record of the cluster has rollouts disabled. -/
def rolloutsOff (c : String) (ls : List Lbl) : Bool :=
  (ls.filterMap (Lbl.rolloutsCommit c)).getLast? = some false

/-- No pass holds the cluster as enabled with jobs to start. -/
def Unheld (c : String) (pos : ExecPos) : Prop :=
  ∀ cl ∈ pos.pending, cl.name = c → cl.rolloutsEnabled = false

instance (c : String) (pos : ExecPos) : Decidable (Unheld c pos) :=
  inferInstanceAs (Decidable (∀ _ ∈ _, _))

/-! ## The flag in the store -/

/-- The stored flag of a cluster. -/
def Store.rolloutsFlag (s : Store) (c : String) : Option Bool :=
  s.db.clusters[c]?.map (·.rolloutsEnabled)

/-- A stored flag was committed by the step or was there before. -/
theorem rolloutsFlag_origin {w w' : World} (i : Who) {e : Ev} {c : String} {b : Bool}
    (hw : w.handles e w') (hb : w'.store.rolloutsFlag c = some b) :
    Lbl.rolloutsCommit c (.act i e) = some b ∨
      Lbl.rolloutsCommit c (.act i e) = none ∧ w.store.rolloutsFlag c = some b := by
  obtain ⟨op, rep⟩ := e
  cases op with
  | store op =>
    rcases World.handles_db hw with ⟨hdb, herr⟩ | ⟨db, v, hc, rfl, hdb⟩
    · rw [Store.rolloutsFlag, hdb] at hb
      refine Or.inr ⟨?_, hb⟩
      cases op with
      | putClusterDesired cl expected =>
        obtain ⟨e, rfl⟩ := herr rfl
        rfl
      | _ => rfl
    rw [Store.rolloutsFlag, hdb] at hb
    cases op with
    | putClusterDesired cl expected =>
      cases hc
      change ((w.store.db.clusters.insert _ _)[c]?).map _ = some b at hb
      rw [Bucket.get_insert] at hb
      show (if cl.name = c then some cl.rolloutsEnabled else none) = some b ∨
        (if cl.name = c then some cl.rolloutsEnabled else none) = none ∧ _
      split at hb
      next heq =>
        rw [if_pos heq]
        exact Or.inl hb
      next hne =>
        rw [if_neg hne]
        exact Or.inr ⟨rfl, hb⟩
    | deleteCluster cluster =>
      cases hc
      change ((w.store.db.clusters.erase cluster)[c]?).map _ = some b at hb
      rw [Bucket.get_erase] at hb
      split at hb
      · cases hb
      · exact Or.inr ⟨rfl, hb⟩
    | _ => cases hc <;> exact Or.inr ⟨rfl, hb⟩
  | _ =>
    cases hw
    exact Or.inr ⟨rfl, hb⟩

/-- A listed cluster carries its stored flag. -/
theorem listed_rolloutsFlag {w w' : World} {cls : List Cluster} {cl : Cluster}
    (hkeyed : w.store.WellKeyed) (hw : w.handles (ev (.store .listClusters) (.ok cls)) w')
    (h : cl ∈ cls) : w.store.rolloutsFlag cl.name = some cl.rolloutsEnabled := by
  rcases hw with ⟨hrep, _⟩ | ⟨hwr, _⟩
  · cases hrep
    obtain ⟨⟨k, cl'⟩, hm, rfl⟩ := List.mem_map.1 h
    have hget := Std.ExtTreeMap.mem_toList_iff_getElem?_eq_some.1 hm
    have hname : cl'.name = k := congrArg Prod.snd (hkeyed _ _ _ (DB.entry_of_cluster hget))
    show w.store.db.clusters[cl'.name]?.map _ = _
    rw [hname, hget]
    rfl
  · cases hwr

namespace Disabling

variable {c : String} {ls : List Lbl} {l : Lbl}

theorem rolloutsOff_of_none (h : l.rolloutsCommit c = none) :
    rolloutsOff c (ls ++ [l]) = rolloutsOff c ls := by
  simp [rolloutsOff, List.filterMap_append, h]

theorem rolloutsOff_of_commit {b : Bool} (h : l.rolloutsCommit c = some b) :
    rolloutsOff c (ls ++ [l]) = !b := by
  cases b <;> simp [rolloutsOff, List.filterMap_append, h]

/-! ## Starts and what follows them -/

/-- The job was started, and none has been since. -/
def Begun (ls : List Lbl) (k : String) : Prop :=
  ∃ p c₀, p < ls.length ∧ ls[p]?.bind Lbl.startsJob = some (c₀, k) ∧
    ∀ q, p < q → q < ls.length → ls[q]?.bind Lbl.startsJob = none

theorem Begun.snoc {k : String} (h : Begun ls k) (hl : l.startsJob = none) :
    Begun (ls ++ [l]) k := by
  obtain ⟨p, c0, hp, hstart, hnone⟩ := h
  refine ⟨p, c0, ?_, ?_, fun q hpq hq => ?_⟩
  · rw [List.length_append]
    omega
  · rw [List.getElem?_append_left hp, hstart]
  · rw [List.length_append, List.length_singleton] at hq
    by_cases hlt : q < ls.length
    · rw [List.getElem?_append_left hlt, hnone q hpq hlt]
    · obtain rfl : q = ls.length := by omega
      simp [hl]

theorem begun_of_start {k c0 : String} (hl : l.startsJob = some (c0, k)) :
    Begun (ls ++ [l]) k := by
  refine ⟨ls.length, c0, by simp, by simp [hl], fun q hpq hq => ?_⟩
  rw [List.length_append, List.length_singleton] at hq
  omega

section Places

variable {e : RolloutExecutor} {pos : ExecPos} {ev : Ev}

/-- A job is started from the place before it. -/
theorem place_of_start {c0 k : String} (hop : e.issues pos = some ev.op)
    (h : Lbl.startsJob (.act .rollouts ev) = some (c0, k)) :
    ∃ f, pos = .connect f ∧ f.cl.name = c0 := by
  unfold Lbl.startsJob at h
  split at h
  next heq =>
    cases heq
    cases h
    obtain ⟨f, -, hcalls⟩ := RolloutExecutor.calls_of_issues hop rfl
    cases hcalls with
    | connect => exact ⟨f, rfl, rfl⟩
    | @visit _ _ _ _ stage _ hstage => cases stage <;> cases hstage
    | @upgrade pos _ hpos => cases pos <;> cases hpos
  next => cases h

/-- What is done for a job is done from a place where it is started. -/
theorem place_of_work {k : String} (hop : e.issues pos = some ev.op)
    (h : Lbl.worksFor (.act .rollouts ev) = some k) :
    ∃ f, pos.started = some f ∧ f.job.key = k := by
  have hjob : (∃ job, ev.op = .store (.putRolloutJob job) ∧ job.key = k) ∨ ∃ cluster job,
      ev.op.client = some ⟨cluster, .rollout job⟩ ∧ job.key = k ∧
        ∀ cl work, ev.op ≠ .connect cl work := by
    unfold Lbl.worksFor at h
    split at h
    next heq =>
      cases heq
      cases h
      exact Or.inl ⟨_, rfl, rfl⟩
    iterate 4
      next heq =>
        cases heq
        cases h
        exact Or.inr ⟨_, _, rfl, rfl, fun _ _ hc => by cases hc⟩
    next => cases h
  rcases hjob with ⟨job, hput, rfl⟩ | ⟨cluster, job, hc, rfl, hne⟩
  · rw [hput] at hop
    obtain ⟨f, hrec⟩ := RolloutExecutor.records_of_issues hop
    cases hrec with
    | concluded result | concludedK8s result => exact ⟨f, rfl, by cases result <;> rfl⟩
    | _ => exact ⟨f, rfl, rfl⟩
  · obtain ⟨f, hclient, hcalls⟩ := RolloutExecutor.calls_of_issues hop hc
    cases hclient
    refine ⟨f, ?_, rfl⟩
    generalize ev.op = op at hcalls hne
    cases hcalls with
    | connect => exact absurd rfl (hne _ _)
    | _ => rfl

theorem startsJob_other {i : Who} {ev : Ev} (hi : i ≠ .rollouts) :
    Lbl.startsJob (.act i ev) = none := by
  cases i <;> first | rfl | exact absurd rfl hi

theorem worksFor_other {i : Who} {ev : Ev} (hi : i ≠ .rollouts) :
    Lbl.worksFor (.act i ev) = none := by
  cases i <;> first | rfl | exact absurd rfl hi

/-- The executor commits no cluster records. -/
theorem rolloutsCommit_exec (hop : e.issues pos = some ev.op) :
    Lbl.rolloutsCommit c (.act .rollouts ev) = none := by
  obtain ⟨op, rep⟩ := ev
  cases op with
  | store op =>
    have hof := RolloutExecutor.issues_ofRollouts hop
    cases op <;> first | rfl | cases hof
  | _ => rfl

end Places

/-! ## The invariant -/

/-- While rollouts are off the store says so, and no pass holds the cluster as enabled. A job in hand
has been started. -/
structure Kept (c : String) (w : World) (m : Ghost) (ls : List Lbl) : Prop where
  unheld : rolloutsOff c ls = true → Unheld c m.pos
  stored : rolloutsOff c ls = true → w.store.rolloutsFlag c ≠ some true
  begun : ∀ f, m.pos.started = some f → Begun ls f.job.key

/-- The runs considered. -/
def Assumed (cfg : Settings) (c : String) (past : List Lbl) (l : Lbl) : Prop :=
  l.rolloutsCommit c = some false → Unheld c (cfg.place past)

/-- What is shown of every label. -/
def Fine (c : String) (past : List Lbl) (l : Lbl) : Prop :=
  (∀ k, l.startsJob = some (c, k) → rolloutsOff c past = false) ∧
    ∀ k, l.worksFor = some k → Begun past k

section Steps

variable {cfg : Settings} {w w' : World} {m : Ghost} {e : Ev}

theorem Kept.exec (h : Kept c w m ls) (hkeyed : w.store.WellKeyed) (hcoh : m.pos.Coherent)
    (hop : cfg.rollouts.issues m.pos = some e.op) (hw : w.handles e w') :
    Fine c ls (.act .rollouts e) ∧
      Kept c w' { m with pos := cfg.rollouts.next m.pos e } (ls ++ [.act .rollouts e]) := by
  have hcommit : Lbl.rolloutsCommit c (.act .rollouts e) = none := rolloutsCommit_exec hop
  have hoff : rolloutsOff c (ls ++ [.act .rollouts e]) = rolloutsOff c ls :=
    rolloutsOff_of_none hcommit
  refine ⟨⟨fun k hstart => ?_, fun k hwork => ?_⟩, ?_, ?_, ?_⟩
  · -- the listed record says enabled, so the pass holds the cluster
    obtain ⟨f, hpos, hname⟩ := place_of_start hop hstart
    by_contra hne
    have hun := h.unheld (by simpa using hne)
    rw [hpos] at hun hcoh
    have hen : f.cl.rolloutsEnabled = true := hcoh.enabled
    rw [hun f.cl List.mem_cons_self hname] at hen
    cases hen
  · obtain ⟨f, hf, rfl⟩ := place_of_work hop hwork
    exact h.begun f hf
  · intro ho cl hcl hname
    rw [hoff] at ho
    rcases RolloutExecutor.pending_next hop hcl with hmem | ⟨cls, rfl, hmem⟩
    · exact h.unheld ho cl hmem hname
    · have hflag := listed_rolloutsFlag hkeyed hw hmem
      rw [hname] at hflag
      have hstored := h.stored ho
      rw [hflag] at hstored
      simpa using hstored
  · intro ho hflag
    rw [hoff] at ho
    rcases rolloutsFlag_origin .rollouts hw hflag with hc | ⟨_, hbefore⟩
    · exact absurd (hcommit.symm.trans hc) nofun
    · exact h.stored ho hbefore
  · intro f hf
    rcases RolloutExecutor.started_next hop hf with hbefore | ⟨_, rfl⟩
    · refine (h.begun f hbefore).snoc ?_
      -- a started job is in hand, so none is being started
      cases hs : Lbl.startsJob (.act .rollouts e) with
      | none => rfl
      | some p =>
        obtain ⟨f', hpos, _⟩ := place_of_start hop hs
        rw [hpos] at hbefore
        cases hbefore
    · exact begun_of_start rfl

theorem Kept.other {i : Who} (h : Kept c w m ls) (hi : i ≠ .rollouts)
    (hplace : m.pos = cfg.place ls) (ha : Assumed cfg c ls (.act i e)) (hw : w.handles e w') :
    Fine c ls (.act i e) ∧ Kept c w' m (ls ++ [.act i e]) := by
  have hstart : Lbl.startsJob (.act i e) = none := startsJob_other hi
  refine ⟨⟨fun k hs => ?_, fun k hs => ?_⟩, ?_, ?_, fun f hf => (h.begun f hf).snoc hstart⟩
  · exact absurd (hstart.symm.trans hs) nofun
  · exact absurd ((worksFor_other hi).symm.trans hs) nofun
  · intro ho
    cases hc : Lbl.rolloutsCommit c (.act i e) with
    | none =>
      rw [rolloutsOff_of_none hc] at ho
      exact h.unheld ho
    | some b =>
      rw [rolloutsOff_of_commit hc] at ho
      obtain rfl : b = false := by simpa using ho
      rw [hplace]
      exact ha hc
  · intro ho hflag
    rcases rolloutsFlag_origin i hw hflag with hc | ⟨hc, hbefore⟩
    · rw [rolloutsOff_of_commit hc] at ho
      cases ho
    · rw [rolloutsOff_of_none hc] at ho
      exact h.stored ho hbefore

end Steps

/-- Starting tasks and crashing show nothing of jobs. -/
theorem fine_of_quiet (hs : l.startsJob = none) (hw : l.worksFor = none) : Fine c ls l := by
  refine ⟨fun k h => ?_, fun k h => ?_⟩
  · rw [hs] at h
    cases h
  · rw [hw] at h
    cases h

/-- A place at which a pass begins, or at which there is none. -/
theorem Kept.of_empty {w w' : World} {m m' : Ghost} (h : Kept c w m ls)
    (hl : l.rolloutsCommit c = none) (hs : w'.store.rolloutsFlag c = w.store.rolloutsFlag c)
    (hpending : m'.pos.pending = []) (hstarted : m'.pos.started = none) :
    Kept c w' m' (ls ++ [l]) := by
  refine ⟨fun _ cl hcl => ?_, fun ho => ?_, fun f hf => ?_⟩
  · rw [hpending] at hcl
    cases hcl
  · rw [rolloutsOff_of_none hl] at ho
    rw [hs]
    exact h.stored ho
  · rw [hstarted] at hf
    cases hf

theorem Kept.initial (c : String) : Kept c {} Ghost.initial [] where
  unheld ho := by cases ho
  stored ho := by cases ho
  begun f hf := by cases hf

theorem kept_invariant (cfg : Settings) (c : String) :
    RunInvariant cfg .any (Assumed cfg c) (Fine c) (Kept c) where
  initial := Kept.initial c
  start {w m ls i t} _ h _ := by
    refine ⟨fine_of_quiet rfl rfl, ?_⟩
    by_cases hi : i = .rollouts
    · subst hi
      exact h.of_empty rfl rfl rfl rfl
    · have hpos : (Settings.mark m (.start i t)).pos = m.pos := if_neg hi
      have hoff : rolloutsOff c (ls ++ [.start i t]) = rolloutsOff c ls := rolloutsOff_of_none rfl
      refine ⟨fun ho => ?_, fun ho => ?_, fun f hf => ?_⟩
      · rw [hpos]
        exact h.unheld (hoff ▸ ho)
      · exact h.stored (hoff ▸ ho)
      · rw [hpos] at hf
        exact (h.begun f hf).snoc rfl
  crash h _ := ⟨fine_of_quiet rfl rfl, h.of_empty rfl rfl rfl rfl⟩
  exec h hstore ht _ hop hw := h.exec hstore.keyed ht.coherent hop hw
  other hi h _ ht ha _ _ hw := h.other hi ht.place ha hw

end Disabling

/-- In every run in which rollouts of a cluster are disabled only while no pass of the executor holds
it as enabled with jobs to start: no job of the cluster is started while rollouts are disabled, and
whatever is written or called for a job follows the start of that job, with none started between. -/
theorem no_start_while_disabled {cfg : Settings} {ls : List Lbl} {s : State} {c : String}
    (h : Reaches cfg ls s)
    (hheld : Throughout (fun past l =>
      l.rolloutsCommit c = some false → Unheld c (cfg.place past)) ls) :
    (∀ (n : Nat) k, ls[n]?.bind Lbl.startsJob = some (c, k) →
        rolloutsOff c (ls.take n) = false) ∧
      ∀ (n : Nat) k, ls[n]?.bind Lbl.worksFor = some k →
        ∃ (p : Nat) (c₀ : String), p < n ∧ ls[p]?.bind Lbl.startsJob = some (c₀, k) ∧
          ∀ q : Nat, p < q → q < n → ls[q]?.bind Lbl.startsJob = none := by
  obtain ⟨hfine, _⟩ := (Disabling.kept_invariant cfg c).along h hheld
  refine ⟨fun n k hs => ?_, fun n k hs => ?_⟩
  · obtain ⟨l, hn, hl⟩ := Option.bind_eq_some_iff.1 hs
    exact (hfine n l hn).1 k hl
  · obtain ⟨l, hn, hl⟩ := Option.bind_eq_some_iff.1 hs
    obtain ⟨p, c₀, hp, hstart, hnone⟩ := (hfine n l hn).2 k hl
    have hlen : (ls.take n).length = n := by
      rw [List.length_take, Nat.min_eq_left (Nat.le_of_lt (List.getElem?_eq_some_iff.1 hn).1)]
    rw [hlen] at hp hnone
    refine ⟨p, c₀, hp, ?_, fun q hpq hq => ?_⟩
    · rwa [List.getElem?_take_of_lt hp] at hstart
    · have hq' := hnone q hpq hq
      rwa [List.getElem?_take_of_lt hq] at hq'

/-- Rollouts are disabled after the job has come to its end, and a second order is left alone. -/
def Script.disableAfterPass : List Move :=
  nodeInTime ++ order ++ request (.disableRollouts "c") ++ pass 40 (.working "v1.7.0" [node])

theorem disableAfterPass_starts :
    (∀ (n : Nat) k,
        (runScript Script.settings Script.disableAfterPass State.initial).1[n]?.bind
          Lbl.startsJob = some ("c", k) →
        rolloutsOff "c"
          ((runScript Script.settings Script.disableAfterPass State.initial).1.take n) = false) ∧
      ∀ (n : Nat) k,
        (runScript Script.settings Script.disableAfterPass State.initial).1[n]?.bind
          Lbl.worksFor = some k →
        ∃ (p : Nat) (c₀ : String), p < n ∧
          (runScript Script.settings Script.disableAfterPass State.initial).1[p]?.bind
            Lbl.startsJob = some (c₀, k) ∧
          ∀ q : Nat, p < q → q < n →
            (runScript Script.settings Script.disableAfterPass State.initial).1[q]?.bind
              Lbl.startsJob = none :=
  no_start_while_disabled (reaches_script Script.settings Script.disableAfterPass)
    (by decide +kernel)

/-- Rollouts are disabled when the pass has listed the clusters and not started a job. -/
def Script.disableDuringPass : List Move :=
  armed ++ order ++ pass 1 (.working "v1.7.0" [node]) ++ request (.disableRollouts "c") ++
    List.replicate 30 (.step .rollouts (.working "v1.7.0" [node]))

/-- The job is started after the request has been answered, and the node is upgraded. -/
theorem job_started_after_disabling : ∃ ls s i j n k addr, Reaches Script.settings ls s ∧
    ls[i]? = some (.start (.client 0) (.request (.disableRollouts "c"))) ∧ i < j ∧
    ls[j]?.bind (Lbl.rolloutsCommit "c") = some false ∧ j < n ∧
    ls[n]?.bind Lbl.startsJob = some ("c", k) ∧ rolloutsOff "c" (ls.take n) = true ∧
    ∃ u, n < u ∧ ls[u]?.bind Lbl.upgrades = some (ckey "c" addr) := by
  refine ⟨_, _, 23, 25, 28, "c\x00controlplane", "10.0.0.1",
    reaches_script Script.settings Script.disableDuringPass, rfl, ?_, ?_, ?_, ?_, ?_, 38, ?_, ?_⟩
  · decide
  · decide +kernel
  · decide
  · decide +kernel
  · decide +kernel
  · decide
  · decide +kernel

end Medea
