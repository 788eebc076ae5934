import Medea.ControlPlane.Supervision

/-!
# Runs as histories of the store

The labels of a run determine its store: `storeAt` plays the calls and the restarts of the run from
the empty store on, and `Reaches.store_eq` says that this is the store of the state reached. The calls
form a history (`Chronicle`), so what holds of revisions in histories holds in runs: a record that is
found with a revision is the record that any other look with that revision has found
(`Chronicle.entry_unique`). The same goes for other systems over the store (`OnStore.chronicle`).

`Lbl.swapped` is the desired record that a label commits. `Chronicle.entry_of_swapped` and
`Chronicle.swapped_of_entry` relate the desired records of the store to these labels.
-/

set_option autoImplicit false

namespace Medea

open Medea.Interaction Medea.Versioned

/-- What a label does to the store. -/
def Lbl.access : Lbl → Option Access
  | .act _ ⟨.store op, rep⟩ => some (.call op rep)
  | .crash => some .reopen
  | _ => none

/-- The cluster that a label deletes. -/
def Lbl.removesCluster : Lbl → Option String
  | .act _ ⟨.store (.deleteCluster cluster), .ok _⟩ => some cluster
  | _ => none

/-- The calls and restarts of a run, in order. -/
def accessesOf (ls : List Lbl) : List Access := ls.filterMap Lbl.access

/-- The store at the end of a run. -/
def storeAt (ls : List Lbl) : Store := storeAfter (accessesOf ls)

theorem accesses_take (ls : List Lbl) (n : Nat) :
    accessesOf (ls.take n) = (accessesOf ls).take (accessesOf (ls.take n)).length := by
  have hsplit : accessesOf ls = accessesOf (ls.take n) ++ accessesOf (ls.drop n) := by
    conv_lhs => rw [← List.take_append_drop n ls]
    exact List.filterMap_append
  rw [hsplit, List.take_left' rfl]

theorem storeAt_snoc (ls : List Lbl) (l : Lbl) :
    storeAt (ls ++ [l]) = match l.access with
      | some a => a.after (storeAt ls)
      | none => storeAt ls := by
  have happ : accessesOf (ls ++ [l]) = accessesOf ls ++ accessesOf [l] := List.filterMap_append
  rw [storeAt, happ]
  cases hl : l.access with
  | none =>
    have hnil : accessesOf [l] = [] := by simp [accessesOf, hl]
    rw [hnil, List.append_nil]
    rfl
  | some a =>
    have hone : accessesOf [l] = [a] := by simp [accessesOf, hl]
    rw [hone]
    exact History.storeAfter_snoc

/-- The store after the label at a position. -/
theorem storeAt_succ {ls : List Lbl} {n : Nat} {l : Lbl} (hn : ls[n]? = some l) :
    storeAt (ls.take (n + 1)) = match l.access with
      | some a => a.after (storeAt (ls.take n))
      | none => storeAt (ls.take n) := by
  have hsucc : ls.take (n + 1) = ls.take n ++ [l] := by
    rw [List.take_add_one, hn]
    rfl
  rw [hsucc]
  exact storeAt_snoc _ _

/-- The calls and restarts of the labels are a history of the store. -/
def Chronicle (ls : List Lbl) : Prop := History (accessesOf ls)

namespace Chronicle

variable {ls : List Lbl}

theorem take (h : Chronicle ls) (n : Nat) : Chronicle (ls.take n) := by
  have hsplit : accessesOf ls = accessesOf (ls.take n) ++ accessesOf (ls.drop n) := by
    conv_lhs => rw [← List.take_append_drop n ls]
    exact List.filterMap_append
  rw [Chronicle, hsplit] at h
  exact (along_append.1 h).1

theorem snoc {l : Lbl} (h : Chronicle ls) (hl : ∀ a, l.access = some a → a.Fits (storeAt ls)) :
    Chronicle (ls ++ [l]) := by
  have happ : accessesOf (ls ++ [l]) = accessesOf ls ++ accessesOf [l] := List.filterMap_append
  rw [Chronicle, happ]
  cases hacc : l.access with
  | none =>
    have hnil : accessesOf [l] = [] := by simp [accessesOf, hacc]
    rw [hnil, List.append_nil]
    exact h
  | some a =>
    have hone : accessesOf [l] = [a] := by simp [accessesOf, hacc]
    rw [hone]
    exact along_append.2 ⟨h, hl a hacc, trivial⟩

/-- A call at a position is answered by the store at that position. -/
theorem fits (h : Chronicle ls) {n : Nat} {i : Who} {op : StoreOp} {rep : (Op.store op).Reply}
    (hn : ls[n]? = some (.act i ⟨.store op, rep⟩)) :
    (Access.call op rep).Fits (storeAt (ls.take n)) := by
  have hsucc : ls.take (n + 1) = ls.take n ++ [.act i ⟨.store op, rep⟩] := by
    rw [List.take_add_one, hn]
    rfl
  have happ : accessesOf (ls.take (n + 1)) = accessesOf (ls.take n) ++ [.call op rep] := by
    rw [hsucc]
    exact List.filterMap_append
  have hh : History (accessesOf (ls.take (n + 1))) := h.take (n + 1)
  rw [happ] at hh
  exact (along_append.1 hh).2.1

/-- A revision stands for one record, at every point. -/
theorem entry_unique (h : Chronicle ls) {m n rev : Nat} {k k' : EventKind × String} {v v' : Record}
    (he : (storeAt (ls.take m)).db.entry k = some (rev, v))
    (he' : (storeAt (ls.take n)).db.entry k' = some (rev, v')) : k = k' ∧ v = v' := by
  rw [storeAt, accesses_take] at he he'
  exact h.run.entry_unique he he'

/-- Revisions of stored records are positive. -/
theorem entry_pos (h : Chronicle ls) {n rev : Nat} {k : EventKind × String} {v : Record}
    (he : (storeAt (ls.take n)).db.entry k = some (rev, v)) : 0 < rev := by
  rw [storeAt, accesses_take] at he
  exact (h.run.sound _).pos he

end Chronicle

/-- The world answers a call as a history has it. -/
theorem World.handles_call {w w' : World} {op : StoreOp} {rep : (Op.store op).Reply}
    (h : w.handles ⟨.store op, rep⟩ w') :
    (Access.call op rep).Fits w.store ∧ w'.store = (Access.call op rep).after w.store := by
  rcases h with ⟨rfl, rfl⟩ | ⟨hw, ⟨msg, rfl⟩, rfl⟩
  · refine ⟨Or.inl rfl, ?_⟩
    cases hrep : (op.exec w.store).1 with
    | ok v => rfl
    | error e => exact StoreOp.exec_of_error hrep
  · exact ⟨Or.inr ⟨hw, msg, rfl⟩, rfl⟩

/-! ## Systems over the store -/

/-- The processes of the system work on the store of the control plane. -/
structure OnStore {ι τ : Type} (A : System medeaSig World ι τ) : Prop where
  handle : A.handle = World.handles
  restart : ∀ w, A.restart w = ⟨w.store.open⟩

/-- The labels of a system, read as labels of the control plane: what is done to the store stays. -/
structure Reading {ι τ : Type} (read : Label medeaSig ι τ → Lbl) : Prop where
  start : ∀ i t, (read (.start i t)).access = none
  act : ∀ i e, ∃ j, read (.act i e) = .act j e
  crash : read .crash = .crash

section Systems

variable {ι τ : Type} [DecidableEq ι] {A : System medeaSig World ι τ} {read : Label medeaSig ι τ → Lbl}

/-- One step of a run, seen by the store. -/
theorem OnStore.step_access (hA : OnStore A) (hread : Reading read) {c c' : Config medeaSig World ι}
    {l : Label medeaSig ι τ} (hs : A.Step c l c') :
    match (read l).access with
      | some a => a.Fits c.world.store ∧ c'.world.store = a.after c.world.store
      | none => c'.world.store = c.world.store := by
  cases hs with
  | start _ _ =>
    rw [hread.start]
  | crash =>
    rw [hread.crash]
    exact ⟨trivial, congrArg World.store (hA.restart _)⟩
  | @act i op next r w _ hw =>
    obtain ⟨j, hj⟩ := hread.act i ⟨op, r⟩
    rw [hj]
    rw [hA.handle] at hw
    cases op with
    | store op => exact World.handles_call hw
    | _ => exact congrArg World.store hw

/-- The calls of a run are a history, after those that have made the store it starts with, and the
store reached is the store after it. -/
theorem OnStore.chronicle (hA : OnStore A) (hread : Reading read) {pre : List Lbl}
    (hpre : Chronicle pre) {ls : List (Label medeaSig ι τ)} {c : Config medeaSig World ι}
    (hr : A.Runs (Config.idle medeaSig ι ⟨storeAt pre⟩) ls c) :
    Chronicle (pre ++ ls.map read) ∧ c.world.store = storeAt (pre ++ ls.map read) := by
  induction ls using List.reverseRecOn generalizing c with
  | nil =>
    cases hr
    rw [List.map_nil, List.append_nil]
    exact ⟨hpre, rfl⟩
  | append_singleton ls l ih =>
    obtain ⟨d, hd, _, hs, rfl⟩ := System.runs_append.1 hr
    obtain ⟨hh, hstore⟩ := ih hd
    have hacc := hA.step_access hread hs
    rw [hstore] at hacc
    rw [List.map_append, List.map_singleton, ← List.append_assoc, storeAt_snoc]
    cases hl : (read l).access with
    | none =>
      rw [hl] at hacc
      refine ⟨hh.snoc fun a ha => ?_, hacc⟩
      rw [hl] at ha
      cases ha
    | some a =>
      rw [hl] at hacc
      refine ⟨hh.snoc fun b hb => ?_, hacc.2⟩
      rw [hl] at hb
      cases hb
      exact hacc.1

end Systems

theorem controlPlane_onStore (cfg : Settings) : OnStore (controlPlane cfg) := ⟨rfl, fun _ => rfl⟩

theorem reading_id : Reading (id : Lbl → Lbl) := ⟨fun _ _ => rfl, fun i _ => ⟨i, rfl⟩, rfl⟩

/-- The task of a process is the one its work belongs to. -/
theorem tasksAfter_eq_work (ls : List Lbl) (i : Who) :
    tasksAfter ls i = (work ls i).map Prod.fst := by
  induction ls using List.reverseRecOn generalizing i with
  | nil => rfl
  | append_singleton ls l ih =>
    have htasks : tasksAfter (ls ++ [l]) = tasksNext (tasksAfter ls) l := by
      rw [tasksAfter, List.foldl_append]
      rfl
    rw [htasks, work_snoc]
    cases l with
    | crash => rfl
    | start j t =>
      by_cases hj : i = j
      · subst hj
        simp [tasksNext, workNext]
      · simp [tasksNext, workNext, Function.update_of_ne hj, ih]
    | act j e =>
      by_cases hj : i = j
      · subst hj
        simp [tasksNext, workNext, ih, Function.comp_def]
      · simp [tasksNext, workNext, Function.update_of_ne hj, ih]

/-- Whatever was called, every record is stored under its own key. -/
theorem storeAt_wellKeyed (ls : List Lbl) : (storeAt ls).WellKeyed := by
  induction ls using List.reverseRecOn with
  | nil => exact Store.wellKeyed_empty
  | append_singleton ls l ih =>
    rw [storeAt_snoc]
    rcases l.access with _ | ⟨op, _ | v⟩ | _
    · exact ih
    · exact ih
    · exact ih.exec op
    · exact ih.of_db rfl

/-! ## Runs on a stocked store -/

/-- A call of another tool to the store. -/
def Lbl.foreign : Lbl → Bool
  | .act (.client _) ⟨.store _, _⟩ => true
  | _ => false

/-- The runs of a server on a store that other tools have written before, whatever is in their records.
The labels begin with the calls of those tools. -/
inductive Stocked (cfg : Settings) : List Lbl → State → Prop where
  | run {pre ls : List Lbl} {c : State} (foreign : ∀ l ∈ pre, l.foreign = true)
      (calls : Chronicle pre)
      (runs : (controlPlane cfg).Runs (Config.idle medeaSig Who ⟨storeAt pre⟩) ls c) :
      Stocked cfg (pre ++ ls) c

section Runs

variable {cfg : Settings} {ls : List Lbl} {c : State} {pre : List Lbl} {n : Nat}

theorem Lbl.act_of_foreign {l : Lbl} (h : l.foreign = true) :
    ∃ k op rep, l = .act (.client k) ⟨.store op, rep⟩ := by
  unfold Lbl.foreign at h
  split at h
  · exact ⟨_, _, _, rfl⟩
  · cases h

/-- What the calls of other tools leave as it is, they leave as it is together. -/
theorem foldl_foreign {α : Type} {f : α → Lbl → α} {a : α}
    (hf : ∀ k op rep, f a (.act (.client k) ⟨.store op, rep⟩) = a) (h : ∀ l ∈ pre, l.foreign = true) :
    pre.foldl f a = a := by
  induction pre with
  | nil => rfl
  | cons l pre ih =>
    obtain ⟨k, op, rep, rfl⟩ := Lbl.act_of_foreign (h l List.mem_cons_self)
    rw [List.foldl_cons, hf]
    exact ih fun l' hl' => h l' (List.mem_cons_of_mem _ hl')

theorem tasksAfter_foreign (h : ∀ l ∈ pre, l.foreign = true) :
    tasksAfter pre = fun _ => none := foldl_foreign (fun _ _ _ => rfl) h

theorem Reaches.stocked (hr : Reaches cfg ls c) : Stocked cfg ls c := by
  have hnone : Chronicle [] := trivial
  exact .run (List.forall_mem_nil _) hnone hr

theorem getElem?_length_add : (pre ++ ls)[pre.length + n]? = ls[n]? := by
  rw [List.getElem?_append_right (Nat.le_add_right _ _), Nat.add_sub_cancel_left]

theorem throughout_append {P : List Lbl → Lbl → Prop} :
    Throughout P (pre ++ ls) ↔
      Throughout P pre ∧ ∀ n l, ls[n]? = some l → P (pre ++ ls.take n) l := by
  constructor
  · refine fun h => ⟨fun n l hn => ?_, fun n l hn => ?_⟩
    · have hlt := (List.getElem?_eq_some_iff.1 hn).1
      have hat := h n l (by rw [List.getElem?_append_left hlt, hn])
      rwa [List.take_append_of_le_length (Nat.le_of_lt hlt)] at hat
    · have hat := h (pre.length + n) l (getElem?_length_add.trans hn)
      rwa [List.take_length_add_append] at hat
  · rintro ⟨hpre, hls⟩ n l hn
    rcases Nat.lt_or_ge n pre.length with hlt | hge
    · rw [List.getElem?_append_left hlt] at hn
      rw [List.take_append_of_le_length (Nat.le_of_lt hlt)]
      exact hpre n l hn
    · obtain ⟨k, rfl⟩ := Nat.exists_eq_add_of_le hge
      rw [List.take_length_add_append]
      exact hls k l (getElem?_length_add.symm.trans hn)

namespace Stocked

/-- The calls of a run are a history, and the store reached is the store after it. -/
theorem history (h : Stocked cfg ls c) : Chronicle ls ∧ c.world.store = storeAt ls := by
  cases h with
  | run hf hc hr =>
    have h := (controlPlane_onStore cfg).chronicle reading_id hc hr
    rwa [List.map_id] at h

/-- The last step, where it is none of another tool. -/
theorem last_step {l : Lbl} (h : Stocked cfg (ls ++ [l]) c) (hl : l.foreign = false) :
    ∃ d, Stocked cfg ls d ∧ (controlPlane cfg).Step d l c := by
  generalize hall : ls ++ [l] = all at h
  cases h with
  | @run pre post _ hf hc hr =>
    rcases List.eq_nil_or_concat post with rfl | ⟨post, l', rfl⟩
    · rw [List.append_nil] at hall
      have hforeign := hf l (by rw [← hall]; simp)
      rw [hl] at hforeign
      cases hforeign
    · rw [List.concat_eq_append, ← List.append_assoc] at hall
      obtain ⟨rfl, hlast⟩ := List.append_inj' hall rfl
      cases hlast
      rw [List.concat_eq_append] at hr
      obtain ⟨d, hd, _, hs, rfl⟩ := System.runs_append.1 hr
      exact ⟨d, .run hf hc hd, hs⟩

/-- What a process with a task does, its program asks for. -/
theorem work_at (h : Stocked cfg ls c) {i : Who} {e : Ev} {t : Task} (hn : ls[n]? = some (.act i e))
    (ht : tasksAfter (ls.take n) i = some t) :
    ∃ es next, work (ls.take n) i = some (t, es) ∧ (cfg.task t).Steps es (.request e.op next) := by
  cases h with
  | @run pre post _ hf hc hr =>
    rcases Nat.lt_or_ge n pre.length with hlt | hge
    · rw [List.take_append_of_le_length (Nat.le_of_lt hlt),
        tasksAfter_foreign fun l hl => hf l (List.mem_of_mem_take hl)] at ht
      cases ht
    · obtain ⟨k, rfl⟩ := Nat.exists_eq_add_of_le hge
      obtain ⟨t', es, next, hwork, hsteps⟩ := System.work_of_run hr (getElem?_length_add.symm.trans hn)
      have hsame : work (pre ++ post.take k) = work (post.take k) := by
        rw [work, List.foldl_append, foldl_foreign (fun _ _ _ => ?_) hf]
        · rfl
        · exact Function.update_eq_self _ _
      rw [List.take_length_add_append] at ht ⊢
      rw [tasksAfter_eq_work, hsame, hwork] at ht
      cases ht
      exact ⟨es, next, hsame ▸ hwork, hsteps⟩

end Stocked

section

variable (hr : Reaches cfg ls c)
include hr

/-- The step at a position of a run. -/
theorem Reaches.step_at {l : Lbl} (hn : ls[n]? = some l) :
    ∃ d d', Reaches cfg (ls.take n) d ∧ (controlPlane cfg).Step d l d' := by
  obtain ⟨hlt, rfl⟩ := List.getElem?_eq_some_iff.1 hn
  have hsplit : ls = ls.take n ++ ls[n] :: ls.drop (n + 1) := by
    rw [← List.drop_eq_getElem_cons hlt, List.take_append_drop]
  rw [Reaches, hsplit] at hr
  obtain ⟨d, hd, d', hs, _⟩ := System.runs_append.1 hr
  exact ⟨d, d', hd, hs⟩

/-- A process is started on what it may run. -/
theorem Reaches.may {n : Nat} {i : Who} {t : Task}
    (hn : ls[n]? = some (.start i t)) : i.may t = true := by
  obtain ⟨d, d', _, hs⟩ := hr.step_at hn
  cases hs with
  | start _ hmay => exact hmay

/-- The calls of a run are a history, and the store reached is the store after it. -/
theorem Reaches.history : Chronicle ls ∧ c.world.store = storeAt ls := hr.stocked.history

/-- The store of a state is the one its run determines. -/
theorem Reaches.store_eq : c.world.store = storeAt ls := hr.history.2

/-- A call at a position of a run is answered by the store at that position. -/
theorem Reaches.fits {i : Who} {op : StoreOp} {rep : (Op.store op).Reply}
    (hn : ls[n]? = some (.act i ⟨.store op, rep⟩)) :
    (Access.call op rep).Fits (storeAt (ls.take n)) := hr.history.1.fits hn

/-- An event belongs to a task that was started before it. -/
theorem Reaches.task_of_act {i : Who} {e : Ev} (hn : ls[n]? = some (.act i e)) :
    ∃ t, tasksAfter (ls.take n) i = some t ∧ Label.start i t ∈ ls.take n := by
  obtain ⟨t, es, next, hwork, -⟩ := System.work_of_run hr hn
  refine ⟨t, ?_, start_of_work hwork⟩
  rw [tasksAfter_eq_work, hwork]
  rfl

end

namespace RunInvariant

variable {assume ok : List Lbl → Lbl → Prop} {I : World → Ghost → List Lbl → Prop}

/-- The rule on a stocked store, for invariants that hold whatever other tools have called. -/
theorem stocked (J : RunInvariant cfg .any assume ok I)
    (hI : ∀ pre, (∀ l ∈ pre, l.foreign = true) → I ⟨storeAt pre⟩ Ghost.initial pre)
    (hok : ∀ pre l, (∀ l ∈ pre, l.foreign = true) → l.foreign = true → ok pre l) (h : Stocked cfg ls c)
    (ha : Throughout assume ls) :
    Throughout ok ls ∧ ∃ m, (cfg.supervision .any).Inv c m ∧ At cfg I c.world m ls := by
  cases h with
  | @run pre post _ hf hc hr =>
    have htracked : Tracked cfg Ghost.initial pre :=
      ⟨trivial, (foldl_foreign (fun _ _ _ => rfl) hf).symm, (tasksAfter_foreign hf).symm⟩
    obtain ⟨hpost, hend⟩ := J.along_from (Discipline.storeOk_any (storeAt_wellKeyed pre))
      ⟨htracked, hI pre hf⟩ hr (throughout_append.1 ha).2
    refine ⟨throughout_append.2 ⟨fun n l hn => ?_, hpost⟩, hend⟩
    exact hok _ l (fun x hx => hf x (List.mem_of_mem_take hx)) (hf l (List.mem_of_getElem? hn))

/-- The last step, if it is one of the executor: the invariant before it, and the place it is made
from. -/
theorem last (J : RunInvariant cfg .any assume ok I)
    (hI : ∀ pre, (∀ l ∈ pre, l.foreign = true) → I ⟨storeAt pre⟩ Ghost.initial pre)
    (hok : ∀ pre l, (∀ l ∈ pre, l.foreign = true) → l.foreign = true → ok pre l) {e : Ev}
    (h : Stocked cfg (ls ++ [.act .rollouts e]) c)
    (ha : Throughout assume (ls ++ [.act .rollouts e])) :
    ∃ w m, At cfg I w m ls ∧ cfg.rollouts.issues m.pos = some e.op ∧ w.handles e c.world := by
  obtain ⟨d, hd, hs⟩ := h.last_step rfl
  obtain ⟨hbefore, hlast⟩ := throughout_append.1 ha
  obtain ⟨_, m, hinv, hat⟩ := J.stocked hI hok hd hbefore
  have hassume : assume ls (.act .rollouts e) := by simpa using hlast 0 _ rfl
  have hob := ((cfg.supervision .any).step_inv hinv (J.assumes hat.holds hat.toTracked hassume) hs).1
  have hall : (cfg.contract .any .rollouts).allows m e := hob
  rw [Settings.contract_rollouts] at hall
  exact ⟨d.world, m, hat, hall, Supervision.step_moves hs⟩

end RunInvariant

end Runs

/-! ## Desired records -/

/-- The desired record that a label has swapped in: by whom, the record, the revision expected and
the revision returned. -/
def Lbl.swapped : Lbl → Option (Who × Desired × Nat × Nat)
  | .act i ⟨.store (.putClusterDesired c expected), .ok rev⟩ => some (i, .cluster c, expected, rev)
  | .act i ⟨.store (.putNodePoolDesired np expected), .ok rev⟩ =>
    some (i, .nodePool np, expected, rev)
  | .act i ⟨.store (.putMachineDesired m expected), .ok rev⟩ => some (i, .machine m, expected, rev)
  | .act i ⟨.store (.putHostDesired h expected), .ok rev⟩ => some (i, .host h, expected, rev)
  | _ => none

/-- A swap is an answered call. -/
theorem Lbl.swap_of_swapped {l : Lbl} {i : Who} {d : Desired} {expected rev : Nat}
    (h : l.swapped = some (i, d, expected, rev)) :
    ∃ op rep, l = .act i ⟨.store op, rep⟩ ∧ op.swap = some (d, expected) ∧
      ∀ {s : Store}, (Access.call op rep).Fits s → (d.put s expected).1 = .ok rev ∧
        (Access.call op rep).after s = (d.put s expected).2 := by
  rcases l with ⟨i', t⟩ | ⟨i', op, rep⟩ | _
  · cases h
  · cases op with
    | store op =>
      cases op with
      | putClusterDesired | putNodePoolDesired | putMachineDesired | putHostDesired =>
        rcases rep with err | v
        · cases h
        · cases h
          exact ⟨_, _, rfl, rfl, fun hfit => ⟨hfit.ok, rfl⟩⟩
      | _ => cases h
    | _ => cases h
  · cases h

section Swaps

variable {ls : List Lbl}

/-- A record that is swapped in was expected there, and is stored with the next revision. -/
theorem Chronicle.entry_of_swapped (h : Chronicle ls) {n : Nat} {i : Who} {d : Desired}
    {expected rev : Nat} (hn : ls[n]?.bind Lbl.swapped = some (i, d, expected, rev)) :
    (storeAt (ls.take n)).Expects d.key expected ∧
      (storeAt (ls.take (n + 1))).db.entry d.key = some (rev, d.stamped rev) := by
  obtain ⟨l, hget, hl⟩ := Option.bind_eq_some_iff.1 hn
  obtain ⟨op, rep, rfl, -, hput⟩ := Lbl.swap_of_swapped hl
  obtain ⟨hval, hafter⟩ := hput (h.fits hget)
  obtain ⟨_, hexp, rfl⟩ := CompareAndSwap.put_value hval
  refine ⟨hexp, ?_⟩
  have hstore : storeAt (ls.take (n + 1)) = (d.put (storeAt (ls.take n)) expected).2 :=
    (storeAt_succ hget).trans hafter
  have hreg := congrArg Versioned.Registry.entry (CompareAndSwap.put_registry hval)
  rw [hstore]
  exact (congrFun hreg d.key).trans (Function.update_self ..)

/-- A desired record that is stored after a label was stored before, or the label has swapped it
in. -/
theorem Chronicle.swapped_of_entry (h : Chronicle ls) {n r : Nat} {l : Lbl} {d : Desired}
    {v : Record} (hn : ls[n]? = some l)
    (he : (storeAt (ls.take (n + 1))).db.entry d.key = some (r, v)) :
    (storeAt (ls.take n)).db.entry d.key = some (r, v) ∨
      ∃ i d' expected, l.swapped = some (i, d', expected, r) ∧ d'.key = d.key ∧
        v = d'.stamped r := by
  rw [storeAt_succ hn] at he
  cases l with
  | start | crash => exact Or.inl he
  | act i e =>
    obtain ⟨op, rep⟩ := e
    cases op with
    | store op =>
      have hfit := h.fits hn
      have hreg := congrArg Versioned.Registry.entry (Access.registry_after hfit)
      have hentry := (congrFun hreg d.key).symm.trans he
      rcases Versioned.Registry.entry_apply hentry with hbefore | ⟨hmove, rfl⟩
      · exact Or.inl hbefore
      · -- the call has put the record
        obtain ⟨d', expected, hacc, hkey, hv⟩ := CompareAndSwap.access_of_move hfit hmove
        refine Or.inr ⟨i, d', expected, ?_, hkey, hv⟩
        cases d' <;> (cases hacc; rfl)
    | _ => exact Or.inl he

end Swaps

end Medea
