import Medea.Inventory.Backup
import Medea.Inventory.History

/-!
# Revisions of stored records

One counter numbers the writes of the store, whatever they write and however: compare-and-swap,
last-writer-wins, deletion, or the calls of an import. `revision_invariant`: after every history each
record carries a revision of its own between one and the counter, lies under the key built from its
names, and has no observed fields; a write that succeeds raises the counter by one, and a write that
fails changes nothing.
-/

set_option autoImplicit false

namespace Medea

open Medea.Interaction Medea.Versioned

/-- What holds of the revisions in a store. -/
structure Store.Revisions (s : Store) : Prop where
  /-- Every record of the eight buckets carries a revision between one and the counter. -/
  range : ∀ key r v, s.db.entry key = some (r, v) → 1 ≤ r ∧ r ≤ s.db.revision
  /-- No two records carry the same revision. -/
  unique : ∀ key key' r v v', s.db.entry key = some (r, v) → s.db.entry key' = some (r, v') →
    key = key'
  /-- A record is stored under its own key, with its own revision and without observed fields. -/
  own : ∀ key r v, s.db.entry key = some (r, v) → v.key = key ∧ v.revision = r ∧ v.Unobserved
  /-- The counter in memory is the one in the file. -/
  last : s.lastRev = s.db.revision

namespace Store.Revisions

variable {s : Store} {k : String}

theorem cluster_key {c : Cluster} (hs : s.Revisions) (hk : s.db.clusters[k]? = some c) :
    c.name = k := congrArg Prod.snd (hs.own _ _ _ (DB.entry_of_cluster hk)).1

theorem nodePool_key {np : NodePool} (hs : s.Revisions) (hk : s.db.nodePools[k]? = some np) :
    ckey np.cluster np.name = k := congrArg Prod.snd (hs.own _ _ _ (DB.entry_of_nodePool hk)).1

theorem machine_key {m : Machine} (hs : s.Revisions) (hk : s.db.machines[k]? = some m) :
    ckey m.cluster m.talosEndpoint = k :=
  congrArg Prod.snd (hs.own _ _ _ (DB.entry_of_machine hk)).1

theorem host_key {h : Host} (hs : s.Revisions) (hk : s.db.hosts[k]? = some h) :
    ckey h.cluster h.mac = k := congrArg Prod.snd (hs.own _ _ _ (DB.entry_of_host hk)).1

end Store.Revisions

namespace Revisions

variable {s : Store}

/-- The counter in memory follows the one in the file. -/
theorem exec_last (hs : s.lastRev = s.db.revision) (op : StoreOp) :
    (op.exec s).2.lastRev = (op.exec s).2.db.revision := by
  cases hw : op.writes with
  | false => cases op <;> first | exact hs | cases hw
  | true =>
    rcases StoreOp.exec_settles hw (rfl : s.db = s.db) with
      ⟨e, he, -⟩ | ⟨_, _, _, _, _, _, -, ⟨-, -, hr⟩, -⟩
    · rw [he]
      exact hs
    · rw [hr]
      rfl

theorem after_last {a : Access} (hs : s.lastRev = s.db.revision) :
    (a.after s).lastRev = (a.after s).db.revision := by
  cases a with
  | reopen => rfl
  | call op rep =>
    cases rep with
    | error e => exact hs
    | ok v => exact exec_last hs op

/-- Every record is under its own key, stamped and without observed fields. -/
def Own (s : Store) : Prop :=
  ∀ key r v, s.db.entry key = some (r, v) → v.key = key ∧ v.revision = r ∧ v.Unobserved

theorem own_empty : Own {} := by
  intro key r v h
  rw [Store.entry_empty] at h
  cases h

theorem own_after {a : Access} (hfit : a.Fits s) (hs : Own s) : Own (a.after s) := by
  intro key r v h
  have hentry : (s.registry.apply (a.move s)).entry key = some (r, v) := by
    rw [← Access.registry_after hfit]
    exact h
  rcases Registry.entry_apply hentry with hold | ⟨hput, rfl⟩
  · exact hs key r v hold
  · -- the record was put by this access
    cases a with
    | reopen => cases hput
    | call op rep =>
      cases rep with
      | error e => cases hput
      | ok _ => exact StoreOp.move_put hput

/-- Every history leaves a store whose revisions are in order. -/
theorem of_history {h : List Access} (hh : History h) : (storeAfter h).Revisions := by
  have hsound : (storeAfter h).registry.Sound := by
    have hlast := hh.run.sound h.length
    simp only [List.take_length] at hlast
    exact hlast
  exact {
    range := fun key r v he => ⟨hsound.pos he, hsound.le he⟩
    unique := fun key key' r v v' he he' => hsound.unique he he'
    own := hh.invariant own_empty own_after
    last := hh.invariant (P := fun s => s.lastRev = s.db.revision) rfl fun _ hs => after_last hs }

/-- A write succeeds and raises the counter by one, or fails and changes nothing. -/
theorem write_counts (s : Store) {op : StoreOp} (hw : op.writes = true) :
    (∃ v, (op.exec s).1 = .ok v ∧ (op.exec s).2.db.revision = s.db.revision + 1) ∨
      ∃ e, (op.exec s).1 = .error e ∧ (op.exec s).2 = s := by
  cases hrep : (op.exec s).1 with
  | error e => exact Or.inr ⟨e, rfl, StoreOp.exec_of_error hrep⟩
  | ok v =>
    have hcount := Access.revision_after (a := .call op (.ok v)) (s := s) (Or.inl hrep.symm)
    rw [Access.commits, if_pos hw] at hcount
    exact Or.inl ⟨v, rfl, hcount⟩

end Revisions

/-! ## Imports -/

/-- The accesses to the store in a trace. -/
def accesses (t : Trace medeaSig) : List Access :=
  t.filterMap fun
    | ⟨.store op, rep⟩ => some (.call op rep)
    | _ => none

/-- All that an import does is calls on the store. -/
theorem accesses_import {text : Except String ExportDoc} {t : Trace medeaSig}
    {q : Prog (Option String)} (h : (ExportDoc.importAll text).Steps t q) :
    (accesses t).length = t.length := by
  have hwithin := ExportDoc.importAll_imports text
  generalize ExportDoc.importAll text = p at h hwithin
  induction h with
  | refl p => rfl
  | @head op next rep t q _ ih =>
    have hrest := ih (hwithin.2 rep trivial)
    cases op with
    | store op =>
      rw [accesses, List.filterMap_cons, List.length_cons]
      exact congrArg Nat.succ hrest
    | _ => exact absurd hwithin.1 id

/-- The revision invariant of the store, for every history of calls, failures, imports and restarts. -/
theorem revision_invariant {h : List Access} (hh : History h) :
    (storeAfter h).Revisions ∧
    (∀ op : StoreOp, op.writes = true →
      (∃ v, (op.exec (storeAfter h)).1 = .ok v ∧
          (op.exec (storeAfter h)).2.db.revision = (storeAfter h).db.revision + 1) ∨
        ∃ e, (op.exec (storeAfter h)).1 = .error e ∧ (op.exec (storeAfter h)).2 = storeAfter h) ∧
    ∀ (text : Except String ExportDoc) (t : Trace medeaSig) (q : Prog (Option String)),
      (ExportDoc.importAll text).Steps t q → History (h ++ accesses t) →
      (accesses t).length = t.length ∧
        (storeAfter (h ++ accesses t)).Revisions ∧
        (storeAfter (h ++ accesses t)).db.revision =
          (storeAfter h).db.revision + (accesses t).countP Access.commits := by
  refine ⟨Revisions.of_history hh, fun op hw => Revisions.write_counts _ hw, ?_⟩
  intro text t q hsteps himport
  refine ⟨accesses_import hsteps, Revisions.of_history himport, ?_⟩
  have halong := (along_append.1 himport).2
  rw [storeAfter, List.foldl_append]
  exact History.revision_foldl halong

/-- A cluster is created, a second creation is refused, a job is written, the store is reopened, the
cluster deleted and another one created. -/
def Revisions.sample : List Access :=
  [.call (.putClusterDesired { name := "c" } 0) (.ok 1),
    .call (.putClusterDesired { name := "c" } 0) (.error .conflict),
    .call (.putRolloutJob { cluster := "c", pool := "p" }) (.ok ()), .reopen,
    .call (.deleteCluster "c") (.ok ()), .call (.putClusterDesired { name := "d" } 0) (.ok 4)]

theorem Revisions.sample_history : History Revisions.sample :=
  ⟨Or.inl rfl, Or.inl rfl, Or.inl rfl, trivial, Or.inl rfl, Or.inl rfl, trivial⟩

theorem sample_revisions :
    (storeAfter Revisions.sample).Revisions ∧ (storeAfter Revisions.sample).db.revision = 4 ∧
      (storeAfter Revisions.sample).db.clusters["d"]?.map (·.revision) = some 4 :=
  ⟨(revision_invariant Revisions.sample_history).1, by decide +kernel, by decide +kernel⟩

end Medea
