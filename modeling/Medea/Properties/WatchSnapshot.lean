import Medea.Inventory.Watch
import Medea.Properties.Revisions

/-!
# The snapshot of a watch

A watcher that connects is first sent an event for every record it has not seen. The walk over the
records is written out bucket by bucket, and one bucket is missing from it: the bootstraps of clusters.

`snapshot_complete_iff`: after every history, the snapshot of a range of revisions is complete over the
eight buckets exactly when no bootstrap record has its revision in the range.
-/

set_option autoImplicit false

namespace Medea

open Medea.Interaction Medea.Versioned

/-- The snapshot of a range, compared with the records of the eight buckets. -/
structure SnapshotComplete (h : List Access) (since upto : Nat) : Prop where
  /-- Revisions ascend, so there is one event for each. -/
  ascending : ((storeAfter h).db.snapshotEvents since upto).Pairwise fun a b =>
    a.revision < b.revision
  /-- An event for each record in the range, and nothing else. -/
  covers : ∀ ev, ev ∈ (storeAfter h).db.snapshotEvents since upto ↔
    ∃ key r v, (storeAfter h).db.entry key = some (r, v) ∧ since < r ∧ r ≤ upto ∧ ev = v.change
  /-- The event about a record is the one that its write has published. -/
  published : ∀ key r v, (storeAfter h).db.entry key = some (r, v) →
    ∃ (n : Nat) (a : Access), h[n]? = some a ∧ a.move (storeAfter (h.take n)) = .put key v ∧
      a.event (storeAfter (h.take n)) = some v.change ∧ v.change.revision = r

/-- An access that puts a record publishes the event about it. -/
theorem Access.event_of_put {s : Store} {a : Access} {key : EventKind × String} {v : Record}
    (h : a.move s = .put key v) : a.event s = some v.change := by
  cases a with
  | reopen => cases h
  | call op rep =>
    cases rep with
    | error e => cases h
    | ok _ => exact StoreOp.event_of_put h

/-- Only what commits has an event, and the event has the revision of the commit. -/
theorem Access.commits_of_event {s : Store} {a : Access} {ev : Change} (h : a.event s = some ev) :
    a.commits = true ∧ ev.revision = s.db.revision + 1 := by
  cases a with
  | reopen => cases h
  | call op rep =>
    cases rep with
    | error e => cases h
    | ok v =>
      obtain ⟨e, he, rfl⟩ := Option.map_eq_some_iff.1 h
      refine ⟨?_, rfl⟩
      by_contra hread
      rw [StoreOp.event_of_read (Bool.eq_false_of_not_eq_true hread)] at he
      cases he

namespace WatchSnapshot

variable {h : List Access}

/-- A stored record was put, and its event published, at one position of the history. -/
theorem published_of_entry (hh : History h) {key : EventKind × String} {r : Nat} {v : Record}
    (he : (storeAfter h).db.entry key = some (r, v)) :
    ∃ (n : Nat) (a : Access), h[n]? = some a ∧ a.move (storeAfter (h.take n)) = .put key v ∧
      a.event (storeAfter (h.take n)) = some v.change ∧ v.change.revision = r := by
  have hnow : (storeAfter (h.take h.length)).registry.entry key = some (r, v) := by
    rw [List.take_length]
    exact he
  obtain ⟨n, -, hput, -, -⟩ := hh.run.origin hnow
  cases hn : h[n]? with
  | none =>
    rw [hn] at hput
    cases hput
  | some a =>
    rw [hn] at hput
    exact ⟨n, a, hn, hput, Access.event_of_put hput, ((Revisions.of_history hh).own key r v he).2.1⟩

/-- Two events with one revision are those of one access. -/
theorem position_unique (hh : History h) {m n : Nat} {a b : Access} {ev ev' : Change}
    (hm : h[m]? = some a) (hn : h[n]? = some b) (hev : a.event (storeAfter (h.take m)) = some ev)
    (hev' : b.event (storeAfter (h.take n)) = some ev') (hrev : ev.revision = ev'.revision) :
    m = n := by
  -- the counter has moved at the earlier position, and has not come back to its old value
  have hlater : ∀ {i j : Nat} {a : Access} {ev : Change}, h[i]? = some a →
      a.event (storeAfter (h.take i)) = some ev → i < j →
      ev.revision ≤ (storeAfter (h.take j)).db.revision := by
    intro i j a ev hi hev hij
    obtain ⟨hcommits, hrev⟩ := Access.commits_of_event hev
    have hfit : a.Fits (storeAfter (h.take i)) := Along.at_index hh hi
    have hnext : (storeAfter (h.take (i + 1))).db.revision = ev.revision := by
      have hsucc : h.take (i + 1) = h.take i ++ [a] := by
        rw [List.take_add_one, hi]
        rfl
      rw [hsucc, History.storeAfter_snoc, Access.revision_after hfit, if_pos hcommits, hrev]
    rw [← hnext]
    exact hh.run.counter_mono hij
  have hrev1 := (Access.commits_of_event hev).2
  have hrev2 := (Access.commits_of_event hev').2
  rcases Nat.lt_trichotomy m n with hlt | heq | hlt
  · have := hlater hm hev hlt
    omega
  · exact heq
  · have := hlater hn hev' hlt
    omega

end WatchSnapshot

open WatchSnapshot

/-- The snapshot is complete exactly when there is no bootstrap record to be missed. -/
theorem snapshot_complete_iff {h : List Access} (hh : History h) (since upto : Nat) :
    SnapshotComplete h since upto ↔
      ∀ (cluster : String) (b : ClusterBootstrap), (storeAfter h).db.bootstraps[cluster]? = some b →
        ¬(since < b.revision ∧ b.revision ≤ upto) := by
  have hrevs := Revisions.of_history hh
  constructor
  · intro hcomplete cluster b hb hrange
    -- an event of its kind would have to come from a walked record, which is of another kind
    have hentry := DB.entry_of_bootstrap hb
    have hmem := (hcomplete.covers _).2 ⟨_, _, _, hentry, hrange.1, hrange.2, rfl⟩
    obtain ⟨key, v, he, hkind, -, -, hchange⟩ := DB.mem_snapshotEvents.1 hmem
    have hkey := (hrevs.own key _ v he).1
    have hsame := congrArg Change.kind hchange
    rw [Record.change, Record.change, hkey] at hsame
    exact hkind hsame.symm
  · intro hnone
    refine ⟨DB.pairwise_snapshotEvents fun he he' => hrevs.unique _ _ _ _ _ he he', ?_,
      fun key r v he => published_of_entry hh he⟩
    intro ev
    rw [DB.mem_snapshotEvents]
    constructor
    · rintro ⟨key, v, he, -, hs, hu, rfl⟩
      exact ⟨key, v.revision, v, he, hs, hu, rfl⟩
    · rintro ⟨key, r, v, he, hs, hu, rfl⟩
      obtain rfl := (hrevs.own key r v he).2.1
      refine ⟨key, v, he, ?_, hs, hu, rfl⟩
      intro hkind
      obtain ⟨kind, k⟩ := key
      obtain rfl : kind = .clusterBootstrap := hkind
      obtain ⟨b, hb, hv⟩ := Option.map_eq_some_iff.1 he
      obtain rfl := (Prod.mk.inj hv).2
      exact hnone k b hb ⟨hs, hu⟩

/-- A cluster is recorded and its control plane is being created. -/
def WatchSnapshot.sample : List Access :=
  [.call (.putClusterBootstrap { cluster := "c" }) (.ok ()),
    .call (.putClusterDesired { name := "c" } 0) (.ok 2)]

theorem WatchSnapshot.sample_history : History sample :=
  ⟨Or.inl rfl, Or.inl rfl, trivial⟩

/-- The range above the bootstrap record is complete. -/
theorem snapshot_complete_above : SnapshotComplete WatchSnapshot.sample 1 2 :=
  (snapshot_complete_iff sample_history 1 2).2 (by
    intro cluster b hb hrange
    have hstored : Bucket.Holds (fun _ b => b.revision = 1)
        (storeAfter sample).db.bootstraps := Bucket.holds_empty.insert rfl
    have hrev := hstored cluster b hb
    omega)

/-- The bootstrap record is stored, its event was published, and the snapshot has nothing for it. -/
theorem snapshot_misses_bootstrap :
    History WatchSnapshot.sample ∧
      (storeAfter WatchSnapshot.sample).db.bootstraps["c"]?.map ClusterBootstrap.revision = some 1 ∧
      (Access.call (.putClusterBootstrap { cluster := "c" }) (.ok ())).event {} =
        some ⟨.clusterBootstrap, "c", 1⟩ ∧
      (storeAfter WatchSnapshot.sample).db.snapshotEvents 0 2 = [⟨.cluster, "c", 2⟩] ∧
      ¬SnapshotComplete WatchSnapshot.sample 0 2 := by
  have hstored : (storeAfter WatchSnapshot.sample).db.bootstraps["c"]?.map ClusterBootstrap.revision =
      some 1 := by decide +kernel
  have hevents : (storeAfter WatchSnapshot.sample).db.snapshotEvents 0 2 = [⟨.cluster, "c", 2⟩] := by
    decide +kernel
  refine ⟨sample_history, hstored, rfl, hevents, fun h => ?_⟩
  obtain ⟨b, hb, hrev⟩ := Option.map_eq_some_iff.1 hstored
  have hentry : (storeAfter WatchSnapshot.sample).db.entry (.clusterBootstrap, "c") =
      some (b.revision, .clusterBootstrap b) := by
    rw [DB.entry, hb]
    rfl
  have hmem := (h.covers _).2 ⟨_, _, _, hentry, by omega, by omega, rfl⟩
  rw [hevents, List.mem_singleton] at hmem
  cases congrArg Change.kind hmem

end Medea
