import Medea.Inventory.History

/-!
# Compare-and-swap

The four kinds of desired records are written by compare-and-swap. `compare_and_swap` says when such a
write succeeds, what it changes, that a conflict changes nothing, and that there is no ABA: a write
that expects a revision other than zero replaces the very record whose write returned that revision,
which has been stored ever since.

Records without their identifying names are refused before the comparison.
-/

set_option autoImplicit false

namespace Medea

open Medea.Interaction Medea.Versioned

/-- A record of one of the kinds that are written by compare-and-swap. -/
inductive Desired where
  | cluster (c : Cluster)
  | nodePool (np : NodePool)
  | machine (m : Machine)
  | host (h : Host)

namespace Desired

/-- `Put*Desired`. -/
def put (s : Store) (expected : Nat) : Desired → Except StoreError Nat × Store
  | .cluster c => s.putClusterDesired c expected
  | .nodePool np => s.putNodePoolDesired np expected
  | .machine m => s.putMachineDesired m expected
  | .host h => s.putHostDesired h expected

/-- The call with its answer. -/
def access (expected : Nat) (rep : Except StoreError Nat) : Desired → Access
  | .cluster c => .call (.putClusterDesired c expected) rep
  | .nodePool np => .call (.putNodePoolDesired np expected) rep
  | .machine m => .call (.putMachineDesired m expected) rep
  | .host h => .call (.putHostDesired h expected) rep

/-- The bucket and the key of the record. -/
def key : Desired → EventKind × String
  | .cluster c => (.cluster, c.name)
  | .nodePool np => (.nodepool, ckey np.cluster np.name)
  | .machine m => (.machine, ckey m.cluster m.talosEndpoint)
  | .host h => (.host, ckey h.cluster h.mac)

/-- The record as it is stored at a revision. -/
def stamped (rev : Nat) : Desired → Record
  | .cluster c => .cluster (Store.clusterTable.stamp c rev)
  | .nodePool np => .nodePool (Store.nodePoolTable.stamp np rev)
  | .machine m => .machine (Store.machineTable.stamp m rev)
  | .host h => .host (Store.hostTable.stamp h rev)

/-- The names that identify the record are there. -/
def Identified : Desired → Prop
  | .cluster c => c.name ≠ ""
  | .nodePool np => np.cluster ≠ "" ∧ np.name ≠ ""
  | .machine m => m.cluster ≠ "" ∧ m.talosEndpoint ≠ ""
  | .host h => h.cluster ≠ "" ∧ h.mac ≠ ""

instance : DecidablePred Identified
  | .cluster _ => inferInstanceAs (Decidable (_ ≠ _))
  | .nodePool _ => inferInstanceAs (Decidable (_ ∧ _))
  | .machine _ => inferInstanceAs (Decidable (_ ∧ _))
  | .host _ => inferInstanceAs (Decidable (_ ∧ _))

end Desired

/-- A desired record as a call writes it, with the expected revision. -/
def StoreOp.swap : StoreOp → Option (Desired × Nat)
  | .putClusterDesired c expected => some (.cluster c, expected)
  | .putNodePoolDesired np expected => some (.nodePool np, expected)
  | .putMachineDesired m expected => some (.machine m, expected)
  | .putHostDesired h expected => some (.host h, expected)
  | _ => none

/-- The revision a writer expects is that of the store: no record and zero, or the record's own. -/
def Store.Expects (s : Store) (key : EventKind × String) (expected : Nat) : Prop :=
  s.db.entry key = none ∧ expected = 0 ∨ ∃ v, s.db.entry key = some (expected, v)

namespace CompareAndSwap

variable {s : Store} {d : Desired} {expected : Nat} {kind : EventKind} {V : Type} {T : Store.Table V}

/-- The comparison, seen in the registry. -/
theorem matches_iff {wrap : V → Record} (hT : T.Lawful kind wrap) (s : Store) (k : String)
    (expected : Nat) :
    Store.matches? T s k expected = true ↔ s.Expects (kind, k) expected := by
  rw [Store.Expects, hT.own, Store.matches?]
  cases (T.bucket s.db)[k]? with
  | none => simp
  | some cur => simp

/-- A compare-and-swap either replaces the record at its key or reports a conflict. -/
theorem putCAS_cases {wrap : V → Record} (hT : T.Lawful kind wrap) (s : Store) (ekind : EventKind)
    (k eventKey : String) (expected : Nat) (msg : V) :
    (s.Expects (kind, k) expected ∧
        (Store.putCAS T ekind k eventKey expected msg s).1 = .ok (s.db.revision + 1)) ∨
      ¬s.Expects (kind, k) expected ∧
        Store.putCAS T ekind k eventKey expected msg s = (.error .conflict, s) := by
  rw [Store.putCAS]
  by_cases hm : Store.matches? T s k expected = true
  · rw [if_pos hm]
    exact Or.inl ⟨(matches_iff hT s k expected).1 hm, rfl⟩
  · rw [if_neg hm]
    exact Or.inr ⟨fun he => hm ((matches_iff hT s k expected).2 he), rfl⟩

/-- What `Put*Desired` can answer. -/
theorem put_cases (s : Store) (expected : Nat) (d : Desired) :
    (d.Identified ∧ s.Expects d.key expected ∧ (d.put s expected).1 = .ok (s.db.revision + 1)) ∨
      (d.Identified ∧ ¬s.Expects d.key expected ∧ d.put s expected = (.error .conflict, s)) ∨
      ¬d.Identified ∧ ∃ msg, d.put s expected = (.error (.other msg), s) := by
  have hguard : ∀ {p : Prop} [Decidable p] {msg : String} {rest : Except StoreError Nat × Store},
      (d.Identified ↔ ¬p) → d.put s expected = (if p then (.error (.other msg), s) else rest) →
      (s.Expects d.key expected ∧ rest.1 = .ok (s.db.revision + 1) ∨
        ¬s.Expects d.key expected ∧ rest = (.error .conflict, s)) →
      (d.Identified ∧ s.Expects d.key expected ∧ (d.put s expected).1 = .ok (s.db.revision + 1)) ∨
        (d.Identified ∧ ¬s.Expects d.key expected ∧ d.put s expected = (.error .conflict, s)) ∨
        ¬d.Identified ∧ ∃ msg, d.put s expected = (.error (.other msg), s) := by
    intro p _ msg rest hid hput hrest
    rw [hput]
    by_cases hp : p
    · rw [if_pos hp]
      exact Or.inr (Or.inr ⟨fun h => hid.1 h hp, msg, rfl⟩)
    · rw [if_neg hp]
      rcases hrest with ⟨he, hok⟩ | ⟨he, hconf⟩
      · exact Or.inl ⟨hid.2 hp, he, hok⟩
      · exact Or.inr (Or.inl ⟨hid.2 hp, he, hconf⟩)
  cases d with
  | cluster c => exact hguard Iff.rfl rfl (putCAS_cases Store.clusterTable_lawful s _ _ _ _ _)
  | nodePool np =>
    exact hguard not_or.symm rfl (putCAS_cases Store.nodePoolTable_lawful s _ _ _ _ _)
  | machine m =>
    exact hguard not_or.symm rfl (putCAS_cases Store.machineTable_lawful s _ _ _ _ _)
  | host h => exact hguard not_or.symm rfl (putCAS_cases Store.hostTable_lawful s _ _ _ _ _)

/-- A value that `Put*Desired` returns is the new revision, and the record was expected there. -/
theorem put_value {rev : Nat} (h : (d.put s expected).1 = .ok rev) :
    d.Identified ∧ s.Expects d.key expected ∧ rev = s.db.revision + 1 := by
  rcases put_cases s expected d with ⟨hid, he, hok⟩ | ⟨_, _, hconf⟩ | ⟨_, msg, herr⟩
  · rw [hok] at h
    cases h
    exact ⟨hid, he, rfl⟩
  · rw [hconf] at h
    cases h
  · rw [herr] at h
    cases h

/-- A write that succeeds puts its record under its key. -/
theorem put_registry {rev : Nat} (h : (d.put s expected).1 = .ok rev) :
    (d.put s expected).2.registry = s.registry.apply (.put d.key (d.stamped rev)) := by
  obtain ⟨_, _, rfl⟩ := put_value h
  cases d with
  | cluster c =>
    have hop : ((StoreOp.putClusterDesired c expected).exec s).1 = .ok (s.db.revision + 1) := h
    exact StoreOp.registry_exec hop
  | nodePool np =>
    have hop : ((StoreOp.putNodePoolDesired np expected).exec s).1 = .ok (s.db.revision + 1) := h
    exact StoreOp.registry_exec hop
  | machine m =>
    have hop : ((StoreOp.putMachineDesired m expected).exec s).1 = .ok (s.db.revision + 1) := h
    exact StoreOp.registry_exec hop
  | host h' =>
    have hop : ((StoreOp.putHostDesired h' expected).exec s).1 = .ok (s.db.revision + 1) := h
    exact StoreOp.registry_exec hop

theorem putCAS_observed {key eventKey : String} {msg : V} :
    (Store.putCAS T kind key eventKey expected msg s).2.obsCluster = s.obsCluster ∧
      (Store.putCAS T kind key eventKey expected msg s).2.obsMachine = s.obsMachine := by
  rw [Store.putCAS]
  split_ifs
  · exact ⟨rfl, rfl⟩
  · exact ⟨rfl, rfl⟩

/-- The observed caches are never touched. -/
theorem put_observed (s : Store) (expected : Nat) (d : Desired) :
    (d.put s expected).2.obsCluster = s.obsCluster ∧
      (d.put s expected).2.obsMachine = s.obsMachine := by
  cases d with
  | cluster c =>
    simp only [Desired.put, Store.putClusterDesired]
    split_ifs
    · exact ⟨rfl, rfl⟩
    · exact putCAS_observed
  | nodePool np =>
    simp only [Desired.put, Store.putNodePoolDesired]
    split_ifs
    · exact ⟨rfl, rfl⟩
    · exact putCAS_observed
  | machine m =>
    simp only [Desired.put, Store.putMachineDesired]
    split_ifs
    · exact ⟨rfl, rfl⟩
    · exact putCAS_observed
  | host h =>
    simp only [Desired.put, Store.putHostDesired]
    split_ifs
    · exact ⟨rfl, rfl⟩
    · exact putCAS_observed

/-! ## No ABA -/

/-- What was put under the key of a desired record was put by a compare-and-swap, which returned the
revision. -/
theorem access_of_move {a : Access} {v : Record} (hfit : a.Fits s)
    (hm : a.move s = .put d.key v) :
    ∃ d' expected', a = Desired.access expected' (.ok (s.db.revision + 1)) d' ∧ d'.key = d.key ∧
      v = d'.stamped (s.db.revision + 1) := by
  cases a with
  | reopen => cases hm
  | call op rep =>
    cases rep with
    | error e => cases hm
    | ok val =>
      have hok := hfit.ok
      cases op with
      | putClusterDesired c expected' =>
        obtain ⟨_, _, rfl⟩ := put_value (d := .cluster c) hok
        injection hm with hkey hv
        exact ⟨.cluster c, expected', rfl, hkey, hv.symm⟩
      | putNodePoolDesired np expected' =>
        obtain ⟨_, _, rfl⟩ := put_value (d := .nodePool np) hok
        injection hm with hkey hv
        exact ⟨.nodePool np, expected', rfl, hkey, hv.symm⟩
      | putMachineDesired m expected' =>
        obtain ⟨_, _, rfl⟩ := put_value (d := .machine m) hok
        injection hm with hkey hv
        exact ⟨.machine m, expected', rfl, hkey, hv.symm⟩
      | putHostDesired h expected' =>
        obtain ⟨_, _, rfl⟩ := put_value (d := .host h) hok
        injection hm with hkey hv
        exact ⟨.host h, expected', rfl, hkey, hv.symm⟩
      | putMachineRollout | putClusterRollout | putRolloutJob | putClusterBootstrap =>
        -- these go to other buckets
        injection hm with hkey
        have hkind := congrArg Prod.fst hkey
        cases d <;> cases hkind
      | _ => cases hm

/-- A record that is stored with a revision was put there by the one write that returned it, and has
been there since. -/
theorem stored_since {h : List Access} (hh : History h) {v : Record}
    (he : (storeAfter h).db.entry d.key = some (expected, v)) :
    ∃ n d' expected', h[n]? = some (Desired.access expected' (.ok expected) d') ∧
      d'.key = d.key ∧ ∀ j, n < j → j ≤ h.length →
        (storeAfter (h.take j)).db.entry d.key = some (expected, d'.stamped expected) := by
  have hlast : (storeAfter (h.take h.length)).registry.entry d.key = some (expected, v) := by
    rw [List.take_length]
    exact he
  obtain ⟨n, hn, hput, hrev, hsince⟩ := hh.run.origin hlast
  obtain ⟨a, ha⟩ : ∃ a, h[n]? = some a := ⟨h[n], List.getElem?_eq_getElem hn⟩
  rw [ha] at hput
  have hfit : a.Fits (storeAfter (h.take n)) := Along.at_index hh ha
  have hrev : (storeAfter (h.take n)).db.revision + 1 = expected := hrev
  obtain ⟨d', expected', rfl, hkey, rfl⟩ := access_of_move hfit hput
  rw [hrev] at ha hsince
  exact ⟨n, d', expected', ha, hkey, hsince⟩

end CompareAndSwap

open CompareAndSwap

/-- Compare-and-swap after every history, for every kind of desired record and every expected
revision. A write with its identifying names succeeds exactly if there is no record and zero is
expected, or the record there has the expected revision; then only the key of the record and the
counter change. Otherwise it reports a conflict, and no error changes or publishes anything. A write
that succeeds with an expected revision other than zero replaces the record whose write returned that
revision, and which has been stored without a break since. -/
theorem compare_and_swap {h : List Access} (hh : History h) (d : Desired) (expected : Nat) :
    ((∃ rev, (d.put (storeAfter h) expected).1 = .ok rev) ↔
      d.Identified ∧ (storeAfter h).Expects d.key expected) ∧
    (∀ rev, (d.put (storeAfter h) expected).1 = .ok rev →
      rev = (storeAfter h).db.revision + 1 ∧
      (d.put (storeAfter h) expected).2.db.revision = rev ∧
      (d.put (storeAfter h) expected).2.db.entry d.key = some (rev, d.stamped rev) ∧
      (∀ key, key ≠ d.key →
        (d.put (storeAfter h) expected).2.db.entry key = (storeAfter h).db.entry key) ∧
      (d.put (storeAfter h) expected).2.obsCluster = (storeAfter h).obsCluster ∧
      (d.put (storeAfter h) expected).2.obsMachine = (storeAfter h).obsMachine) ∧
    ((d.put (storeAfter h) expected).1 = .error .conflict ↔
      d.Identified ∧ ¬(storeAfter h).Expects d.key expected) ∧
    (∀ err, (d.put (storeAfter h) expected).1 = .error err →
      (d.put (storeAfter h) expected).2 = storeAfter h) ∧
    ∀ rev, (d.put (storeAfter h) expected).1 = .ok rev → expected ≠ 0 →
      ∃ n d' expected', h[n]? = some (Desired.access expected' (.ok expected) d') ∧
        d'.key = d.key ∧ ∀ j, n < j → j ≤ h.length →
          (storeAfter (h.take j)).db.entry d.key = some (expected, d'.stamped expected) := by
  refine ⟨⟨?_, ?_⟩, ?_, ⟨?_, ?_⟩, ?_, ?_⟩
  · rintro ⟨rev, hok⟩
    obtain ⟨hid, he, _⟩ := put_value hok
    exact ⟨hid, he⟩
  · rintro ⟨hid, he⟩
    rcases put_cases (storeAfter h) expected d with
      ⟨_, _, hok⟩ | ⟨_, hne, _⟩ | ⟨hno, _⟩
    · exact ⟨_, hok⟩
    · exact absurd he hne
    · exact absurd hid hno
  · intro rev hok
    obtain ⟨_, _, hrev⟩ := put_value hok
    have hreg := put_registry hok
    have hentry : (d.put (storeAfter h) expected).2.db.entry =
        Function.update (storeAfter h).db.entry d.key
          (some ((storeAfter h).db.revision + 1, d.stamped rev)) :=
      congrArg Registry.entry hreg
    have hcounter : (d.put (storeAfter h) expected).2.db.revision =
        (storeAfter h).db.revision + 1 := congrArg Registry.counter hreg
    refine ⟨hrev, hcounter.trans hrev.symm, ?_, ?_, put_observed _ _ _⟩
    · rw [hentry, Function.update_self, hrev]
    · intro key hne
      rw [hentry, Function.update_of_ne hne]
  · intro hconf
    rcases put_cases (storeAfter h) expected d with
      ⟨_, _, hok⟩ | ⟨hid, hne, _⟩ | ⟨_, msg, herr⟩
    · rw [hok] at hconf
      cases hconf
    · exact ⟨hid, hne⟩
    · rw [herr] at hconf
      cases hconf
  · rintro ⟨hid, hne⟩
    rcases put_cases (storeAfter h) expected d with
      ⟨_, he, _⟩ | ⟨_, _, hall⟩ | ⟨hno, _⟩
    · exact absurd he hne
    · rw [hall]
    · exact absurd hid hno
  · intro err herror
    rcases put_cases (storeAfter h) expected d with
      ⟨_, _, hok⟩ | ⟨_, _, hall⟩ | ⟨_, msg, herr⟩
    · rw [hok] at herror
      cases herror
    · rw [hall]
    · rw [herr]
  · intro rev hok hne
    obtain ⟨_, he, _⟩ := put_value hok
    rcases he with ⟨_, rfl⟩ | ⟨v, hv⟩
    · exact absurd rfl hne
    · exact stored_since hh hv

/-- A cluster is created, deleted and created again. -/
def CompareAndSwap.recreated : List Access :=
  [.call (.putClusterDesired { name := "c" } 0) (.ok 1), .call (.deleteCluster "c") (.ok ()),
    .call (.putClusterDesired { name := "c" } 0) (.ok 3)]

theorem CompareAndSwap.recreated_history : History recreated :=
  ⟨Or.inl rfl, Or.inl rfl, Or.inl rfl, trivial⟩

/-- A writer that has seen the second record succeeds, and one that has seen the first does not. -/
theorem recreated_swap :
    (∃ rev, (Desired.put (storeAfter CompareAndSwap.recreated) 3 (.cluster { name := "c" })).1 =
      .ok rev) ∧
    (Desired.put (storeAfter CompareAndSwap.recreated) 1 (.cluster { name := "c" })).1 =
      .error .conflict := by
  have hnamed : (Desired.cluster { name := "c" }).Identified := by decide
  constructor
  · refine (compare_and_swap recreated_history _ 3).1.2 ⟨hnamed, ?_⟩
    exact Or.inr ⟨_, rfl⟩
  · refine (compare_and_swap recreated_history _ 1).2.2.1.2 ⟨hnamed, ?_⟩
    rintro (⟨hnone, _⟩ | ⟨v, hv⟩)
    · cases hnone
    · cases hv

/-- Nothing is stored under the empty name and zero is expected, but the write fails. -/
theorem unnamed_cluster_refused : ∃ (h : List Access) (d : Desired), History h ∧
    (storeAfter h).db.entry d.key = none ∧ ¬∃ rev, (d.put (storeAfter h) 0).1 = .ok rev := by
  refine ⟨[], .cluster { name := "" }, trivial, rfl, ?_⟩
  rintro ⟨rev, hrev⟩
  cases hrev

end Medea
