import Medea.Inventory.History
import Mathlib.Data.List.Sort

/-!
# Watching the store

`publish`, `Watch` and `snapshotEvents` of `internal/store/watch.go`.

`StoreOp.event` is what a write publishes, and `DB.snapshotEvents` the events a new watcher is sent
for the records that are already there. One call of `Watch` is a transition system beside the writers:
a writer commits and publishes in two steps under the write lock, registration needs the lock, and the
goroutine reads the snapshot and forwards events at any time in between. `Watching` is the state of
this system and `Watching.Step` its steps. The caches of observed values play no part in it.
-/

set_option autoImplicit false

namespace Medea

/-! ## Events -/

/-- The key that events about a record carry. -/
def Record.eventKey : Record → String
  | .cluster c => c.name
  | .nodePool np => np.cluster ++ "/" ++ np.name
  | .machine m => m.cluster ++ "/" ++ m.talosEndpoint
  | .host h => h.cluster ++ "/" ++ h.mac
  | .machineRollout r => r.cluster ++ "/" ++ r.addr
  | .clusterRollout r => r.cluster
  | .rolloutJob r => r.cluster ++ "/" ++ r.pool
  | .clusterBootstrap r => r.cluster

/-- The event about a record at its revision. -/
def Record.change (v : Record) : Change := ⟨v.key.1, v.eventKey, v.revision⟩

/-- Kind and key of the event a write publishes. -/
def StoreOp.event : StoreOp → Option (EventKind × String)
  | .putClusterDesired c _ => some (.cluster, c.name)
  | .putNodePoolDesired np _ => some (.nodepool, np.cluster ++ "/" ++ np.name)
  | .putMachineDesired m _ => some (.machine, m.cluster ++ "/" ++ m.talosEndpoint)
  | .deleteMachine cluster addr => some (.machine, cluster ++ "/" ++ addr)
  | .putHostDesired h _ => some (.host, h.cluster ++ "/" ++ h.mac)
  | .deleteHost cluster mac => some (.host, cluster ++ "/" ++ mac)
  | .deleteCluster cluster => some (.cluster, cluster)
  | .putMachineRollout r => some (.machineRollout, r.cluster ++ "/" ++ r.addr)
  | .putClusterRollout r => some (.clusterRollout, r.cluster)
  | .putClusterBootstrap r => some (.clusterBootstrap, r.cluster)
  | .putRolloutJob r => some (.rolloutJob, r.cluster ++ "/" ++ r.pool)
  | _ => none

/-- The event of an access to the store, with the revision of its commit. -/
def Access.event (s : Store) : Access → Option Change
  | .call op (.ok _) => op.event.map fun e => ⟨e.1, e.2, s.db.revision + 1⟩
  | _ => none

namespace StoreOp

variable {s : Store} {op : StoreOp}

theorem event_of_read (hw : op.writes = false) : op.event = none := by
  cases op <;> first | rfl | cases hw

/-- A write that puts a record publishes the event about this record. -/
theorem event_of_put {key : EventKind × String} {v : Record} (h : op.move s = .put key v) :
    op.event.map (fun e => (⟨e.1, e.2, s.db.revision + 1⟩ : Change)) = some v.change := by
  cases op <;> cases h <;> rfl

end StoreOp

/-! ## The snapshot -/

/-- The events for the stored records whose revision is above `since` and at most `upto`, in the order
of their revisions. -/
def DB.snapshotEvents (db : DB) (since upto : Nat) : List Change :=
  let add (kind : EventKind) (key : String) (rev : Nat) : List Change :=
    if since < rev ∧ rev ≤ upto then [⟨kind, key, rev⟩] else []
  let evs :=
    (db.clusters.toList.flatMap fun (_, c) => add .cluster c.name c.revision) ++
    (db.nodePools.toList.flatMap fun (_, np) =>
      add .nodepool (np.cluster ++ "/" ++ np.name) np.revision) ++
    (db.machines.toList.flatMap fun (_, m) =>
      add .machine (m.cluster ++ "/" ++ m.talosEndpoint) m.revision) ++
    (db.hosts.toList.flatMap fun (_, h) => add .host (h.cluster ++ "/" ++ h.mac) h.revision) ++
    (db.machineRollouts.toList.flatMap fun (_, r) =>
      add .machineRollout (r.cluster ++ "/" ++ r.addr) r.revision) ++
    (db.clusterRollouts.toList.flatMap fun (_, r) => add .clusterRollout r.cluster r.revision) ++
    (db.jobs.toList.flatMap fun (_, r) => add .rolloutJob (r.cluster ++ "/" ++ r.pool) r.revision)
  evs.insertionSort fun a b => a.revision ≤ b.revision

/-- The records that the snapshot walks, bucket by bucket, with their keys. -/
def DB.walked (db : DB) : List ((EventKind × String) × Record) :=
  (db.clusters.toList.map fun (k, c) => ((.cluster, k), .cluster c)) ++
  (db.nodePools.toList.map fun (k, np) => ((.nodepool, k), .nodePool np)) ++
  (db.machines.toList.map fun (k, m) => ((.machine, k), .machine m)) ++
  (db.hosts.toList.map fun (k, h) => ((.host, k), .host h)) ++
  (db.machineRollouts.toList.map fun (k, r) => ((.machineRollout, k), .machineRollout r)) ++
  (db.clusterRollouts.toList.map fun (k, r) => ((.clusterRollout, k), .clusterRollout r)) ++
  (db.jobs.toList.map fun (k, r) => ((.rolloutJob, k), .rolloutJob r))

namespace DB

variable {db : DB} {since upto : Nat}

theorem flatMap_singleton_if {α : Type} (f : α → Change) (p : Change → Prop) [DecidablePred p]
    (l : List α) : (l.flatMap fun x => if p (f x) then [f x] else []) = (l.map f).filter p := by
  induction l with
  | nil => rfl
  | cons x l ih =>
    rw [List.flatMap_cons, ih, List.map_cons, List.filter_cons]
    by_cases hp : p (f x)
    · simp [hp]
    · simp [hp]

/-- The snapshot is the events of the walked records in the range, sorted. -/
theorem snapshotEvents_eq : db.snapshotEvents since upto =
    ((db.walked.map fun e => e.2.change).filter fun ev =>
      since < ev.revision ∧ ev.revision ≤ upto).insertionSort fun a b => a.revision ≤ b.revision := by
  simp only [walked, List.map_append, List.filter_append, List.map_map, ← flatMap_singleton_if]
  rfl

variable {V : Type} {b : Bucket V} {kind : EventKind} {wrap : V → Record}

theorem mem_bucket_map {key : EventKind × String} {v : Record} :
    (key, v) ∈ b.toList.map (fun (k, x) => ((kind, k), wrap x)) ↔
      key.1 = kind ∧ ∃ x, b[key.2]? = some x ∧ v = wrap x := by
  constructor
  · intro h
    obtain ⟨⟨k, x⟩, hm, he⟩ := List.mem_map.1 h
    cases he
    exact ⟨rfl, x, Std.ExtTreeMap.mem_toList_iff_getElem?_eq_some.1 hm, rfl⟩
  · rintro ⟨rfl, x, hx, rfl⟩
    exact List.mem_map.2 ⟨(key.2, x), Std.ExtTreeMap.mem_toList_iff_getElem?_eq_some.2 hx, rfl⟩

theorem entry_bucket_iff {rev : V → Nat} (hrev : ∀ x, (wrap x).revision = rev x) {k : String}
    {v : Record} : (∃ x, b[k]? = some x ∧ v = wrap x) ↔
      (b[k]?.map fun x => (rev x, wrap x)) = some (v.revision, v) := by
  rw [Option.map_eq_some_iff]
  constructor
  · rintro ⟨x, hx, rfl⟩
    exact ⟨x, hx, by rw [hrev]⟩
  · rintro ⟨x, hx, he⟩
    exact ⟨x, hx, (Prod.mk.inj he).2.symm⟩

/-- The walk meets every record, except those in the bucket of the bootstraps. -/
theorem mem_walked {key : EventKind × String} {v : Record} :
    (key, v) ∈ db.walked ↔ db.entry key = some (v.revision, v) ∧ key.1 ≠ .clusterBootstrap := by
  obtain ⟨kind, k⟩ := key
  simp only [walked, List.mem_append, mem_bucket_map]
  cases kind with
  | clusterBootstrap => simp
  | cluster | nodepool | machine | host | machineRollout | clusterRollout | rolloutJob =>
    simp only [reduceCtorEq, false_and, true_and, or_false, false_or, ne_eq, not_false_eq_true,
      and_true]
    exact entry_bucket_iff fun _ => rfl

/-- The records of some kinds, no key twice. -/
def Distinct (kinds : List EventKind) (l : List ((EventKind × String) × Record)) : Prop :=
  (l.Pairwise fun a b => a.1 ≠ b.1) ∧ ∀ e ∈ l, e.1.1 ∈ kinds

theorem distinct_bucket {V : Type} (b : Bucket V) (kind : EventKind) (wrap : V → Record) :
    Distinct [kind] (b.toList.map fun (k, x) => ((kind, k), wrap x)) := by
  constructor
  · rw [List.pairwise_map]
    refine Std.ExtTreeMap.distinct_keys_toList.imp ?_
    intro x y hxy he
    exact hxy (Std.compare_eq_iff_eq.2 (Prod.mk.inj he).2)
  · intro e he
    exact List.mem_singleton.2 (mem_bucket_map.1 he).1

theorem Distinct.append {kinds kinds' : List EventKind}
    {l l' : List ((EventKind × String) × Record)} (h : Distinct kinds l) (h' : Distinct kinds' l')
    (hkinds : ∀ kind ∈ kinds, kind ∉ kinds') : Distinct (kinds ++ kinds') (l ++ l') := by
  constructor
  · refine List.pairwise_append.2 ⟨h.1, h'.1, ?_⟩
    -- across the two parts the kinds differ
    intro x hx y hy he
    exact hkinds _ (h.2 x hx) (he ▸ h'.2 y hy)
  · intro e he
    rcases List.mem_append.1 he with he | he
    · exact List.mem_append_left _ (h.2 e he)
    · exact List.mem_append_right _ (h'.2 e he)

/-- No key is met twice. -/
theorem pairwise_walked : db.walked.Pairwise fun a b => a.1 ≠ b.1 := by
  have h2 := (distinct_bucket db.clusters .cluster .cluster).append
    (distinct_bucket db.nodePools .nodepool .nodePool) (by decide)
  have h3 := h2.append (distinct_bucket db.machines .machine .machine) (by decide)
  have h4 := h3.append (distinct_bucket db.hosts .host .host) (by decide)
  have h5 := h4.append (distinct_bucket db.machineRollouts .machineRollout .machineRollout)
    (by decide)
  have h6 := h5.append (distinct_bucket db.clusterRollouts .clusterRollout .clusterRollout)
    (by decide)
  exact (h6.append (distinct_bucket db.jobs .rolloutJob .rolloutJob) (by decide)).1

/-- The events of the snapshot: one for every walked record in the range. -/
theorem mem_snapshotEvents {ev : Change} : ev ∈ db.snapshotEvents since upto ↔
    ∃ key v, db.entry key = some (v.revision, v) ∧ key.1 ≠ .clusterBootstrap ∧
      since < v.revision ∧ v.revision ≤ upto ∧ ev = v.change := by
  rw [snapshotEvents_eq, List.mem_insertionSort, List.mem_filter, List.mem_map]
  constructor
  · rintro ⟨⟨⟨key, v⟩, hm, rfl⟩, hrange⟩
    obtain ⟨hentry, hkind⟩ := mem_walked.1 hm
    obtain ⟨hs, hu⟩ := of_decide_eq_true hrange
    exact ⟨key, v, hentry, hkind, hs, hu, rfl⟩
  · rintro ⟨key, v, hentry, hkind, hs, hu, rfl⟩
    exact ⟨⟨(key, v), mem_walked.2 ⟨hentry, hkind⟩, rfl⟩, decide_eq_true ⟨hs, hu⟩⟩

/-- Records with revisions of their own give a snapshot in strictly ascending order. -/
theorem pairwise_snapshotEvents
    (hunique : ∀ {key key' r v v'}, db.entry key = some (r, v) → db.entry key' = some (r, v') →
      key = key') :
    (db.snapshotEvents since upto).Pairwise fun a b => a.revision < b.revision := by
  have hne : (db.walked.map fun e => e.2.change).Pairwise fun a b => a.revision ≠ b.revision := by
    rw [List.pairwise_map]
    refine pairwise_walked.imp_of_mem ?_
    intro x y hx hy hxy he
    have hx' := (mem_walked.1 hx).1
    have hy' := (mem_walked.1 hy).1
    have hrev : x.2.revision = y.2.revision := he
    rw [hrev] at hx'
    exact hxy (hunique hx' hy')
  rw [snapshotEvents_eq]
  have hle := List.pairwise_insertionSort (fun a b : Change => a.revision ≤ b.revision)
    ((db.walked.map fun e => e.2.change).filter fun ev =>
      since < ev.revision ∧ ev.revision ≤ upto)
  have hne' := ((List.perm_insertionSort (fun a b : Change => a.revision ≤ b.revision) _).pairwise_iff
    fun h => h.symm).2 (hne.filter fun ev => since < ev.revision ∧ ev.revision ≤ upto)
  refine (hle.and hne').imp ?_
  rintro a b ⟨hab, hab'⟩
  omega

end DB

/-! ## One call of `Watch` -/

/-- Where the goroutine of a watch stands. -/
inductive WatchPoint where
  /-- Registered; the snapshot has not been read. -/
  | reading
  /-- The events of the snapshot that are still to be sent. -/
  | replaying (left : List Change)
  /-- At the select between the buffer and the context. -/
  | listening
  /-- An event has been taken from the buffer and is being sent. -/
  | forwarding (ev : Change)
  deriving DecidableEq

inductive WatchPhase where
  | uncalled
  /-- Subscribed as `id`, with the revision that separates the snapshot from the live events. -/
  | running (id snapshotRev : Nat) (point : WatchPoint)
  | returned
  deriving DecidableEq

/-- The store with its writers, one watch, and the client at the end of its stream. -/
structure Watching where
  store : Store
  /-- The id of the next subscriber. -/
  nextSub : Nat
  /-- The event of the writer that holds the lock and has committed. -/
  writing : Option Change := none
  phase : WatchPhase := .uncalled
  /-- The channel to the client. -/
  out : List Change := []
  /-- What the client has received. -/
  received : List Change := []
  /-- The context of the watch is done. -/
  cancelled : Bool := false

inductive WatchAct where
  | commit (op : StoreOp) (v : op.Value)
  | publish
  | register
  | read
  | readFails
  | replay
  | replayed
  | take
  | forward
  | receive
  | cancel
  | leave
  /-- Other watches come, take events and go. -/
  | others (subs : List (Nat × List Change)) (nextSub : Nat)

/-- The buffer of a subscriber. -/
def bufferOf (subs : List (Nat × List Change)) (id : Nat) : Option (List Change) := subs.lookup id

/-- One subscriber's buffer is replaced. -/
def setBuffer (subs : List (Nat × List Change)) (id : Nat) (buf : List Change) :
    List (Nat × List Change) :=
  subs.map fun sub => if sub.1 = id then (id, buf) else sub

/-- What publishing does to a buffer. -/
def offer (ev : Change) (buf : List Change) : List Change :=
  if buf.length < subBuffer then buf ++ [ev] else buf

section Buffers

variable {subs : List (Nat × List Change)} {id : Nat} {buf : List Change}

theorem bufferOf_publish (s : Store) (ev : Change) (id : Nat) :
    bufferOf (s.publish ev).subs id = (bufferOf s.subs id).map (offer ev) := by
  have hmap : (s.publish ev).subs = s.subs.map fun sub => (sub.1, offer ev sub.2) := by
    refine List.map_congr_left fun sub _ => ?_
    rw [offer]
    split_ifs <;> rfl
  rw [hmap]
  generalize s.subs = subs
  induction subs with
  | nil => rfl
  | cons sub subs ih =>
    obtain ⟨i, buf⟩ := sub
    rw [bufferOf, bufferOf] at ih ⊢
    by_cases hi : id = i
    · simp [hi]
    · simpa [List.lookup_cons, beq_false_of_ne hi] using ih

/-- A new subscriber starts with an empty buffer. -/
theorem bufferOf_new (hids : ∀ sub ∈ subs, sub.1 < id) : bufferOf (subs ++ [(id, [])]) id = some [] := by
  induction subs with
  | nil => simp [bufferOf]
  | cons sub subs ih =>
    obtain ⟨i, buf⟩ := sub
    have hi : id ≠ i := (Nat.ne_of_lt (hids _ List.mem_cons_self)).symm
    have hrest := ih fun sub hsub => hids sub (List.mem_cons_of_mem _ hsub)
    rw [bufferOf] at hrest ⊢
    simpa [List.lookup_cons, beq_false_of_ne hi] using hrest

theorem bufferOf_setBuffer {old : List Change} (h : bufferOf subs id = some old) :
    bufferOf (setBuffer subs id buf) id = some buf := by
  induction subs with
  | nil => cases h
  | cons sub subs ih =>
    obtain ⟨i, b⟩ := sub
    rw [bufferOf] at h ⊢
    simp only [bufferOf, setBuffer] at ih ⊢
    by_cases hi : id = i
    · simp [hi]
    · have hi' : ¬i = id := fun he => hi he.symm
      simp only [List.lookup_cons, beq_false_of_ne hi] at h
      simpa [List.lookup_cons, beq_false_of_ne hi, hi'] using ih h

end Buffers

namespace Watching

/-- The steps of the system. -/
inductive Step (since : Nat) : Watching → WatchAct → Watching → Prop
  -- the transaction of a write is committed under the write lock
  | commit {w : Watching} {op : StoreOp} {v : op.Value} {kind : EventKind} {key : String} :
      w.writing = none → (op.exec w.store).1 = .ok v → op.event = some (kind, key) →
      Step since w (.commit op v)
        { w with
          store := { w.store with db := (op.exec w.store).2.db }
          writing := some ⟨kind, key, w.store.db.revision + 1⟩ }
  -- then the revision is noted, the event fanned out and the lock released
  | publish {w : Watching} {ev : Change} : w.writing = some ev →
      Step since w .publish
        { w with
          store := Store.publish { w.store with lastRev := ev.revision } ev
          writing := none }
  -- registration needs the write lock
  | register {w : Watching} : w.writing = none → w.phase = .uncalled →
      Step since w .register
        { w with
          store := { w.store with subs := w.store.subs ++ [(w.nextSub, [])] }
          nextSub := w.nextSub + 1
          phase := .running w.nextSub w.store.lastRev .reading }
  -- the snapshot is a read transaction, at any time after that
  | read {w : Watching} {id rev : Nat} : w.phase = .running id rev .reading →
      Step since w .read
        { w with phase := .running id rev (.replaying (w.store.db.snapshotEvents since rev)) }
  | readFails {w : Watching} {id rev : Nat} : w.phase = .running id rev .reading →
      Step since w .readFails { w with phase := .running id rev (.replaying []) }
  | replay {w : Watching} {id rev : Nat} {ev : Change} {left : List Change} :
      w.phase = .running id rev (.replaying (ev :: left)) → w.out.length < subBuffer →
      Step since w .replay
        { w with phase := .running id rev (.replaying left), out := w.out ++ [ev] }
  | replayed {w : Watching} {id rev : Nat} : w.phase = .running id rev (.replaying []) →
      Step since w .replayed { w with phase := .running id rev .listening }
  | take {w : Watching} {id rev : Nat} {ev : Change} {rest : List Change} :
      w.phase = .running id rev .listening → bufferOf w.store.subs id = some (ev :: rest) →
      Step since w .take
        { w with
          store := { w.store with subs := setBuffer w.store.subs id rest }
          phase := .running id rev (if ev.revision ≤ rev then .listening else .forwarding ev) }
  | forward {w : Watching} {id rev : Nat} {ev : Change} :
      w.phase = .running id rev (.forwarding ev) → w.out.length < subBuffer →
      Step since w .forward { w with phase := .running id rev .listening, out := w.out ++ [ev] }
  | receive {w : Watching} {ev : Change} {rest : List Change} : w.out = ev :: rest →
      Step since w .receive { w with out := rest, received := w.received ++ [ev] }
  | cancel {w : Watching} : Step since w .cancel { w with cancelled := true }
  -- every wait of the goroutine also waits for the context; the snapshot is read without waiting
  | leave {w : Watching} {id rev : Nat} {point : WatchPoint} : w.phase = .running id rev point →
      point ≠ .reading → point ≠ .replaying [] → w.cancelled = true →
      Step since w .leave
        { w with
          store := { w.store with subs := w.store.subs.filter fun sub => sub.1 ≠ id }
          phase := .returned }
  | others {w : Watching} {subs : List (Nat × List Change)} {next : Nat} :
      (∀ id rev point, w.phase = .running id rev point →
        bufferOf subs id = bufferOf w.store.subs id) →
      w.nextSub ≤ next → (∀ sub ∈ subs, sub.1 < next) →
      Step since w (.others subs next)
        { w with store := { w.store with subs := subs }, nextSub := next }

/-- The steps of a list of acts, one after the other. -/
inductive Run (since : Nat) (w₀ : Watching) : List WatchAct → Watching → Prop
  | nil : Run since w₀ [] w₀
  | snoc {acts : List WatchAct} {w w' : Watching} {act : WatchAct} :
      Run since w₀ acts w → Step since w act w' → Run since w₀ (acts ++ [act]) w'

/-- A store with a history, before the watch is called; there may be other watches. -/
structure Opens (h : List Access) (w : Watching) : Prop where
  history : History h
  db : w.store.db = (storeAfter h).db
  last : w.store.lastRev = w.store.db.revision
  ids : ∀ sub ∈ w.store.subs, sub.1 < w.nextSub
  free : w.writing = none
  uncalled : w.phase = .uncalled
  out : w.out = []
  received : w.received = []

end Watching

/-- The writes of a list of acts, as accesses to the store. -/
def WatchAct.calls (acts : List WatchAct) : List Access :=
  acts.filterMap fun
    | .commit op v => some (.call op (.ok v))
    | _ => none

end Medea
