import Medea.ControlPlane.Processes
import Medea.Interaction.Outcome
import Medea.Inventory.Effects

/-!
# What a seeding leaves in the store

`seed.Apply` runs alone on the store. Each of its writes commits or fails, and the first failure ends
it. `Seeded` says what the store holds once some of the writes have been made: under every key the last
record written there, with some revision, or what was there before. `apply_ensures` says which writes
have been made when the seeding succeeds; `apply_result` that what it reports is determined by the
answers of the Talos lookups.
-/

set_option autoImplicit false

namespace Medea

open Medea.Interaction

/-! ## Calls on the store -/

section Calls

variable {α : Type} {Q : α → World → Prop} {w : World} {op : StoreOp}
  {next : Except StoreError op.Value → Prog α}

/-- A read is answered by the store, and changes nothing. -/
theorem ensures_read (hop : op.writes = false) (hstay : (op.exec w.store).2 = w.store)
    (h : (next (op.exec w.store).1).Ensures World.handles Q w) :
    (callStore op >>= next).Ensures World.handles Q w := by
  refine ⟨⟨_, _, .inl ⟨rfl, rfl⟩⟩, ?_⟩
  rintro rep w' (⟨rfl, rfl⟩ | ⟨hwrites, -, -⟩)
  · rw [hstay]
    exact h
  · rw [hop] at hwrites
    cases hwrites

/-- A write commits, or it fails and changes no record. -/
theorem ensures_write (hop : op.writes = true)
    (hok : ∀ v w' db, op.committed w.store = some db →
      w'.store.db = { db with revision := w.store.db.revision + 1 } →
      (next (.ok v)).Ensures World.handles Q w')
    (herr : ∀ e w', w'.store.db = w.store.db → (next (.error e)).Ensures World.handles Q w') :
    (callStore op >>= next).Ensures World.handles Q w := by
  refine ⟨⟨_, _, .inl ⟨rfl, rfl⟩⟩, ?_⟩
  rintro rep w' (⟨rfl, rfl⟩ | ⟨-, ⟨msg, rfl⟩, rfl⟩)
  · rcases StoreOp.exec_db w.store op with ⟨hdb, hfail⟩ | ⟨db, v, hcommitted, hrep, hdb⟩
    · obtain ⟨e, he⟩ := hfail hop
      rw [he]
      exact herr e _ hdb
    · rw [hrep]
      exact hok v _ db hcommitted hdb
  · exact herr _ _ rfl

/-- A call on a Talos client may be answered in any way, and changes nothing here. -/
theorem ensures_talos {client : Client} {top : TalosOp} {next : Except String top.Value → Prog α}
    (h : ∀ rep, (next rep).Ensures World.handles Q w) :
    (callTalos client top >>= next).Ensures World.handles Q w := by
  refine ⟨⟨.error "", w, rfl⟩, ?_⟩
  rintro rep w' rfl
  exact h rep

end Calls

/-! ## Buckets that are written over -/

section Overwrites

variable {V : Type} {T : Store.Table V} {b b' : Bucket V} {vs : List (String × V)} {k : String}

/-- The value a list of writes leaves under a key. -/
def lastOf (vs : List (String × V)) (k : String) : Option V :=
  (vs.reverse.find? fun kv => kv.1 == k).map Prod.snd

@[simp] theorem lastOf_nil (k : String) : lastOf ([] : List (String × V)) k = none := rfl

@[simp] theorem lastOf_snoc (vs : List (String × V)) (k k' : String) (v : V) :
    lastOf (vs ++ [(k, v)]) k' = if k = k' then some v else lastOf vs k' := by
  unfold lastOf
  rw [List.reverse_append, List.reverse_singleton, List.singleton_append, List.find?_cons]
  by_cases hk : k = k'
  · simp [hk]
  · have hbeq : (k == k') = false := beq_eq_false_iff_ne.2 hk
    simp [hbeq, hk]

theorem mem_of_lastOf {v : V} (h : lastOf vs k = some v) : (k, v) ∈ vs := by
  obtain ⟨⟨k', v'⟩, hfind, rfl⟩ := Option.map_eq_some_iff.1 h
  have hk : k' = k := by simpa using List.find?_some hfind
  have hmem := List.mem_of_find?_eq_some hfind
  rw [hk] at hmem
  exact List.mem_reverse.1 hmem

theorem lastOf_eq_none : lastOf vs k = none ↔ ∀ v, (k, v) ∉ vs := by
  unfold lastOf
  rw [Option.map_eq_none_iff, List.find?_eq_none]
  constructor
  · intro h v hv
    have hne := h (k, v) (List.mem_reverse.2 hv)
    simp at hne
  · rintro h ⟨k', v⟩ hv hk
    obtain rfl : k' = k := by simpa using hk
    exact h v (List.mem_reverse.1 hv)

theorem lastOf_eq_some {v : V} (hmem : (k, v) ∈ vs) (hone : ∀ v', (k, v') ∈ vs → v' = v) :
    lastOf vs k = some v := by
  cases hlast : lastOf vs k with
  | none => exact absurd hmem (lastOf_eq_none.1 hlast v)
  | some v' => rw [hone v' (mem_of_lastOf hlast)]

/-- Under every key the bucket holds the last of the writes, or what was there before. -/
def Overwrites (T : Store.Table V) (b : Bucket V) (vs : List (String × V)) (b' : Bucket V) : Prop :=
  ∀ k, match lastOf vs k with
    | none => b'[k]? = b[k]?
    | some v => ∃ rev, b'[k]? = some (T.stamp v rev)

theorem overwrites_nil : Overwrites T b [] b := fun _ => rfl

theorem Overwrites.snoc (h : Overwrites T b vs b') (k : String) (v : V) (rev : Nat) :
    Overwrites T b (vs ++ [(k, v)]) (b'.insert k (T.stamp v rev)) := by
  intro k'
  rw [lastOf_snoc, Bucket.get_insert]
  by_cases hk : k = k'
  · rw [if_pos hk, if_pos hk]
    exact ⟨rev, rfl⟩
  · rw [if_neg hk, if_neg hk]
    exact h k'

theorem Overwrites.of_some (h : Overwrites T b vs b') {v : V} (hk : lastOf vs k = some v) :
    ∃ rev, b'[k]? = some (T.stamp v rev) := by
  have hkey := h k
  rw [hk] at hkey
  exact hkey

theorem Overwrites.of_none (h : Overwrites T b vs b') (hk : lastOf vs k = none) :
    b'[k]? = b[k]? := by
  have hkey := h k
  rw [hk] at hkey
  exact hkey

end Overwrites

/-! ## The writes of a seeding -/

/-- The buckets no seeding writes. -/
def DB.aside (db : DB) : Bucket Host × Bucket ClusterRollout × Bucket MachineRollout ×
    Bucket Rollout × Bucket ClusterBootstrap :=
  (db.hosts, db.clusterRollouts, db.machineRollouts, db.jobs, db.bootstraps)

/-- The records after some writes of clusters, pools and machines. -/
structure Seeded (cs : List (String × Cluster)) (ps : List (String × NodePool))
    (ms : List (String × Machine)) (db db' : DB) : Prop where
  clusters : Overwrites Store.clusterTable db.clusters cs db'.clusters
  nodePools : Overwrites Store.nodePoolTable db.nodePools ps db'.nodePools
  machines : Overwrites Store.machineTable db.machines ms db'.machines
  aside : db'.aside = db.aside

namespace SeedInputs

variable (input : SeedInputs)

/-- The machines of the node list. -/
def machines : List SeedMachine :=
  input.nodes.map fun n => ⟨n.internalIP, poolName n.role, pbRole n.role⟩

/-- The scan that a result reports. -/
def scanOf (r : SeedResult) : SeedScan := ⟨input.machines, r.talosSeed, r.k8sSeed⟩

def clusterWrite (scan : SeedScan) : String × Cluster := (input.cluster, input.clusterRecord scan)

def poolWrite (scan : SeedScan) (pool : String) : String × NodePool :=
  (ckey input.cluster pool, input.poolRecord scan pool)

def machineWrite (m : SeedMachine) : String × Machine :=
  (ckey input.cluster m.addr, input.machineRecord m)

/-- All writes of a seeding. -/
def Writes (scan : SeedScan) (db db' : DB) : Prop :=
  Seeded [input.clusterWrite scan] ((pools scan).map (input.poolWrite scan))
    (scan.machines.map input.machineWrite) db db'

variable {input} {scan : SeedScan} {w₀ w : World} {cs : List (String × Cluster)}
  {ps : List (String × NodePool)} {ms : List (String × Machine)}

theorem putCluster_ensures (h : Seeded cs ps ms w₀.store.db w.store.db) :
    (input.putCluster scan).Ensures World.handles
      (fun res w' => res = none →
        Seeded (cs ++ [input.clusterWrite scan]) ps ms w₀.store.db w'.store.db) w := by
  apply ensures_read rfl rfl
  apply ensures_write rfl
  · intro v w' db hdb hw' _
    cases hdb
    rw [hw']
    exact { h with clusters := h.clusters.snoc _ _ _ }
  · intro e w' _ hnone
    cases hnone

theorem putPool_ensures {pool : String} (h : Seeded cs ps ms w₀.store.db w.store.db) :
    (input.putPool scan pool).Ensures World.handles
      (fun res w' => res = none →
        Seeded cs (ps ++ [input.poolWrite scan pool]) ms w₀.store.db w'.store.db) w := by
  apply ensures_read rfl rfl
  apply ensures_write rfl
  · intro v w' db hdb hw' _
    cases hdb
    rw [hw']
    exact { h with nodePools := h.nodePools.snoc _ _ _ }
  · intro e w' _ hnone
    cases hnone

theorem putMachine_ensures {m : SeedMachine} (h : Seeded cs ps ms w₀.store.db w.store.db) :
    (input.putMachine m).Ensures World.handles
      (fun res w' => res = none →
        Seeded cs ps (ms ++ [input.machineWrite m]) w₀.store.db w'.store.db) w := by
  apply ensures_read rfl rfl
  apply ensures_write rfl
  · intro v w' db hdb hw' _
    cases hdb
    rw [hw']
    exact { h with machines := h.machines.snoc _ _ _ }
  · intro e w' _ hnone
    cases hnone

/-- A loop of writes; the invariant splits the items into those written and those to come. -/
theorem untilSome_ensures {A : Type} {put : A → Prog (Option String)} {P : List A → World → Prop}
    {xs : List A} (h : P [] w)
    (hput : ∀ {done x w}, P done w →
      (put x).Ensures World.handles (fun res w' => res = none → P (done ++ [x]) w') w) :
    (Program.untilSome put xs).Ensures World.handles (fun res w' => res = none → P xs w') w := by
  apply Program.ensures_untilSome (I := fun left w' => ∃ done, xs = done ++ left ∧ P done w')
  · rintro x - left w1 ⟨done, hsplit, hdone⟩
    apply (hput hdone).mono
    intro res w2 hres
    cases res with
    | some e => exact nofun
    | none => exact ⟨done ++ [x], by simp [hsplit], hres rfl⟩
  · rintro w1 ⟨done, rfl, hdone⟩ _
    rwa [List.append_nil]
  · exact ⟨[], rfl, h⟩

theorem write_ensures (scan : SeedScan) (w : World) :
    (input.write scan).Ensures World.handles
      (fun res w' => res = none → input.Writes scan w.store.db w'.store.db) w := by
  have hstart : Seeded [] [] [] w.store.db w.store.db :=
    ⟨overwrites_nil, overwrites_nil, overwrites_nil, rfl⟩
  apply (putCluster_ensures hstart).bind
  intro res w1 hcluster
  cases res with
  | some e => exact nofun
  | none =>
    refine Program.Ensures.bind (untilSome_ensures (P := fun done w' => Seeded _
      (done.map (input.poolWrite scan)) [] w.store.db w'.store.db) (hcluster rfl) ?_) ?_
    · intro done pool w2 h
      rw [List.map_append]
      exact putPool_ensures h
    intro res w2 hpools
    cases res with
    | some e => exact nofun
    | none =>
      apply untilSome_ensures (P := fun done w' => Seeded _ _ (done.map input.machineWrite)
        w.store.db w'.store.db) (hpools rfl)
      intro done m w3 h
      rw [List.map_append]
      exact putMachine_ensures h

theorem scanNodes_ensures (nodes : List NodeInfo) (scan : SeedScan) (w : World) :
    (input.scanNodes nodes scan).Ensures World.handles
      (fun res w' => w' = w ∧ ∀ scan', res = .ok scan' → scan'.machines = scan.machines ++
        nodes.map fun n => ⟨n.internalIP, poolName n.role, pbRole n.role⟩) w := by
  induction nodes generalizing scan with
  | nil =>
    refine ⟨rfl, ?_⟩
    rintro scan' ⟨⟩
    simp
  | cons n nodes ih =>
    unfold scanNodes
    split
    · exact ⟨rfl, nofun⟩
    · apply ensures_talos
      intro rep
      cases rep with
      | error e => exact ⟨rfl, nofun⟩
      | ok tv =>
        apply (ih (noteNode scan n tv)).mono
        rintro res w' ⟨hw', hres⟩
        refine ⟨hw', ?_⟩
        intro scan' hscan'
        rw [hres scan' hscan']
        simp [noteNode]

theorem fallback_ensures (scan : SeedScan) (w : World) :
    (input.fallback scan).Ensures World.handles
      (fun scan' w' => w' = w ∧ scan'.machines = scan.machines) w := by
  unfold fallback
  split
  · apply ensures_talos
    intro rep
    exact ⟨rfl, rfl⟩
  · exact ⟨rfl, rfl⟩

/-- A seeding that succeeds has made all its writes. -/
theorem apply_ensures (input : SeedInputs) (w : World) :
    input.apply.Ensures World.handles
      (fun res w' => ∀ r, res = .ok r → input.Writes (input.scanOf r) w.store.db w'.store.db) w := by
  unfold apply
  split
  · exact nofun
  · apply (scanNodes_ensures input.nodes {} w).bind
    rintro res w1 ⟨rfl, hscan⟩
    cases res with
    | error e => exact nofun
    | ok scan =>
      have hmachines := hscan scan rfl
      show Program.Ensures _ _ (if scan.machines = [] then _ else _) _
      split
      · exact nofun
      · apply (fallback_ensures scan w1).bind
        rintro scan1 w2 ⟨rfl, hfallback⟩
        apply (write_ensures scan1 w2).bind
        intro res w3 hwrite
        cases res with
        | some e => exact nofun
        | none =>
          rintro r ⟨⟩
          have hof : input.scanOf ⟨input.cluster, pools scan1, scan1.machines.length,
              scan1.clusterTalos, scan1.clusterK8s⟩ = scan1 := by
            rw [scanOf, machines, ← List.nil_append (List.map _ _), ← hmachines, ← hfallback]
          rw [hof]
          exact hwrite rfl

/-! ## The result -/

/-- The world, with a Talos lookup that always gives the same answers. -/
def lookup (f : String → Except String String) (w : World) : Ev → World → Prop
  | ⟨.talos _ (.version addr), rep⟩, w' => rep = f addr ∧ w' = w
  | e, w' => w.handles e w'

theorem handles_of_lookup {f : String → Except String String} {w w' : World} {e : Ev}
    (h : lookup f w e w') : w.handles e w' := by
  obtain ⟨op, rep⟩ := e
  cases op with
  | talos client top =>
    cases top with
    | version addr => exact h.2
    | _ => exact h
  | _ => exact h

/-- Answers to everything, with the lookup's own. -/
def lookupOracle (f : String → Except String String) : Oracle
  | .talos _ (.version addr) => f addr
  | op => Oracle.working "" [] op

theorem lookup_answer (f : String → Except String String) (w : World) (op : Op) :
    lookup f w ⟨op, (w.answer (lookupOracle f) op).1⟩ (w.answer (lookupOracle f) op).2 := by
  have hanswer := w.answer_handles (lookupOracle f) op
  cases op with
  | talos client top =>
    cases top with
    | version addr => exact ⟨rfl, rfl⟩
    | _ => exact hanswer
  | _ => exact hanswer

section Result

variable {f : String → Except String String}

theorem ensures_lookup {α : Type} {Q : α → World → Prop} {client : Client} {addr : String}
    {next : Except String String → Prog α} (h : (next (f addr)).Ensures (lookup f) Q w) :
    (callTalos client (.version addr) >>= next).Ensures (lookup f) Q w := by
  refine ⟨⟨f addr, w, rfl, rfl⟩, ?_⟩
  rintro rep w' ⟨rfl, rfl⟩
  exact h

theorem scanNodes_result (input : SeedInputs) (nodes : List NodeInfo) (scan : SeedScan) :
    ∃ scan0, ∀ w, (input.scanNodes nodes scan).Ensures (lookup f)
      (fun res _ => ∀ scan', res = .ok scan' → scan' = scan0) w := by
  induction nodes generalizing scan with
  | nil => exact ⟨scan, fun w scan' h => (Except.ok.inj h).symm⟩
  | cons n nodes ih =>
    unfold scanNodes
    split
    · exact ⟨scan, fun w => nofun⟩
    · cases hf : f n.internalIP with
      | error e =>
        refine ⟨scan, fun w => ensures_lookup ?_⟩
        rw [hf]
        exact nofun
      | ok tv =>
        obtain ⟨scan0, hscan⟩ := ih (noteNode scan n tv)
        refine ⟨scan0, fun w => ensures_lookup ?_⟩
        rw [hf]
        exact hscan w

theorem fallback_result (input : SeedInputs) (scan : SeedScan) :
    ∃ scan0, ∀ w, (input.fallback scan).Ensures (lookup f) (fun scan' _ => scan' = scan0) w := by
  unfold fallback
  split
  · exact ⟨_, fun w => ensures_lookup rfl⟩
  · exact ⟨scan, fun w => rfl⟩

/-- With the same input and the same lookup a seeding that succeeds reports the same. -/
theorem apply_result (input : SeedInputs) (f : String → Except String String) :
    ∃ r0, ∀ w, input.apply.Ensures (lookup f) (fun res _ => ∀ r, res = .ok r → r = r0) w := by
  obtain ⟨scan, hscan⟩ := input.scanNodes_result (f := f) input.nodes {}
  obtain ⟨scan1, hfallback⟩ := input.fallback_result (f := f) scan
  refine ⟨⟨input.cluster, pools scan1, scan1.machines.length, scan1.clusterTalos, scan1.clusterK8s⟩, ?_⟩
  intro w
  unfold apply
  split
  · exact nofun
  · apply (hscan w).bind
    intro res w1 hres
    cases res with
    | error e => exact nofun
    | ok scan' =>
      obtain rfl := hres scan' rfl
      show Program.Ensures _ _ (if scan'.machines = [] then _ else _) _
      split
      · exact nofun
      · apply (hfallback w1).bind
        rintro scan' w2 rfl
        apply (Program.ensures_of_answers (fun w op => ⟨_, _, lookup_answer f w op⟩) _ w2).bind
        intro res w3 _
        cases res with
        | some e => exact nofun
        | none => exact fun r hr => (Except.ok.inj hr).symm

end Result

end SeedInputs

end Medea
