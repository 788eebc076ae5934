import Medea.ControlPlane.History
import Medea.Interaction.Outcome
import Medea.Properties.Revisions

/-!
# Failures of a refresh

A refresh pass replaces whole entries of the observed cache. `entries_pass` says what becomes of the
entries of one cluster: they follow from its own record, machines, answers and entries, whatever the other
clusters answer. If the nodes of a cluster cannot be listed, its machines keep their entries, but the entry
of the cluster is replaced by an empty one: not only the control plane is shown as not ready, the observed
version is gone too. `refresh_contained_iff`: a pass contains the failures of clusters if and only if no
cluster whose nodes cannot be listed had an observed version.
-/

set_option autoImplicit false
set_option maxRecDepth 100000

namespace Medea

open Medea.Interaction Refresher

namespace Refreshing

/-! ## Entries and answers -/

/-- What is observed of a cluster and of its machines. -/
@[ext]
structure Entries where
  cluster : Option ClusterObserved
  machines : String → Option MachineObserved

def entries (c : String) (s : Store) : Entries :=
  ⟨s.obsCluster[c]?, fun addr => s.obsMachine[ckey c addr]?⟩

/-- The observed version of Kubernetes; a missing entry reads as an empty one. -/
def Entries.version (e : Entries) : String := (e.cluster.map (·.kubernetesVersion)).getD ""

def Entries.ready (e : Entries) : Bool := (e.cluster.map (·.controlPlaneReady)).getD false

/-- The store after a program that runs alone. -/
def after {α : Type} (oracle : Oracle) (p : Prog α) (s : Store) : Store :=
  (p.runAlone (fun w : World => w.answer oracle) ⟨s⟩).2.store

/-- One pass. -/
def pass (oracle : Oracle) (s : Store) : Store := after oracle Refresher.once s

/-- The operation is a question to the cluster. -/
def asks (c : String) : Op → Prop
  | .connect cl _ => cl.name = c
  | .kube client _ _ => client.cluster = c
  | .talos client _ => client.cluster = c
  | _ => False

/-- The clients of a cluster. -/
def client (cl : Cluster) : Client := { cluster := cl.name, work := .refresh }

/-- There are clients, but the nodes cannot be listed. -/
def Unlisted (oracle : Oracle) (cl : Cluster) : Prop :=
  oracle (.connect cl .refresh) = .ok () ∧ ∃ e, oracle (.kube (client cl) "" .listNodes) = .error e

/-- Two stores and the answers of two outsides are the same for one cluster. -/
structure Own (c : String) (s s' : Store) (oracle oracle' : Oracle) : Prop where
  listed : s.listClusters.find? (·.name == c) = s'.listClusters.find? (·.name == c)
  machines : s.listMachines c "" = s'.listMachines c ""
  entries : entries c s = entries c s'
  answers : ∀ op, asks c op → oracle op = oracle' op

/-- The names of the listed clusters are free of the separator of keys. -/
def Separable (s : Store) : Prop := ∀ cl ∈ s.listClusters, PlainName cl.name

/-- The failures of a pass are contained. -/
structure Contained (s : Store) (oracle : Oracle) : Prop where
  /-- The entries of a cluster depend on what is its own. -/
  own : ∀ c s' oracle', PlainName c → s'.Revisions → Separable s' → Own c s s' oracle oracle' →
    entries c (pass oracle s) = entries c (pass oracle' s')
  /-- Where the nodes cannot be listed, only the flag changes. -/
  unlisted : ∀ cl ∈ s.listClusters, Unlisted oracle cl →
    (entries cl.name (pass oracle s)).ready = false ∧
      (entries cl.name (pass oracle s)).version = (entries cl.name s).version ∧
      (entries cl.name (pass oracle s)).machines = (entries cl.name s).machines

/-! ## One cluster -/

/-- What a cluster answers in a pass. -/
inductive Report where
  | noClients
  | noNodes
  | nodes (ns : List NodeInfo) (version : String → Except String String)

def report (oracle : Oracle) (cl : Cluster) : Report :=
  match oracle (.connect cl .refresh) with
  | .error _ => .noClients
  | .ok () =>
    match oracle (.kube (client cl) "" .listNodes) with
    | .error _ => .noNodes
    | .ok ns => .nodes ns fun addr => oracle (.talos (client cl) (.version addr))

/-- The entries after a report, for machines at the given addresses. -/
def Report.refresh (addrs : List String) (e : Entries) : Report → Entries
  | .noClients => e
  | .noNodes => { e with cluster := some {} }
  | .nodes ns version =>
    ⟨some (Refresher.observedCluster ns), fun addr =>
      if addr ∈ addrs then some (Refresher.observedMachine ns addr (version addr)) else e.machines addr⟩

/-- The addresses of the machines of a cluster. -/
def addresses (c : String) (s : Store) : List String := (s.listMachines c "").map (·.talosEndpoint)

theorem addresses_of_db {s s' : Store} (h : s'.db = s.db) (c : String) :
    addresses c s' = addresses c s := by
  simp [addresses, Store.listMachines, h, Function.comp_def]

section Writes

variable {c d : String} (s : Store)

theorem entries_setCluster (o : ClusterObserved) :
    entries c (s.setClusterObserved c o) = { entries c s with cluster := some o } := by
  simp [entries, Store.setClusterObserved]

theorem entries_setMachine (addr : String) (o : MachineObserved) :
    entries c (s.setMachineObserved c addr o) =
      ⟨(entries c s).cluster, Function.update (entries c s).machines addr (some o)⟩ := by
  ext1
  · rfl
  funext a
  show (Std.ExtTreeMap.insert s.obsMachine (ckey c addr) o)[ckey c a]? = _
  rw [Bucket.get_insert]
  by_cases ha : a = addr
  · simp [ha]
  · rw [if_neg fun h => ha (ckey_right h).symm]
    simp [ha, entries]

/-- What is written for another cluster. -/
theorem entries_setCluster_ne (h : d ≠ c) (o : ClusterObserved) :
    entries c (s.setClusterObserved d o) = entries c s := by
  ext1
  · exact (Bucket.get_insert ..).trans (if_neg h)
  · rfl

theorem entries_setMachine_ne (hd : PlainName d) (hc : PlainName c) (h : d ≠ c) (addr : String)
    (o : MachineObserved) : entries c (s.setMachineObserved d addr o) = entries c s := by
  ext1
  · rfl
  · funext a
    exact (Bucket.get_insert ..).trans (if_neg fun heq => h (ckey_inj hd hc heq).1)

end Writes

section Pass

variable (oracle : Oracle)

section Calls

variable {α β : Type} (s : Store)

theorem after_connect (cl : Cluster) (k : Except String Unit → Prog α) :
    after oracle (call (.connect cl .refresh) >>= k) s =
      after oracle (k (oracle (.connect cl .refresh))) s := rfl

theorem after_kube (c : Client) (member : String) (op : KubeOp) (k : Except String op.Value → Prog α) :
    after oracle (callKube c member op >>= k) s = after oracle (k (oracle (.kube c member op))) s := rfl

theorem after_store (op : StoreOp) (k : Except StoreError op.Value → Prog α) :
    after oracle (callStore op >>= k) s = after oracle (k (op.exec s).1) (op.exec s).2 := rfl

theorem after_bind {s s' : Store} {p : Prog α} {f : α → Prog β}
    (h : ∀ a, after oracle (f a) (after oracle p s) = s') : after oracle (p >>= f) s = s' :=
  (congrArg (fun r : β × World => r.2.store) (Program.runAlone_bind p f _)).trans (h _)

end Calls

/-- The machines of a cluster, one after the other. -/
def refreshed (c : String) (ns : List NodeInfo) (version : String → Except String String) :
    List Machine → Store → Store
  | [], s => s
  | m :: ms, s => refreshed c ns version ms (s.setMachineObserved c m.talosEndpoint
      (Refresher.observedMachine ns m.talosEndpoint (version m.talosEndpoint)))

theorem after_forEach (cl : Cluster) (ns : List NodeInfo) (ms : List Machine) (s : Store) :
    after oracle (Program.forEach (refreshMachine (client cl) ns) ms) s =
      refreshed cl.name ns (fun addr => oracle (.talos (client cl) (.version addr))) ms s := by
  induction ms generalizing s with
  | nil => rfl
  | cons m ms ih => exact ih _

/-- The refresh of a cluster, by its report. -/
theorem after_refreshCluster (cl : Cluster) (s : Store) :
    after oracle (refreshCluster cl) s =
      match report oracle cl with
      | .noClients => s
      | .noNodes => s.setClusterObserved cl.name {}
      | .nodes ns version =>
        (refreshed cl.name ns version (s.listMachines cl.name "") s).setClusterObserved cl.name
          (observedCluster ns) := by
  rw [refreshCluster, after_connect, report]
  cases oracle (.connect cl .refresh) with
  | error e => rfl
  | ok u =>
    dsimp only
    rw [after_kube, client]
    cases oracle (.kube { cluster := cl.name, work := .refresh } "" .listNodes) with
    | error e => rfl
    | ok ns =>
      dsimp only
      rw [after_store]
      refine after_bind oracle fun _ => ?_
      exact congrArg (Store.setClusterObserved cl.name (observedCluster ns))
        (after_forEach oracle cl ns _ s)

end Pass

section Refreshed

variable {oracle : Oracle} {c : String} {ns : List NodeInfo} {version : String → Except String String}

theorem entries_refreshed (ms : List Machine) (s : Store) :
    entries c (refreshed c ns version ms s) = ⟨(entries c s).cluster, fun addr =>
      if addr ∈ ms.map (·.talosEndpoint) then some (observedMachine ns addr (version addr))
      else (entries c s).machines addr⟩ := by
  induction ms generalizing s with
  | nil => rfl
  | cons m ms ih =>
    rw [refreshed, ih, entries_setMachine]
    ext1
    · rfl
    funext addr
    by_cases hmem : addr ∈ ms.map (·.talosEndpoint)
    · simp only [hmem, List.map_cons, List.mem_cons, or_true, if_true]
    · by_cases haddr : addr = m.talosEndpoint
      · subst haddr
        simp only [hmem, List.map_cons, List.mem_cons, true_or, if_true, if_false, Function.update_self]
      · simp only [hmem, haddr, List.map_cons, List.mem_cons, or_false, if_false, ne_eq,
          not_false_eq_true, Function.update_of_ne]

theorem entries_refreshed_ne {d : String} (hd : PlainName d) (hc : PlainName c) (h : d ≠ c)
    (ms : List Machine) (s : Store) : entries c (refreshed d ns version ms s) = entries c s := by
  induction ms generalizing s with
  | nil => rfl
  | cons m ms ih => rw [refreshed, ih, entries_setMachine_ne s hd hc h]

theorem db_refreshed (ms : List Machine) (s : Store) : (refreshed c ns version ms s).db = s.db := by
  induction ms generalizing s with
  | nil => rfl
  | cons m ms ih => exact ih _

/-- A cluster gets the entries that its report asks for. -/
theorem entries_refreshCluster (cl : Cluster) (s : Store) :
    entries cl.name (after oracle (refreshCluster cl) s) =
      (report oracle cl).refresh (addresses cl.name s) (entries cl.name s) := by
  rw [after_refreshCluster]
  cases report oracle cl with
  | noClients => rfl
  | noNodes => exact entries_setCluster s _
  | nodes ns version =>
    dsimp only
    rw [entries_setCluster, entries_refreshed]
    rfl

/-- Refreshing a cluster keeps the entries of the others. -/
theorem entries_refreshCluster_ne {cl : Cluster} (hcl : PlainName cl.name) (hc : PlainName c)
    (h : cl.name ≠ c) (s : Store) :
    entries c (after oracle (refreshCluster cl) s) = entries c s := by
  rw [after_refreshCluster]
  cases report oracle cl with
  | noClients => rfl
  | noNodes => exact entries_setCluster_ne s h _
  | nodes ns version =>
    dsimp only
    rw [entries_setCluster_ne _ h, entries_refreshed_ne hcl hc h]

theorem db_refreshCluster (cl : Cluster) (s : Store) :
    (after oracle (refreshCluster cl) s).db = s.db := by
  rw [after_refreshCluster]
  cases report oracle cl with
  | noClients => rfl
  | noNodes => rfl
  | nodes ns version => exact db_refreshed _ s

end Refreshed

/-! ## All clusters -/

section All

variable {oracle : Oracle} {c : String} {s : Store}

theorem after_refreshAll (cl : Cluster) (cls : List Cluster) (s : Store) :
    after oracle (refreshAll (cl :: cls)) s =
      after oracle (refreshAll cls) (after oracle (refreshCluster cl) s) := by
  rw [refreshAll]
  refine after_bind oracle fun result => after_bind oracle fun errs => ?_
  cases result with
  | error e => rfl
  | ok u => rfl

/-- The entries of a cluster after the listed clusters, of which at most one has its name. -/
theorem entries_refreshAll (hc : PlainName c) {cls : List Cluster} (hplain : ∀ cl ∈ cls, PlainName cl.name)
    (hnames : cls.Pairwise fun cl cl' => cl.name ≠ cl'.name) (s : Store) :
    entries c (after oracle (refreshAll cls) s) =
      match cls.find? (·.name == c) with
      | none => entries c s
      | some cl => (report oracle cl).refresh (addresses c s) (entries c s) := by
  induction cls generalizing s with
  | nil => rfl
  | cons cl cls ih =>
    have hrest := fun s => ih (fun cl' h => hplain cl' (List.mem_cons_of_mem _ h)) hnames.of_cons s
    rw [after_refreshAll, hrest, addresses_of_db (db_refreshCluster cl s)]
    by_cases hcl : cl.name = c
    · -- no other one has the name
      have hnone : cls.find? (·.name == c) = none := by
        rw [List.find?_eq_none]
        intro cl' hcl' heq
        exact (List.pairwise_cons.1 hnames).1 cl' hcl' (hcl.trans (eq_of_beq heq).symm)
      subst hcl
      rw [hnone, List.find?_cons_of_pos (by simp)]
      exact entries_refreshCluster cl s
    · rw [entries_refreshCluster_ne (hplain cl List.mem_cons_self) hc hcl,
        List.find?_cons_of_neg (by simpa using hcl)]

theorem names_listClusters (hs : s.Revisions) :
    s.listClusters.Pairwise fun cl cl' => cl.name ≠ cl'.name := by
  rw [Store.listClusters, List.pairwise_map]
  refine (Std.ExtTreeMap.distinct_keys_toList (t := s.db.clusters)).imp_of_mem ?_
  rintro ⟨k, cl⟩ ⟨k', cl'⟩ hk hk' hne hname
  have hkey := hs.cluster_key (Std.ExtTreeMap.mem_toList_iff_getElem?_eq_some.1 hk)
  have hkey' := hs.cluster_key (Std.ExtTreeMap.mem_toList_iff_getElem?_eq_some.1 hk')
  exact hne (Std.compare_eq_iff_eq.2 (hkey.symm.trans (hname.trans hkey')))

/-- What becomes of the entries of a cluster in a pass. -/
theorem entries_pass (hs : s.Revisions) (hplain : Separable s) (hc : PlainName c) :
    entries c (pass oracle s) =
      match s.listClusters.find? (·.name == c) with
      | none => entries c s
      | some cl => (report oracle cl).refresh (addresses c s) (entries c s) :=
  entries_refreshAll hc hplain (names_listClusters hs) s

theorem find_listed (hs : s.Revisions) {cl : Cluster} (hcl : cl ∈ s.listClusters) :
    s.listClusters.find? (·.name == cl.name) = some cl := by
  obtain ⟨pre, post, hlist⟩ := List.append_of_mem hcl
  have hnames := names_listClusters hs
  rw [hlist] at hnames ⊢
  rw [List.find?_append, List.find?_eq_none.2, Option.none_or, List.find?_cons_of_pos (by simp)]
  intro cl' hcl' heq
  exact (List.pairwise_append.1 hnames).2.2 cl' hcl' cl List.mem_cons_self (eq_of_beq heq)

/-- The report is made of the answers of the cluster. -/
theorem report_congr {oracle' : Oracle} {cl : Cluster}
    (h : ∀ op, asks cl.name op → oracle op = oracle' op) : report oracle cl = report oracle' cl := by
  have htalos : ∀ addr, oracle (.talos (client cl) (.version addr)) =
      oracle' (.talos (client cl) (.version addr)) := fun addr => h _ rfl
  simp only [report, h (.connect cl .refresh) rfl, h (.kube (client cl) "" .listNodes) rfl, htalos]

theorem own_pass (hs : s.Revisions) (hplain : Separable s) {s' : Store} {oracle' : Oracle}
    (hc : PlainName c) (hs' : s'.Revisions) (hplain' : Separable s')
    (h : Own c s s' oracle oracle') : entries c (pass oracle s) = entries c (pass oracle' s') := by
  have haddrs : addresses c s = addresses c s' := congrArg (List.map _) h.machines
  rw [entries_pass hs hplain hc, entries_pass hs' hplain' hc, ← h.listed, haddrs, h.entries]
  cases hfind : s.listClusters.find? (·.name == c) with
  | none => rfl
  | some cl =>
    obtain rfl : cl.name = c := by simpa using List.find?_some hfind
    dsimp only
    rw [report_congr h.answers]

/-- The nodes cannot be listed: the entry of the cluster is an empty one. -/
theorem entries_unlisted (hs : s.Revisions) (hplain : Separable s) {cl : Cluster}
    (hcl : cl ∈ s.listClusters) (h : Unlisted oracle cl) :
    entries cl.name (pass oracle s) = ⟨some {}, (entries cl.name s).machines⟩ := by
  obtain ⟨hclients, e, hnodes⟩ := h
  rw [entries_pass hs hplain (hplain cl hcl), find_listed hs hcl]
  simp only [report, hclients, hnodes, Report.refresh]

end All

end Refreshing

open Refreshing in
/-- The failures of a refresh pass are contained, if and only if no cluster whose nodes cannot be listed
had an observed version of Kubernetes. -/
theorem refresh_contained_iff {s : Store} (hs : s.Revisions) (hplain : Separable s) (oracle : Oracle) :
    Contained s oracle ↔
      ∀ cl ∈ s.listClusters, Unlisted oracle cl → (entries cl.name s).version = "" := by
  constructor
  · intro h cl hcl hun
    have hkept := (h.unlisted cl hcl hun).2.1
    rw [entries_unlisted hs hplain hcl hun] at hkept
    exact hkept.symm
  · intro h
    refine ⟨fun c s' oracle' => own_pass hs hplain, fun cl hcl hun => ?_⟩
    rw [entries_unlisted hs hplain hcl hun]
    exact ⟨rfl, (h cl hcl hun).symm, rfl⟩

namespace Refreshing

/-! ## Passes over one cluster -/

instance (s : Store) : Decidable (Separable s) :=
  inferInstanceAs (Decidable (∀ cl ∈ s.listClusters, PlainName cl.name))

/-- The API server does not answer. -/
def unreachable : Oracle
  | .kube _ _ .listNodes => .error "connection refused"
  | op => Oracle.working "v1.7.0" [Script.node] op

/-- A cluster that is seeded, and refreshed once when it has the given node. -/
def refreshedWith (node : NodeInfo) : List Lbl × State :=
  runScript Script.settings
    (Script.armed ++ Script.run .refresher .refresh 20 (.working "v1.7.0" [node])) State.initial

def refreshedOnce : List Lbl × State := refreshedWith Script.node

/-- The node has not reported a version yet. -/
def refreshedEarly : List Lbl × State := refreshedWith { Script.node with kubeletVersion := "" }

theorem revisions_script (cfg : Settings) (moves : List Move) :
    (runScript cfg moves State.initial).2.world.store.Revisions := by
  have hr := reaches_script cfg moves
  rw [hr.store_eq]
  exact Revisions.of_history hr.history.1

end Refreshing

open Refreshing in
/-- The machine has been observed, and no version of the cluster yet. -/
theorem first_pass_contained :
    ((entries "c" refreshedEarly.2.world.store).machines "10.0.0.1").map (·.talosVersion) = some "v1.7.0" ∧
      Contained refreshedEarly.2.world.store unreachable := by
  have hversion : ∀ cl ∈ refreshedEarly.2.world.store.listClusters,
      (entries cl.name refreshedEarly.2.world.store).version = "" := by decide +kernel
  refine ⟨by decide +kernel, ?_⟩
  exact (refresh_contained_iff (revisions_script _ _) (by decide +kernel) unreachable).2 fun cl hcl _ =>
    hversion cl hcl

open Refreshing in
/-- The second pass does not reach the cluster, and its version is gone. -/
theorem version_forgotten :
    Reaches Script.settings refreshedOnce.1 refreshedOnce.2 ∧
      (entries "c" refreshedOnce.2.world.store).version = "v1.30.0" ∧
      (entries "c" (pass unreachable refreshedOnce.2.world.store)).version = "" ∧
      ¬Contained refreshedOnce.2.world.store unreachable := by
  have hbefore : (entries "c" refreshedOnce.2.world.store).version = "v1.30.0" := by decide +kernel
  have hafter : (entries "c" (pass unreachable refreshedOnce.2.world.store)).version = "" := by
    decide +kernel
  refine ⟨reaches_script _ _, hbefore, hafter, fun h => ?_⟩
  have hlisted : refreshedOnce.2.world.store.listClusters.map (·.name) = ["c"] := by decide +kernel
  obtain ⟨cl, hcl, hname⟩ : ∃ cl ∈ refreshedOnce.2.world.store.listClusters, cl.name = "c" :=
    List.mem_map.1 (hlisted ▸ List.mem_cons_self)
  have hkept := (h.unlisted cl hcl ⟨rfl, _, rfl⟩).2.1
  rw [hname, hbefore, hafter] at hkept
  exact absurd hkept (by decide)

end Medea
