import Medea.ControlPlane.Tools

/-!
# The form of the kube endpoint

Two writers record the endpoint of a cluster and one reader uses it. Seeding stores the server of a
kubeconfig as it is, the bootstrap executor stores the endpoint of its record without the scheme, and
the provisioning reconciler puts the scheme in front of what is stored. `endpoint_agrees_iff` says what
comes of it: in every run, the endpoint that is passed to the generator of worker configurations is made
from the last recording of the cluster before the pass has read it, and it is the URL of that recording
just in case the bootstrap executor has made it. A cluster that was seeded from `https://k` gets
`https://https://k` (`seeded_twice_schemed`).
-/

set_option autoImplicit false
set_option maxRecDepth 100000

namespace Medea

open Medea.Interaction

/-! ## Seeding from a kubeconfig -/

/-- What is taken from client-go: the host of the configuration that is made of a kubeconfig. -/
structure ClientGo where
  host : Bytes → Except String String

/-- `kube.ServerHost`. -/
def serverHost (lib : ClientGo) (kubeconfig : Bytes) : Except String String := lib.host kubeconfig

/-- `runSeed`, up to the inputs of the seeding. -/
def runSeed (lib : ClientGo) (cluster : String) (kubeconfig : Bytes) (endpoints : List String)
    (nodes : List NodeInfo) : Except String SeedInputs :=
  match serverHost lib kubeconfig with
  | .error e => .error e
  | .ok kubeHost => .ok
      { cluster, kubeEndpoint := kubeHost, nodes
        talosEndpoints := if endpoints.isEmpty then
          (nodes.filter (·.role == "controlplane")).map (·.internalIP) else endpoints }

theorem runSeed_endpoint {lib : ClientGo} {cluster : String} {kubeconfig : Bytes}
    {endpoints : List String} {nodes : List NodeInfo} {input : SeedInputs}
    (h : runSeed lib cluster kubeconfig endpoints nodes = .ok input) :
    serverHost lib kubeconfig = .ok input.kubeEndpoint := by
  rw [runSeed] at h
  cases hhost : serverHost lib kubeconfig with
  | error e =>
    rw [hhost] at h
    cases h
  | ok url =>
    rw [hhost] at h
    cases h
    rfl

namespace KubeEndpoint

/-! ## Recordings -/

/-- The API server that a cluster was recorded from. -/
inductive Source where
  | kubeconfig (server : String)
  | bootstrap (cpEndpoint : String)

namespace Source

def url : Source → String
  | .kubeconfig server => server
  | .bootstrap cpEndpoint => cpEndpoint

def byBootstrap : Source → Bool
  | .kubeconfig _ => false
  | .bootstrap _ => true

/-- The endpoint that is stored. -/
def stored : Source → String
  | .kubeconfig server => server
  | .bootstrap cpEndpoint => trimLeading cpEndpoint "https://"

end Source

/-- The label at a position records a cluster: from the server of a kubeconfig that is seeded, or from
the endpoint of a bootstrap record that was read. -/
inductive Recorded (lib : ClientGo) (ls : List ToolLbl) (j : Nat) (name : String) : Source → Prop
  | seed {i : Who} {cl : Cluster} {expected rev : Nat} {input : SeedInputs} {es : Trace medeaSig}
      {cluster : String} {kubeconfig : Bytes} {endpoints : List String} {nodes : List NodeInfo}
      {server : String} :
      ls[j]? = some (.act i (ev (.store (.putClusterDesired cl expected)) (.ok rev))) →
      cl.name = name → work (ls.take j) i = some (.task (.seed input), es) →
      runSeed lib cluster kubeconfig endpoints nodes = .ok input →
      serverHost lib kubeconfig = .ok server → Recorded lib ls j name (.kubeconfig server)
  | bootstrap {i : Who} {cb : ClusterBootstrap} {expected rev : Nat} {es : Trace medeaSig}
      {cluster : String} :
      ls[j]? = some (.act i (ev (.store (.putClusterDesired (BootstrapReconciler.clusterRecord cb)
        expected)) (.ok rev))) →
      cb.cluster = name → work (ls.take j) i = some (.task .bootstrapPass, es) →
      ev (.store (.getClusterBootstrap cluster)) (.ok (some cb)) ∈ es →
      Recorded lib ls j name (.bootstrap cb.cpEndpoint)

/-- The clusters that are seeded are seeded from kubeconfigs. -/
def Seeded (lib : ClientGo) (ls : List ToolLbl) : Prop :=
  ∀ i input, Label.start i (.task (.seed input)) ∈ ls → ∃ cluster kubeconfig endpoints nodes,
    runSeed lib cluster kubeconfig endpoints nodes = .ok input

/-- An https URL with one scheme. -/
def OneScheme (url : String) : Prop :=
  ∃ rest, url = "https://" ++ rest ∧ ¬"https://".toList <+: rest.toList

/-- The cluster is put under the name at a position, and not as a change of what is there. -/
def Founded (ls : List ToolLbl) (j : Nat) (name : String) (cl : Cluster) : Prop :=
  ∃ i expected rev t es,
    ls[j]? = some (.act i (ev (.store (.putClusterDesired cl expected)) (.ok rev))) ∧
      cl.name = name ∧ work (ls.take j) i = some (.task t, es) ∧ t.edits = false

section Runs

variable {lib : ClientGo} {cfg : Settings} {ls : List ToolLbl} {c : State} {name : String}
variable {cl : Cluster}

theorem Recorded.founded {j : Nat} {src : Source} (h : Recorded lib ls j name src) :
    ∃ cl, Founded ls j name cl := by
  cases h with
  | seed hn hname hwork _ _ | bootstrap hn hname hwork _ =>
    exact ⟨_, _, _, _, _, _, hn, hname, hwork, rfl⟩

section

variable (hr : ToolRuns cfg ls c)
include hr

/-- What is put at a recording has its endpoint in the form of the writer. -/
theorem Recorded.endpoint {j : Nat} {src : Source}
    (h : Recorded lib ls j name src) (hf : Founded ls j name cl) : cl.kubeEndpoint = src.stored := by
  obtain ⟨i, expected, rev, t, es, hn, -, hwork, hed⟩ := hf
  cases h with
  | seed hn' _ hwork' hread hhost =>
    rw [hn] at hn'
    cases hn'
    rw [hwork] at hwork'
    cases hwork'
    obtain ⟨t, es', hwork'', horigin⟩ := hr.cluster_origin hn
    rw [hwork] at hwork''
    cases hwork''
    rcases horigin with ⟨input, scan, heq, rfl⟩ | ⟨heq, -⟩ | ⟨heq, -⟩
    · cases heq
      have hsame := (runSeed_endpoint hread).symm.trans hhost
      exact Except.ok.inj hsame
    · cases heq
    · cases heq
  | bootstrap hn' _ _ _ =>
    rw [hn] at hn'
    cases hn'
    rfl

theorem Founded.recorded (hseed : Seeded lib ls) {j : Nat}
    (hf : Founded ls j name cl) : ∃ src, Recorded lib ls j name src := by
  obtain ⟨i, expected, rev, t, es, hn, hname, hwork, hed⟩ := hf
  obtain ⟨t', es', hwork', horigin⟩ := hr.cluster_origin hn
  rw [hwork] at hwork'
  cases hwork'
  rcases horigin with ⟨input, scan, rfl, -⟩ | ⟨rfl, cluster, cb, hread, rfl⟩ | ⟨hed', -⟩
  · obtain ⟨cluster, kubeconfig, endpoints, nodes, hrun⟩ :=
      hseed i input (List.mem_of_mem_take (start_of_work hwork))
    exact ⟨_, .seed hn hname hwork hrun (runSeed_endpoint hrun)⟩
  · exact ⟨_, .bootstrap hn hname hwork hread⟩
  · rw [hed] at hed'
    cases hed'

/-- A cluster that is put is what is stored afterwards. -/
theorem stored_of_put {n r expected rev : Nat} {i : Who} {cl0 : Cluster}
    (hn : ls[n]? = some (.act i (ev (.store (.putClusterDesired cl0 expected)) (.ok rev))))
    (he : (toolStore (ls.take (n + 1))).db.entry (.cluster, cl0.name) = some (r, .cluster cl)) :
    cl.endpoints = cl0.endpoints := by
  have hswap : (ls.map ToolLbl.plain)[n]?.bind Lbl.swapped =
      some (i, .cluster cl0, expected, rev) := by
    rw [plain_act hn]
    rfl
  have hnow := (hr.chronicle.entry_of_swapped hswap).2
  rw [toolStore, List.map_take] at he
  have hsame := Option.some.inj (he.symm.trans hnow)
  have hrecord : cl = Store.clusterTable.stamp cl0 rev := Record.cluster.inj (Prod.mk.inj hsame).2
  rw [hrecord]
  rfl

/-- A stored cluster was put by the last label, or it was there before. -/
theorem put_of_stored {n r : Nat} {l : ToolLbl} (hn : ls[n]? = some l)
    (he : (toolStore (ls.take (n + 1))).db.entry (.cluster, name) = some (r, .cluster cl)) :
    (toolStore (ls.take n)).db.entry (.cluster, name) = some (r, .cluster cl) ∨
      ∃ i cl0 expected, l = .act i (ev (.store (.putClusterDesired cl0 expected)) (.ok r)) ∧
        cl0.name = name := by
  have hplain : (ls.map ToolLbl.plain)[n]? = some l.plain := by rw [List.getElem?_map, hn]; rfl
  rw [toolStore, List.map_take] at he ⊢
  have hkey : (Desired.cluster cl).key = (.cluster, name) :=
    ((Revisions.of_history (hr.chronicle.take (n + 1))).own _ _ _ he).1
  rw [← hkey] at he ⊢
  rcases hr.chronicle.swapped_of_entry hplain he with hold | ⟨i, d, expected, hsw, hd, hv⟩
  · exact Or.inl hold
  · right
    rw [hkey] at hd
    obtain ⟨op, rep, hl, hop, -⟩ := Lbl.swap_of_swapped hsw
    cases d with
    | cluster cl0 =>
      rcases l with ⟨j, _ | _⟩ | ⟨j, e⟩ | _
      · cases hl
      · cases hl
      · cases hl
        cases op with
        | putClusterDesired cl' e' =>
          cases hop
          cases rep with
          | error e => cases hsw
          | ok v =>
            cases hsw
            exact ⟨i, cl0, expected, rfl, congrArg Prod.snd hd⟩
        | _ => cases hop
      · cases hl
    | _ => cases hv

/-- The endpoint of a stored cluster is that of the last recording. -/
theorem stored_founded {n r : Nat}
    (he : (toolStore (ls.take n)).db.entry (.cluster, name) = some (r, .cluster cl)) :
    ∃ j < n, (∃ cl0, Founded ls j name cl0 ∧ cl0.endpoints = cl.endpoints) ∧
      ∀ k, j < k → k < n → ∀ cl', ¬Founded ls k name cl' := by
  induction n generalizing r cl with
  | zero => cases he
  | succ n ih =>
    -- one more label that records nothing
    have hlater : ∀ {cl'}, cl'.endpoints = cl.endpoints → (∀ cl'', ¬Founded ls n name cl'') →
        (∃ r', (toolStore (ls.take n)).db.entry (.cluster, name) = some (r', .cluster cl')) →
        ∃ j < n + 1, (∃ cl0, Founded ls j name cl0 ∧ cl0.endpoints = cl.endpoints) ∧
          ∀ k, j < k → k < n + 1 → ∀ cl', ¬Founded ls k name cl' := by
      rintro cl' hend hnot ⟨r', he'⟩
      obtain ⟨j, hj, ⟨cl0, hf, hend0⟩, hlast⟩ := ih he'
      refine ⟨j, Nat.lt_succ_of_lt hj, ⟨cl0, hf, hend0.trans hend⟩, ?_⟩
      intro k hjk hk
      rcases Nat.lt_succ_iff_lt_or_eq.1 hk with hk | rfl
      · exact hlast k hjk hk
      · exact hnot
    cases hl : ls[n]? with
    | none =>
      rw [List.take_add_one, hl, Option.toList_none, List.append_nil] at he
      refine hlater rfl ?_ ⟨r, he⟩
      rintro cl' ⟨i, expected, rev, t, es, hn, -⟩
      rw [hl] at hn
      cases hn
    | some l =>
      by_cases hput : ∃ i cl0 expected rev,
          l = .act i (ev (.store (.putClusterDesired cl0 expected)) (.ok rev)) ∧ cl0.name = name
      · obtain ⟨i, cl0, expected, rev, rfl, rfl⟩ := hput
        have hend := stored_of_put hr hl he
        obtain ⟨t, es, hwork, horigin⟩ := hr.cluster_origin hl
        cases hed : t.edits with
        | false =>
          refine ⟨n, Nat.lt_succ_self n,
            ⟨cl0, ⟨i, expected, rev, t, es, hl, rfl, hwork, hed⟩, hend.symm⟩, ?_⟩
          intro k hnk hk
          omega
        | true =>
          -- a change: the endpoints are those of the cluster before
          rcases horigin with ⟨input, scan, rfl, -⟩ | ⟨rfl, -⟩ | ⟨-, r0, c0, he0, hend0⟩
          · cases hed
          · cases hed
          · refine hlater (hend0.trans hend.symm) ?_ ⟨r0, he0⟩
            rintro cl' ⟨i', expected', rev', t', es', hn', -, hwork', hed'⟩
            rw [hl] at hn'
            cases hn'
            rw [hwork] at hwork'
            cases hwork'
            rw [hed] at hed'
            cases hed'
      · rcases put_of_stored hr hl he with hold | ⟨i, cl0, expected, rfl, hname⟩
        · refine hlater rfl ?_ ⟨r, hold⟩
          rintro cl' ⟨i, expected, rev, t, es, hn, hname, -⟩
          rw [hl] at hn
          exact hput ⟨i, cl', expected, rev, Option.some.inj hn, hname⟩
        · exact absurd ⟨i, cl0, expected, r, rfl, hname⟩ hput

/-- A cluster as a pass has read it, and the stored one. -/
theorem stored_of_read {m rev : Nat} {i : Who}
    (hm : ls[m]? = some (.act i (ev (.store (.getCluster name)) (.ok (some cl, rev))))) :
    cl.name = name ∧ ∃ cl0, (toolStore (ls.take m)).db.entry (.cluster, name) =
      some (rev, .cluster cl0) ∧ cl0.endpoints = cl.endpoints := by
  have hfit := hr.chronicle.fits (plain_act hm)
  rcases LostUpdates.found_entry hfit rfl with ⟨hnone, -⟩ | ⟨v, v', hcur, he, hcopy⟩
  · cases hnone
  · cases hcur
    have hkey := ((Revisions.of_history (hr.chronicle.take m)).own _ _ _ he).1
    rw [← hcopy.key_eq] at hkey
    refine ⟨congrArg Prod.snd hkey, ?_⟩
    rw [toolStore, List.map_take]
    cases hcopy with
    | cluster cl0 o => exact ⟨cl0, he, rfl⟩
    | same => exact ⟨cl, he, rfl⟩

/-- A worker configuration is rendered from a cluster that the pass has read. -/
theorem read_of_rendered {n : Nat} {input : GeneratorInput}
    {rep : Except String Bytes}
    (hn : ls[n]? = some (.act .provisioning (ev (.machinery (.workerConfig input)) rep))) :
    ∃ m < n, ∃ cl rev,
      ls[m]? = some (.act .provisioning (ev (.store (.getCluster input.clusterName))
        (.ok (some cl, rev)))) ∧ input.controlPlaneEndpoint = "https://" ++ cl.kubeEndpoint := by
  obtain ⟨a, es, next, hwork, hmay, hsteps⟩ := hr.duty_of_act hn
  cases a with
  | edit op => cases hmay
  | task t =>
    cases t with
    | provisionPass =>
      obtain ⟨cluster, cl, rev, hread, hname, hend⟩ :=
        (cfg.provisionPass_provides.of_steps hsteps rep).renders
      obtain ⟨m, hlt, hm⟩ := before_of_work hwork hread
      have hcl := (stored_of_read hr hm).1
      rw [← hcl, ← hname] at hm
      exact ⟨m, hlt, cl, rev, hm, hend⟩
    | _ => cases hmay

end

end Runs

/-! ## The form -/

/-- The reader gets the URL back just in case the writer was the bootstrap executor. -/
theorem Source.read_eq_iff {src : Source} (h : OneScheme src.url) :
    "https://" ++ src.stored = src.url ↔ src.byBootstrap = true := by
  obtain ⟨rest, hurl, -⟩ := h
  cases src with
  | kubeconfig server =>
    refine ⟨fun heq => ?_, nofun⟩
    -- one scheme more than the server has
    have hlen := congrArg String.length heq
    rw [String.length_append] at hlen
    have hscheme : "https://".length = 8 := by decide
    simp only [Source.stored, Source.url] at hlen
    omega
  | bootstrap cpEndpoint =>
    obtain rfl : cpEndpoint = "https://" ++ rest := hurl
    refine ⟨fun _ => rfl, fun _ => ?_⟩
    show "https://" ++ trimLeading ("https://" ++ rest) "https://" = "https://" ++ rest
    rw [trimLeading_append]

/-- In every run, a worker configuration is rendered with the URL that the cluster was recorded from, and
one scheme, if and only if the bootstrap executor has made the last recording before the pass has read the
cluster. -/
theorem endpoint_agrees_iff (lib : ClientGo) {cfg : Settings} {ls : List ToolLbl} {c : State}
    (hr : ToolRuns cfg ls c) (hseed : Seeded lib ls) {n : Nat} {input : GeneratorInput}
    {rep : Except String Bytes}
    (hn : ls[n]? = some (.act .provisioning (ev (.machinery (.workerConfig input)) rep))) :
    ∃ m < n, ∃ j < m,
      (∃ cl rev, ls[m]? = some (.act .provisioning
        (ev (.store (.getCluster input.clusterName)) (.ok (some cl, rev))))) ∧
      (∃ src, Recorded lib ls j input.clusterName src) ∧
      (∀ k, j < k → k < m → ∀ src, ¬Recorded lib ls k input.clusterName src) ∧
      ∀ src, Recorded lib ls j input.clusterName src → OneScheme src.url →
        (input.controlPlaneEndpoint = src.url ∧ OneScheme input.controlPlaneEndpoint ↔
          src.byBootstrap = true) := by
  obtain ⟨m, hmn, cl, rev, hm, hend⟩ := read_of_rendered hr hn
  obtain ⟨-, cl1, he, hsame⟩ := stored_of_read hr hm
  obtain ⟨j, hjm, ⟨cl0, hf, hsame0⟩, hlast⟩ := stored_founded hr he
  refine ⟨m, hmn, j, hjm, ⟨cl, rev, hm⟩, hf.recorded hr hseed, ?_, ?_⟩
  · intro k hjk hkm src hsrc
    obtain ⟨cl', hf'⟩ := hsrc.founded
    exact hlast k hjk hkm cl' hf'
  · intro src hsrc hone
    have hkube : cl.kubeEndpoint = src.stored := by
      rw [← hsrc.endpoint hr hf, Cluster.kubeEndpoint, Cluster.kubeEndpoint, hsame0, hsame]
    rw [hend, hkube, ← Source.read_eq_iff hone]
    constructor
    · exact And.left
    · intro heq
      exact ⟨heq, heq.symm ▸ hone⟩

/-! ## Runs -/

def server : String := "https://10.0.0.1:6443"

theorem server_oneScheme : OneScheme server := ⟨"10.0.0.1:6443", by decide, by decide⟩

/-- A client-go that finds this server in every kubeconfig. -/
def oneServer : ClientGo := ⟨fun _ => .ok server⟩

def inputs : SeedInputs := ⟨"c", server, ["10.0.0.1"], [Script.node]⟩

theorem inputs_read : runSeed oneServer "c" [] ["10.0.0.1"] [Script.node] = .ok inputs := rfl

def task (i : Who) (t : Task) (n : Nat) : List (Cue Who Duty Oracle) :=
  Cue.task i (.task t) n (.working "v1.7.0" [Script.node])

/-- A tool adds a pool of one host, provisioning is enabled, and a pass is made. -/
def provisioned : List (Cue Who Duty Oracle) :=
  Cue.task (.client 0) (.edit (.putNodePoolDesired
      { cluster := "c", name := "p", role := .worker, replicas := 1 } 0)) 5 (.working "v1.7.0" []) ++
    task (.client 0) (.request (.registerHost { cluster := "c", mac := "a", pool := "p" })) 10 ++
    task (.client 0) (.request (.enableProvisioning "c")) 10 ++
    task .provisioning .provisionPass 30

/-- The cluster is seeded from the kubeconfig. -/
def seeded : List ToolLbl × State :=
  (toolPlayer Script.settings).play (task (.client 0) (.seed inputs) 20 ++ provisioned) State.initial

/-- The cluster is created and brought up. -/
def broughtUp : List ToolLbl × State :=
  (toolPlayer Script.settings).play
    (task (.client 0) (.request (.createCluster ⟨"c", server, "m", "10.0.0.1", "v1.7.0", "v1.30.0", "", [],
        "", false, [], true⟩)) 10 ++
      (List.replicate 8 (task .bootstrap .bootstrapPass 20)).flatten ++ provisioned) State.initial

/-- The configuration that a label renders. -/
def rendering : ToolLbl → Option GeneratorInput
  | .act .provisioning ⟨.machinery (.workerConfig input), _⟩ => some input
  | _ => none

theorem act_of_rendering {l : ToolLbl} {input : GeneratorInput} (h : rendering l = some input) :
    ∃ rep, l = .act .provisioning (ev (.machinery (.workerConfig input)) rep) := by
  unfold rendering at h
  split at h
  · cases h
    exact ⟨_, rfl⟩
  · cases h

/-- The cluster that a label puts, with the process. -/
def putting : ToolLbl → Option (Who × Cluster)
  | .act i ⟨.store (.putClusterDesired cl _), .ok _⟩ => some (i, cl)
  | _ => none

theorem act_of_putting {l : ToolLbl} {i : Who} {cl : Cluster} (h : putting l = some (i, cl)) :
    ∃ expected rev, l = .act i (ev (.store (.putClusterDesired cl expected)) (.ok rev)) := by
  unfold putting at h
  split at h
  · cases h
    exact ⟨_, _, rfl⟩
  · cases h

/-- A seeding has these inputs. -/
def seedsInputs : ToolLbl → Bool
  | .start _ (.task (.seed input)) => input == inputs
  | _ => true

theorem seeded_of_all {ls : List ToolLbl} (h : ls.all seedsInputs = true) : Seeded oneServer ls := by
  intro i input hstart
  have hinput := List.all_eq_true.1 h _ hstart
  obtain rfl : input = inputs := eq_of_beq hinput
  exact ⟨"c", [], ["10.0.0.1"], [Script.node], inputs_read⟩

/-- Nothing is seeded, and every bootstrap that is read is the one of this server. -/
def bootsServer : ToolLbl → Bool
  | .start _ (.task (.seed _)) => false
  | .act _ ⟨.store (.getClusterBootstrap _), .ok (some cb)⟩ => cb.cpEndpoint == server
  | _ => true

theorem source_of_all {lib : ClientGo} {ls : List ToolLbl} (h : ls.all bootsServer = true) {j : Nat}
    {name : String} {src : Source} (hsrc : Recorded lib ls j name src) : src = .bootstrap server := by
  rw [List.all_eq_true] at h
  cases hsrc with
  | seed _ _ hwork _ _ => cases h _ (List.mem_of_mem_take (start_of_work hwork))
  | bootstrap _ _ hwork hread =>
    have hcb := h _ (List.mem_of_mem_take (mem_of_work hwork hread))
    rw [eq_of_beq hcb]

/-- The cluster that was brought up is provisioned with the URL it was recorded from. -/
theorem broughtUp_agrees :
    ∃ input, broughtUp.1[92]?.bind rendering = some input ∧
      (∃ j < 92, Recorded oneServer broughtUp.1 j input.clusterName (.bootstrap server)) ∧
      input.controlPlaneEndpoint = server ∧ OneScheme input.controlPlaneEndpoint := by
  have hend : (broughtUp.1[92]?.bind rendering).isSome = true := by decide +kernel
  obtain ⟨input, hinput⟩ := Option.isSome_iff_exists.1 hend
  obtain ⟨l, hl, hrender⟩ := Option.bind_eq_some_iff.1 hinput
  obtain ⟨rep, rfl⟩ := act_of_rendering hrender
  obtain ⟨m, hm, j, hj, -, ⟨src, hsrc⟩, -, hiff⟩ := endpoint_agrees_iff oneServer
    ((toolPlayer Script.settings).play_runs _ State.initial) (seeded_of_all (by decide +kernel)) hl
  obtain rfl := source_of_all (by decide +kernel) hsrc
  exact ⟨input, hinput, ⟨j, by omega, hsrc⟩, (hiff _ hsrc server_oneScheme).2 rfl⟩

/-- The cluster that was seeded is provisioned with a second scheme before the server it was recorded
from. The enabling of provisioning is the only other write of the cluster. -/
theorem seeded_twice_schemed :
    ToolRuns Script.settings seeded.1 seeded.2 ∧ Seeded oneServer seeded.1 ∧
      Recorded oneServer seeded.1 3 "c" (.kubeconfig server) ∧ OneScheme server ∧
      (seeded.1.zipIdx.filter fun p => (putting p.1).isSome).map Prod.snd = [3, 18] ∧
      (seeded.1[32]?.bind rendering).map (fun input => (input.clusterName, input.controlPlaneEndpoint)) =
        some ("c", "https://https://10.0.0.1:6443") := by
  refine ⟨(toolPlayer Script.settings).play_runs _ _, seeded_of_all (by decide +kernel), ?_,
    server_oneScheme, by decide +kernel, by decide +kernel⟩
  have hput : (seeded.1[3]?.bind putting).map (fun p => (p.1, p.2.name)) = some (.client 0, "c") := by
    decide +kernel
  have htask : (work (seeded.1.take 3) (.client 0)).map Prod.fst = some (.task (.seed inputs)) := by
    decide +kernel
  obtain ⟨⟨i, cl⟩, hcl, hname⟩ := Option.map_eq_some_iff.1 hput
  obtain ⟨hi, hname⟩ := Prod.mk.inj hname
  obtain rfl : i = .client 0 := hi
  obtain ⟨l, hl, hlput⟩ := Option.bind_eq_some_iff.1 hcl
  obtain ⟨expected, rev, rfl⟩ := act_of_putting hlput
  obtain ⟨⟨a, es⟩, hwork, ha⟩ := Option.map_eq_some_iff.1 htask
  obtain rfl : a = .task (.seed inputs) := ha
  exact .seed hl hname hwork inputs_read rfl

end KubeEndpoint

end Medea
