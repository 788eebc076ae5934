import Medea.ControlPlane.Oversight

/-!
# Hosts and their own nodes

A host that is marked READY carries the address of a node, and the node should be the machine that was
staged for the host. The reconciler does not compare the two: it takes any ready node of the role whose
address nobody has claimed. `own_node_bound` says when this is right. The nodes that a pass lists must be
machines that were there from the start or were staged since and not released, and when a host is staged
no other host of the cluster may be in flight and every machine that has been staged before must be
recorded. Passes over the pools of a cluster stage a host for each pool, so a second machine may join
before the first: `swapped_nodes` is such a run, and the first host gets the node of the second.

The argument: as long as some host is in flight, every address that a node can have is recorded or is the
address of that host (`Hardware.Sound`). An address that is recorded is claimed, so the unclaimed node of
a listing is the node of the host.
-/

set_option autoImplicit false
set_option maxRecDepth 100000

namespace Medea

open Medea.Interaction
open ProvisionReconciler hiding bind

/-- The nodes of the cluster that the executor has been told. -/
def Act.nodes (cluster : String) : Act → Option (List NodeInfo)
  | .act .executor ⟨.kube client _ .listNodes, .ok nodes⟩ =>
    if client.cluster = cluster then some nodes else none
  | _ => none

/-- The machine of the cluster that the executor stages. -/
def Act.staged (cluster : String) : Act → Option String
  | .act .executor ⟨.provisioner c (.stage mac _ _), _⟩ => if c = cluster then some mac else none
  | _ => none

namespace OwnNode

/-- The machines of a cluster: each has one MAC and one address. -/
structure Hardware where
  cluster : String
  plain : PlainName cluster
  address : String → String

/-- The store, and the addresses that nodes of the cluster may have: those of the nodes that were there
from the start, and of the machines that were staged, until they are released. -/
structure Ghost where
  store : Store
  present : List String

namespace Hardware

variable (W : Hardware)

/-- The addresses after an event of the executor. A machine may boot even if staging reports an
error. -/
def presentAfter (present : List String) : Ev → List String
  | ⟨.provisioner c (.stage mac _ _), _⟩ =>
    if c = W.cluster then W.address mac :: present else present
  | ⟨.store (.deleteMachine c addr), .ok _⟩ =>
    if c = W.cluster then present.filter (· != addr) else present
  | _ => present

def next (m : Ghost) : Act → Ghost
  | .start _ _ => m
  | .act .executor e => ⟨Ev.after m.store e, W.presentAfter m.present e⟩
  | .act (.client _) e => { m with store := Ev.after m.store e }
  | .crash => { m with store := m.store.open }

/-- A host of the cluster with this MAC is in flight. -/
def InFlight (s : Store) (mac : String) : Prop :=
  ∃ (k : String) (h : Host), s.db.hosts[k]? = some h ∧ h.cluster = W.cluster ∧
    h.state = .provisioning ∧ h.mac = mac

/-- The address has a machine in the cluster. -/
def Recorded (s : Store) (addr : String) : Prop :=
  ∃ mc, s.db.machines[ckey W.cluster addr]? = some mc

/-- All addresses are recorded, apart from that of one machine. -/
def Sole (m : Ghost) (mac : String) : Prop :=
  ∀ a ∈ m.present, W.Recorded m.store a ∨ a = W.address mac

/-- For every host in flight, all addresses but its own are recorded. -/
def Sound (m : Ghost) : Prop := ∀ mac, W.InFlight m.store mac → W.Sole m mac

/-- The nodes that a pass lists are machines that were there, or were staged and not released. -/
def Joined (m : Ghost) (l : Act) : Prop :=
  ∀ nodes ∈ l.nodes W.cluster, ∀ n ∈ nodes, n.internalIP ∈ m.present

instance (m : Ghost) (l : Act) : Decidable (W.Joined m l) :=
  inferInstanceAs (Decidable (∀ nodes ∈ l.nodes W.cluster, ∀ n ∈ nodes, n.internalIP ∈ m.present))

/-- The runs in which a node can be told by being new. -/
structure Orderly (m : Ghost) (l : Act) : Prop where
  plain : m.store.Plain
  joined : W.Joined m l
  /-- A machine is staged only if no other host of the cluster is in flight, and no other machine is
  about that is not recorded. -/
  exclusive : ∀ mac ∈ l.staged W.cluster,
    (∀ mac', W.InFlight m.store mac' → mac' = mac) ∧ W.Sole m mac
  /-- The others put no host in flight and drop no machine. -/
  alone : ∀ n e, l = .act (.client n) e →
    (∀ mac, W.InFlight (Ev.after m.store e) mac → W.InFlight m.store mac) ∧
      ∀ a, W.Recorded m.store a → W.Recorded (Ev.after m.store e) a

/-- Fewer hosts are in flight, and no address is added or loses its record. -/
structure Settles (m m' : Ghost) : Prop where
  inFlight : ∀ mac, W.InFlight m'.store mac → W.InFlight m.store mac
  present : ∀ a ∈ m'.present, a ∈ m.present
  recorded : ∀ a ∈ m'.present, W.Recorded m.store a → W.Recorded m'.store a

/-- The executor marks hosts of the cluster READY with their own address. -/
def Own (e : Ev) : Prop :=
  ∀ h, Act.host (.act .executor e) = some (.executor, h) → h.state = .ready →
    h.cluster = W.cluster → h.addr = W.address h.mac

/-! ## The contract of a pass -/

def passContract : Contract medeaSig Ghost where
  drift m m' := W.Settles m m' ∧ m'.present = m.present
  admits m e := m.store.Reachable ∧ Ev.Fits m.store e ∧ W.Orderly m (.act .executor e)
  allows m e := W.Own e ∧ W.Sound (W.next m (.act .executor e))
  next m e := W.next m (.act .executor e)
  drift_refl _ := ⟨⟨fun _ h => h, fun _ h => h, fun _ _ h => h⟩, rfl⟩
  drift_trans := by
    rintro m m' m'' ⟨h, heq⟩ ⟨h', heq'⟩
    refine ⟨⟨?_, ?_, ?_⟩, heq'.trans heq⟩
    · exact fun mac hm => h.inFlight mac (h'.inFlight mac hm)
    · exact fun a ha => h.present a (h'.present a ha)
    · exact fun a ha hrec => h'.recorded a ha (h.recorded a (h'.present a ha) hrec)

variable {W} {m m' : Ghost} {mac : String} {e : Ev}

theorem Sole.settles (h : W.Sole m mac) (hs : W.Settles m m') : W.Sole m' mac := by
  intro a ha
  rcases h a (hs.present a ha) with hrec | heq
  · exact Or.inl (hs.recorded a ha hrec)
  · exact Or.inr heq

theorem Sound.settles (h : W.Sound m) (hs : W.Settles m m') : W.Sound m' :=
  fun mac hm => (h mac (hs.inFlight mac hm)).settles hs

/-- A host in flight after an event was in flight before, or the event has put it in flight. -/
theorem inFlight_after {s : Store} (hfit : Ev.Fits s e) (h : W.InFlight (Ev.after s e) mac) :
    W.InFlight s mac ∨ ∃ h' rev r, e = ev (.store (.putHostDesired h' rev)) (.ok r) ∧
      h'.cluster = W.cluster ∧ h'.state = .provisioning ∧ h'.mac = mac := by
  obtain ⟨k, host, hk, hc, hst, hmac⟩ := h
  rcases host_after hfit hk with hold | ⟨h', rev, r, he, -, rfl⟩
  · exact Or.inl ⟨k, host, hold, hc, hst, hmac⟩
  · exact Or.inr ⟨h', rev, r, he, hc, hst, hmac⟩

/-- The operations that put no host in flight, stage nothing, and delete no machine but those of a
cluster with a plain name. -/
def Settling : Op → Prop
  | .store (.putHostDesired h _) => h.state ≠ .provisioning
  | .store (.deleteMachine cluster _) => PlainName cluster
  | .store (.deleteCluster _) => False
  | .provisioner _ (.stage _ _ _) => False
  | _ => True

theorem settles_of_settling (hfit : Ev.Fits m.store e) (h : Settling e.op) :
    W.Settles m (W.next m (.act .executor e)) := by
  have hpresent : ∀ a ∈ W.presentAfter m.present e, a ∈ m.present := by
    intro a ha
    unfold presentAfter at ha
    split at ha
    · exact absurd h id
    · split at ha
      · exact List.mem_of_mem_filter ha
      · exact ha
    · exact ha
  refine ⟨?_, hpresent, ?_⟩
  · intro mac hm
    rcases inFlight_after hfit hm with hold | ⟨h', rev, r, rfl, -, hst, -⟩
    · exact hold
    · exact absurd hst h
  · rintro a ha ⟨mc, hmc⟩
    rcases machine_after hfit hmc with hstay | ⟨c, addr, v, rfl, hkey⟩ | ⟨c, v, rfl⟩
    · exact hstay
    · -- the machine of a released host is not among those present any more
      obtain ⟨hc, haddr⟩ := ckey_inj W.plain h hkey
      have hfilter : a ∈ if c = W.cluster then m.present.filter (· != addr) else m.present := ha
      rw [if_pos hc.symm, haddr] at hfilter
      simp at hfilter
    · exact absurd h id

/-- Looking around settles everything as it is. -/
theorem drift_of_read {op : Op} {rep : op.Reply} (hdb : ∀ s, (Ev.after s ⟨op, rep⟩).db = s.db)
    (hp : W.presentAfter m.present ⟨op, rep⟩ = m.present) :
    W.passContract.drift m (W.passContract.next m ⟨op, rep⟩) := by
  refine ⟨⟨?_, ?_, ?_⟩, hp⟩
  · intro mac hm
    rw [InFlight, show (W.passContract.next m ⟨op, rep⟩).store.db = m.store.db from hdb _] at hm
    exact hm
  · intro a ha
    rw [← hp]
    exact ha
  · intro a _ hrec
    rw [Recorded, show (W.passContract.next m ⟨op, rep⟩).store.db = m.store.db from hdb _]
    exact hrec

theorem drift_of_quiet (op : Op) (hq : op.quiet = true) (rep : op.Reply) :
    W.passContract.drift m (W.passContract.next m ⟨op, rep⟩) := by
  refine drift_of_read (fun _ => db_after_quiet hq rep) ?_
  cases op with
  | store op => cases op <;> first | rfl | cases hq
  | provisioner => cases hq
  | _ => rfl

/-! ## The places of a pass -/

variable (W) in
/-- The hosts in flight among those listed, if they are hosts of the cluster. -/
def Listed (cluster : String) (hosts : List Host) (m : Ghost) : Prop :=
  W.Sound m ∧ PlainName cluster ∧
    (cluster = W.cluster → ∀ h ∈ hosts, h.state = .provisioning → W.Sole m h.mac)

variable (W) in
/-- In the loop: an unclaimed node is the node of every host in flight that is still to come. -/
def Telling (R : Round) (todo : List Host) (count : HostCount) : Prop :=
  R.cluster = W.cluster → ∀ h ∈ todo, h.state = .provisioning → ∀ n ∈ R.nodes,
    n.internalIP ∉ count.claimed → n.internalIP = W.address h.mac

variable (W) in
/-- What holds at the places of a pass. -/
def holds : Point → Ghost → Prop
  | .rest, m => W.Sound m
  | .entered cluster, m | .opened cluster _, m => W.Sound m ∧ PlainName cluster
  | .listed cluster _ hosts, m => W.Listed cluster hosts m
  | .seen cluster _ hosts nodes, m => W.Listed cluster hosts m ∧
      (cluster = W.cluster → ∀ n ∈ nodes, n.internalIP ∈ m.present)
  | .advancing R todo count, m => W.Sound m ∧ PlainName R.cluster ∧ W.Telling R todo count

theorem holds_rest {p : Point} (h : W.holds p m) : W.Sound m := by
  cases p with
  | rest => exact h
  | entered | opened | listed | advancing => exact h.1
  | seen => exact h.1.1

theorem Listed.settles {cluster : String} {hosts : List Host} (h : W.Listed cluster hosts m)
    (hs : W.Settles m m') : W.Listed cluster hosts m' :=
  ⟨h.1.settles hs, h.2.1, fun hc x hx hst => (h.2.2 hc x hx hst).settles hs⟩

theorem holds_drift {p : Point} (h : W.holds p m) (hd : W.passContract.drift m m') :
    W.holds p m' := by
  obtain ⟨hs, hpresent⟩ := hd
  cases p with
  | rest => exact Sound.settles h hs
  | entered | opened | advancing => exact ⟨h.1.settles hs, h.2⟩
  | listed => exact Listed.settles h hs
  | seen =>
    refine ⟨h.1.settles hs, ?_⟩
    rw [hpresent]
    exact h.2

/-- An event that swaps in no host. -/
theorem own_of_none (h : Act.host (.act .executor e) = none) : W.Own e := by
  intro host hput
  rw [h] at hput
  cases hput

theorem holds_quiet {p : Point} (h : W.holds p m) (op : Op) (hq : op.quiet = true)
    (rep : op.Reply) :
    W.passContract.allows m ⟨op, rep⟩ ∧ W.holds p (W.passContract.next m ⟨op, rep⟩) := by
  have hnext := holds_drift h (drift_of_quiet op hq rep)
  refine ⟨⟨own_of_none ?_, holds_rest hnext⟩, hnext⟩
  cases op with
  | store op => cases op <;> first | rfl | cases hq
  | _ => rfl

/-- The operations that mark no host READY. -/
def Unmarking : Op → Prop
  | .store (.putHostDesired h _) => h.state ≠ .ready
  | _ => True

def Steady (op : Op) : Prop := Settling op ∧ Unmarking op

theorem own_of_steady (h : Steady e.op) : W.Own e := by
  intro host hput hready
  unfold Act.host at hput
  split at hput
  next heq =>
    cases heq
    cases hput
    exact absurd hready h.2
  next => cases hput

/-- Between two pools and in the loop such operations keep what holds. -/
theorem advancing_steady {R : Round} {todo : List Host} {count : HostCount}
    (h : W.holds (.advancing R todo count) m) (hadm : W.passContract.admits m e) (hop : Steady e.op) :
    W.passContract.allows m e ∧ W.holds (.advancing R todo count) (W.passContract.next m e) := by
  have hsound := h.1.settles (settles_of_settling hadm.2.1 hop.1)
  exact ⟨⟨own_of_steady hop, hsound⟩, hsound, h.2⟩

theorem keeps_of_within {α : Type} {R : Round} {todo : List Host} {count : HostCount}
    {prog : Prog α} (hp : prog.Within (fun _ => True) Steady fun _ => True)
    (h : W.holds (.advancing R todo count) m) :
    prog.Keeps W.passContract (fun _ => W.holds (.advancing R todo count)) m :=
  (hp.steady holds_drift (fun h hop hadm => ⟨trivial, advancing_steady h hadm hop⟩) h).mono fun _ _ h => h.2

/-! ## The pieces of a pass -/

section Pieces

variable {R : Round} {h : Host} {todo : List Host} {count count' : HostCount}

/-- The first host is done, and no claim is dropped. -/
theorem Telling.tail (ht : W.Telling R (h :: todo) count)
    (hclaimed : ∀ a ∈ count.claimed, a ∈ count'.claimed) : W.Telling R todo count' := by
  intro hc x hx hst n hn hfree
  exact ht hc x (List.mem_cons_of_mem _ hx) hst n hn fun ha => hfree (hclaimed _ ha)

theorem fail_keeps (hm : W.holds (.advancing R (h :: todo) count) m) (msg : String) :
    (setHostState R.cluster h.mac .failed msg).Keeps W.passContract
      (Ends (W.holds .rest) fun _ =>
        W.holds (.advancing R todo { count with failed := count.failed + 1 })) m := by
  refine (keeps_of_within (editHost_within ⟨trivial, trivial⟩ ?_) hm).mono ?_
  · intro host rev
    simp [Steady, Settling, Unmarking]
  · rintro (e | ⟨⟩) m' hm'
    · exact holds_rest hm'
    · exact ⟨hm'.1, hm'.2.1, hm'.2.2.tail fun _ ha => ha⟩

/-- A host of the cluster is read and swapped in with the address of the node, which is its own. -/
theorem mark_keeps {n : NodeInfo} (hm : W.holds (.advancing R (h :: todo) count) m)
    (hst : h.state = .provisioning) (hn : newJoinedNode R.nodes count.claimed R.np.role = some n) :
    (editHost R.cluster h.mac fun h =>
        { h with addr := n.internalIP, state := .ready, message := "" }).Keeps W.passContract
      (Ends (W.holds .rest) fun _ => W.holds (.advancing R (h :: todo) count)) m := by
  obtain ⟨hmem, -, hfree⟩ := newJoinedNode_some hn
  refine editHost_keeps (A := W.holds (.advancing R (h :: todo) count))
    (B := fun host _ m => W.holds (.advancing R (h :: todo) count) m ∧
      host.cluster = R.cluster ∧ host.mac = h.mac)
    holds_drift (fun hb hd => ⟨holds_drift hb.1 hd, hb.2⟩) holds_drift holds_drift ?_ ?_ hm
  · intro m rep ha hadm
    obtain ⟨hall, hnext⟩ := holds_quiet ha (.store (.getHost R.cluster h.mac)) rfl rep
    refine ⟨hall, ?_⟩
    rcases rep with e | ⟨_ | host, rev⟩
    · exact holds_rest hnext
    · exact holds_rest hnext
    · have hk := (fits_getHost hadm.2.1).1
      exact ⟨hnext, ckey_inj (hadm.2.2.plain.hosts hk) ha.2.1 (hadm.1.host_key hk)⟩
  · intro m host rev rep hb hadm
    obtain ⟨hhold, hcluster, hmac⟩ := hb
    have hset : Settling (.store (.putHostDesired
        { host with addr := n.internalIP, state := .ready, message := "" } rev)) := by
      simp [Settling]
    have hsound := hhold.1.settles (settles_of_settling hadm.2.1 hset)
    refine ⟨⟨?_, hsound⟩, ?_⟩
    · intro x hput _ hc
      cases rep with
      | error e => cases hput
      | ok r =>
        cases hput
        show n.internalIP = W.address host.mac
        rw [hmac]
        exact hhold.2.2 (hcluster.symm.trans hc) h List.mem_cons_self hst n hmem hfree
    · cases rep with
      | error e => exact hsound
      | ok r => exact ⟨hsound, hhold.2⟩

theorem bind_keeps {n : NodeInfo} (hm : W.holds (.advancing R (h :: todo) count) m)
    (hst : h.state = .provisioning) (hn : newJoinedNode R.nodes count.claimed R.np.role = some n) :
    (ProvisionReconciler.bind R.cluster R.pool h.mac n R.np.role).Keeps W.passContract
      (Ends (W.holds .rest) fun _ => W.holds (.advancing R todo (count.bound n))) m := by
  rw [ProvisionReconciler.bind]
  refine (mark_keeps hm hst hn).bind ?_
  rintro (e | ⟨⟩) m' hm'
  · exact fun _ hd => holds_drift (p := .rest) hm' hd
  -- the machine and the membership are written next, and no host
  refine (keeps_of_within ?_ hm').mono ?_
  · refine ⟨⟨trivial, trivial⟩, ?_⟩
    rintro (e | ⟨mc, rev⟩) -
    · trivial
    refine ⟨⟨trivial, trivial⟩, ?_⟩
    rintro (e | rev') -
    · trivial
    · exact editPool_within ⟨trivial, trivial⟩ fun _ _ => ⟨trivial, trivial⟩
  · rintro (e | ⟨⟩) m'' h''
    · exact holds_rest h''
    · exact ⟨h''.1, h''.2.1, h''.2.2.tail fun _ ha => List.mem_cons_of_mem _ ha⟩

theorem release_keeps {v : Host} (hm : W.holds (.advancing R [] count) m) :
    (unstage R.cluster R.pool v).Keeps W.passContract
      (fun _ => W.holds .rest) m := by
  refine (keeps_of_within ?_ hm).mono fun _ _ h => holds_rest h
  refine unstage_within ⟨trivial, trivial⟩ ⟨hm.2.1, trivial⟩ ⟨trivial, trivial⟩
    (fun _ _ => ⟨trivial, trivial⟩) ⟨trivial, trivial⟩ ?_
  intro host rev hst
  simp [Steady, Settling, Unmarking, hst]

variable (W) in
/-- The machine of a host of the cluster was staged. -/
def Staged (cluster mac : String) (m : Ghost) : Prop :=
  W.Sound m ∧ (cluster = W.cluster → W.Sole m mac)

theorem Staged.settles {cluster : String} (h : W.Staged cluster mac m) (hs : W.Settles m m') :
    W.Staged cluster mac m' :=
  ⟨h.1.settles hs, fun hc => (h.2 hc).settles hs⟩

/-- Staging adds one address. -/
theorem staged_of_stage {mac : String} {profile : Profile} {cfg : Bytes} {rep : Except String Unit}
    (hsound : W.Sound m)
    (hadm : W.passContract.admits m (ev (.provisioner R.cluster (.stage mac profile cfg)) rep)) :
    W.Staged R.cluster mac
      (W.passContract.next m (ev (.provisioner R.cluster (.stage mac profile cfg)) rep)) := by
  by_cases hc : R.cluster = W.cluster
  · obtain ⟨honly, hsole⟩ := hadm.2.2.exclusive mac (if_pos hc)
    have hpresent : (W.passContract.next m
        (ev (.provisioner R.cluster (.stage mac profile cfg)) rep)).present =
          W.address mac :: m.present := if_pos hc
    have hsole' : W.Sole (W.passContract.next m
        (ev (.provisioner R.cluster (.stage mac profile cfg)) rep)) mac := by
      intro a ha
      rw [hpresent] at ha
      rcases List.mem_cons.1 ha with rfl | ha
      · exact Or.inr rfl
      · exact hsole a ha
    refine ⟨?_, fun _ => hsole'⟩
    intro mac' hm'
    obtain rfl := honly mac' hm'
    exact hsole'
  · have hpresent : W.presentAfter m.present
        (ev (.provisioner R.cluster (.stage mac profile cfg)) rep) = m.present := if_neg hc
    refine ⟨?_, fun h => absurd h hc⟩
    exact hsound.settles (drift_of_read (fun _ => rfl) hpresent).1

/-- Writing a host changes neither the addresses nor the machines. -/
theorem Sole.putHost {host : Host} {rev : Nat}
    {rep : (Op.store (.putHostDesired host rev)).Reply} (h : W.Sole m mac)
    (hfit : Ev.Fits m.store (ev (.store (.putHostDesired host rev)) rep)) :
    W.Sole (W.passContract.next m (ev (.store (.putHostDesired host rev)) rep)) mac := by
  intro a ha
  rcases h a ha with ⟨mc, hmc⟩ | heq
  · rcases machine_after hfit hmc with hstay | ⟨_, _, _, he, -⟩ | ⟨_, _, he⟩
    · exact Or.inl hstay
    · cases he
    · cases he
  · exact Or.inr heq

theorem publish_keeps {host : Host} (r : ProvisionReconciler) (schematic version : String)
    (cfg : Bytes) (hm : W.holds (.advancing R [] count) m) (hname : R.cl.name = R.cluster) :
    (r.publish R.cl host schematic version cfg).Keeps W.passContract (fun _ => W.holds .rest) m := by
  rw [publish, hname]
  intro m0 hd0 rep hadm
  have hstaged := staged_of_stage (R := R) (holds_drift hm hd0).1 hadm
  refine ⟨⟨own_of_none rfl, hstaged.1⟩, ?_⟩
  rcases rep with e | ⟨⟩
  · exact fun _ hd => holds_drift (p := .rest) hstaged.1 hd
  have hplain := hm.2.1
  refine (startProvisioning_keeps (K := W.passContract)
    (A := W.Staged R.cluster host.mac)
    (B := fun x _ m => W.Staged R.cluster host.mac m ∧ x.cluster = R.cluster ∧ x.mac = host.mac)
    (E := W.holds .rest) (D := W.holds .rest) (fun ha hd => ha.settles hd.1)
    (fun hb hd => ⟨hb.1.settles hd.1, hb.2⟩) holds_drift holds_drift ?_ ?_ ?_ hstaged).mono ?_
  · intro m rep ha hadm
    have hs := drift_of_quiet (W := W) (m := m) (.store (.getHost R.cluster host.mac)) rfl rep
    have hnext := ha.settles hs.1
    refine ⟨⟨own_of_none rfl, hnext.1⟩, ?_⟩
    rcases rep with e | ⟨_ | x, rev⟩
    · exact hnext.1
    · exact hnext.1
    · have hk := (fits_getHost hadm.2.1).1
      exact ⟨hnext, ckey_inj (hadm.2.2.plain.hosts hk) hplain (hadm.1.host_key hk)⟩
  · intro m x rev t hb _
    have hnext := hb.1.settles (drift_of_quiet .now rfl t).1
    exact ⟨⟨own_of_none rfl, hnext.1⟩, hnext, hb.2⟩
  · intro m x x' rev rep hb hput hadm
    obtain ⟨⟨hsound, hsole⟩, hcluster, hmac⟩ := hb
    obtain ⟨msg, started, rfl⟩ := hput
    have hsound' : W.Sound (W.passContract.next m (ev (.store (.putHostDesired
        { x with state := .provisioning, message := msg, provisioningStartedAt := started } rev))
          rep)) := by
      intro mac hmac'
      rcases inFlight_after hadm.2.1 hmac' with hold | ⟨x', rev', r', heq, hc, -, rfl⟩
      · exact (hsound mac hold).putHost hadm.2.1
      · cases heq
        have hown := hsole (hcluster.symm.trans hc)
        rw [← hmac] at hown
        exact hown.putHost hadm.2.1
    refine ⟨⟨?_, hsound'⟩, ?_⟩
    · intro y hy hready
      cases rep with
      | error e => cases hy
      | ok r' =>
        cases hy
        cases hready
    · cases rep with
      | error | ok => exact hsound'
  · rintro (e | ⟨⟩) m' hm'
    · exact hm'
    · exact hm'

end Pieces

variable (W) in
/-- The outline of a pass. -/
def outline : Outline W.passContract where
  holds := W.holds
  drift := holds_drift
  quiet {p m op r} h hq _ := holds_quiet h op hq r
  rests := holds_rest
  enters {m c cl rev} h hadm := by
    obtain ⟨cl₀, hk, hname⟩ := fits_getCluster hadm.2.1
    have hkey := hadm.1.cluster_key hk
    refine ⟨hname.trans hkey, holds_drift (p := .rest) h (drift_of_quiet _ rfl _), ?_⟩
    rw [← hkey]
    exact hadm.2.2.plain.clusters hk
  opens {m c p np rev} h _ := holds_drift (p := .entered c) h (drift_of_quiet _ rfl _)
  listHosts {m c p rep} h hadm := by
    have hd : W.passContract.drift m (W.passContract.next m (ev (.store (.listHosts c p)) rep)) :=
      drift_of_read (fun _ => db_after_read rfl rep) rfl
    have hnext := holds_drift (p := .opened c p) h hd
    refine ⟨⟨own_of_none rfl, hnext.1⟩, ?_⟩
    cases rep with
    | error e => exact hnext.1
    | ok hosts =>
      refine ⟨hnext.1, h.2, ?_⟩
      rintro rfl x hx hst
      obtain ⟨⟨k, hk, hlead⟩, -⟩ := (mem_of_listHosts hadm.2.1).1 hx
      have hc := cluster_of_listed hadm.1 hadm.2.2.plain h.2 hk hlead
      exact (h.1 x.mac ⟨k, x, hk, hc, hst, rfl⟩).settles hd.1
  listNodes {m client c p hosts member nodes} h hclient hadm := by
    have hd := drift_of_quiet (W := W) (m := m) (.kube client member .listNodes) rfl (.ok nodes)
    refine ⟨holds_drift (p := .listed c p hosts) h hd, ?_⟩
    rintro rfl n hn
    rw [hd.2]
    exact hadm.2.2.joined nodes (if_pos hclient) n hn
  listMachines {m R ms} h hadm := by
    obtain ⟨⟨hsound, hplain, hsole⟩, hpresent⟩ := h
    refine ⟨hsound.settles (drift_of_quiet _ rfl _).1, hplain, ?_⟩
    intro hc x hx hst n hn hfree
    rcases hsole hc x hx hst n.internalIP (hpresent hc n hn) with ⟨mc, hmc⟩ | heq
    · -- a recorded address is claimed
      rw [← hc] at hmc
      refine absurd (List.mem_append_left _ ?_) hfree
      exact endpoint_of_key hadm.1 hadm.2.2.plain hplain hadm.2.1 hmc
    · exact heq
  skip {m R h todo count} hm _ := by
    refine ⟨hm.1, hm.2.1, hm.2.2.tail ?_⟩
    intro a ha
    rw [HostCount.passed]
    split <;> exact ha
  park hm _ := ⟨hm.1, hm.2.1, hm.2.2.tail fun _ ha => ha⟩
  bind hm hst hn := bind_keeps hm hst hn
  fail hm _ := fail_keeps hm _
  release hm _ _ := release_keeps hm
  publish r schematic version cfg hm _ hname _ := publish_keeps r schematic version cfg hm hname

/-! ## Runs -/

variable (W) in
/-- The executor and clients that put no host in flight. -/
def oversight : Oversight Ghost where
  pass := W.passContract
  outline := W.outline
  store := Ghost.store
  next := W.next
  assumes := W.Orderly
  Inv := W.Sound
  next_start := rfl
  next_pass := rfl
  store_next {m l} := by
    rcases l with ⟨i, a⟩ | ⟨_ | n, e⟩ | _
    · rfl
    · rfl
    · rfl
    · rfl
  admits hord hs hfit := ⟨hs, hfit, hord⟩
  allowed hall := hall.2
  client {m n e} hord hsound := by
    obtain ⟨hflight, hrec⟩ := hord.alone n e rfl
    have hs : W.Settles m (W.next m (.act (.client n) e)) :=
      ⟨hflight, fun _ ha => ha, fun a _ => hrec a⟩
    exact ⟨hsound.settles hs, hs, rfl⟩
  crash _ hsound := ⟨hsound, hsound⟩

end Hardware

end OwnNode

open OwnNode

/-- A provisioned host is bound to its own node. Take any cluster whose nodes are all recorded as
machines, and any machines, each with one MAC and one address; let passes, API calls, edits, failures,
timeouts and crashes come in any order. If only machines of the cluster join, if a host is staged only
when no other host of the cluster is in flight and all other machines that could join are recorded, and
if nobody else puts hosts in flight or drops machines, then a host that the executor marks READY carries
the address of the machine that has its MAC. -/
theorem own_node_bound (cfg : Settings) (W : Hardware) {s : Store} (hs : s.Reachable)
    (nodes : List String) (hrec : ∀ a ∈ nodes, W.Recorded s a) {ls : List Act} {c : Scene}
    (hr : (provisioningPlane cfg).Runs (Scene.idle s) ls c)
    (hord : Along W.next W.Orderly ⟨s, nodes⟩ ls) :
    ∀ l ∈ ls, ∀ h, l.host = some (.executor, h) → h.state = .ready → h.cluster = W.cluster →
      h.addr = W.address h.mac := by
  have hsound : W.Sound ⟨s, nodes⟩ := fun _ _ a ha => Or.inl (hrec a ha)
  intro l hl h hput
  obtain ⟨e, rfl⟩ : ∃ e, l = .act .executor e := by
    unfold Act.host at hput
    split at hput
    next => cases hput; exact ⟨_, rfl⟩
    next => cases hput
  obtain ⟨m, hown, -⟩ :=
    W.oversight.runs_allowed (m := ⟨s, nodes⟩) hr hs hsound hsound hord _ hl e rfl
  exact hown h hput

namespace OwnNode

/-- No client writes. -/
def unattended : Act → Bool
  | .act (.client _) _ => false
  | _ => true

/-- A condition that is met by such runs and can be computed. -/
def Hardware.Calm (W : Hardware) (m : Ghost) (l : Act) : Prop :=
  unattended l = true ∧ m.store.PlainRecords ∧ W.Joined m l ∧
    ∀ mac ∈ l.staged W.cluster,
      (∀ kv ∈ m.store.db.hosts.toList, kv.2.cluster = W.cluster → kv.2.state = .provisioning →
        kv.2.mac = mac) ∧
      ∀ a ∈ m.present, (m.store.db.machines[ckey W.cluster a]?).isSome = true ∨ a = W.address mac

instance (W : Hardware) (m : Ghost) (l : Act) : Decidable (W.Calm m l) :=
  inferInstanceAs (Decidable (_ ∧ _))

theorem Hardware.Calm.orderly {W : Hardware} {m : Ghost} {l : Act} (h : W.Calm m l) :
    W.Orderly m l := by
  obtain ⟨hun, hplain, hjoined, hex⟩ := h
  refine ⟨hplain.plain, hjoined, ?_, ?_⟩
  · intro mac hmac
    obtain ⟨honly, hsole⟩ := hex mac hmac
    refine ⟨?_, ?_⟩
    · rintro mac' ⟨k, host, hk, hc, hst, rfl⟩
      exact honly (k, host) (Std.ExtTreeMap.mem_toList_iff_getElem?_eq_some.2 hk) hc hst
    · intro a ha
      exact (hsole a ha).imp_left Option.isSome_iff_exists.1
  · rintro n e rfl
    cases hun

/-- Machines of cluster `c`. -/
def rack : Hardware := ⟨"c", by decide, fun mac => "10.0.0." ++ mac⟩

/-- The node of a machine. -/
def nodeOf (mac : String) : NodeInfo :=
  ⟨"n" ++ mac, rack.address mac, "worker", "v1.30.0", true⟩

/-- Cluster `c` with a pool of two workers, and two registered hosts. -/
def onePool : List Access :=
  [.call (.putClusterDesired Scene.cluster 0) (.ok 1),
    .call (.putNodePoolDesired { cluster := "c", name := "p", role := .worker, replicas := 2 } 0)
      (.ok 2),
    .call (.putHostDesired { cluster := "c", mac := "a", pool := "p", state := .registered } 0)
      (.ok 3),
    .call (.putHostDesired { cluster := "c", mac := "b", pool := "p", state := .registered } 0)
      (.ok 4)]

theorem onePool_reachable : (storeAfter onePool).Reachable := by
  have hhistory : History onePool := ⟨Or.inl rfl, Or.inl rfl, Or.inl rfl, Or.inl rfl, trivial⟩
  exact ⟨onePool, hhistory, rfl⟩

/-- One host after the other is staged and joins. -/
def inTurn : List (Cue Actor Activity Oracle) :=
  Scene.pass 40 [] ++ Scene.pass 80 [nodeOf "a"] ++ Scene.pass 80 [nodeOf "a", nodeOf "b"]

end OwnNode

theorem in_turn_own_nodes :
    (∀ l ∈ ((Scene.player Script.settings).play OwnNode.inTurn
        (Scene.idle (storeAfter OwnNode.onePool))).1, ∀ h, Act.host l = some (.executor, h) →
      h.state = .ready → h.cluster = "c" → h.addr = "10.0.0." ++ h.mac) ∧
    ((((Scene.player Script.settings).play OwnNode.inTurn
        (Scene.idle (storeAfter OwnNode.onePool))).2.world.store.db.hosts.toList.map
          fun kv => (kv.2.mac, kv.2.state, kv.2.addr)) =
      [("a", .ready, "10.0.0.a"), ("b", .ready, "10.0.0.b")]) := by
  refine ⟨?_, by decide +kernel⟩
  refine own_node_bound Script.settings rack onePool_reachable []
    (fun _ ha => absurd ha List.not_mem_nil)
    ((Scene.player Script.settings).play_runs inTurn _) ?_
  have hcalm : Along rack.next rack.Calm ⟨storeAfter onePool, []⟩
      ((Scene.player Script.settings).play inTurn
        (Scene.idle (storeAfter onePool))).1 := by decide +kernel
  exact hcalm.mono fun _ _ h => h.orderly

namespace OwnNode

/-- A host of each pool is staged, and the second machine joins first. -/
def swapped : List (Cue Actor Activity Oracle) := Scene.pass 40 [] ++ Scene.pass 80 [nodeOf "b"]

/-- The label marks a host READY with the address of another machine. -/
def Hardware.mistakes (W : Hardware) (l : Act) : Bool :=
  match l.host with
  | some (.executor, h) => h.state == .ready && h.cluster == W.cluster && h.addr != W.address h.mac
  | _ => false

end OwnNode

/-- Two pools have a host staged each, nobody interferes, only the staged machines join, no two of them
share an address; and a host is marked READY with the address of the machine of the other. -/
theorem swapped_nodes : ∃ (W : Hardware) (s : Store) (ls : List Act) (c : Scene),
    Function.Injective W.address ∧ s.Reachable ∧
    (provisioningPlane Script.settings).Runs (Scene.idle s) ls c ∧ ls.all unattended = true ∧
    Along W.next W.Joined ⟨s, []⟩ ls ∧ ∃ l ∈ ls, ∃ h, l.host = some (.executor, h) ∧
      h.state = .ready ∧ h.cluster = W.cluster ∧ h.addr ≠ W.address h.mac := by
  have hany : ((Scene.player Script.settings).play swapped
      (Scene.idle (storeAfter Scene.twoPools))).1.any rack.mistakes = true := by decide +kernel
  refine ⟨rack, storeAfter Scene.twoPools, _, _, ?_, Scene.twoPools_reachable,
    (Scene.player Script.settings).play_runs swapped _, by decide +kernel, by decide +kernel, ?_⟩
  · intro mac mac' h
    exact String.append_right_inj _ |>.1 h
  · obtain ⟨l, hl, hmis⟩ := List.any_eq_true.1 hany
    refine ⟨l, hl, ?_⟩
    rw [Hardware.mistakes] at hmis
    split at hmis
    next h hput =>
      simp only [Bool.and_eq_true, beq_iff_eq, bne_iff_ne] at hmis
      exact ⟨h, hput, hmis.1.1, hmis.1.2, hmis.2⟩
    next => cases hmis

end Medea
