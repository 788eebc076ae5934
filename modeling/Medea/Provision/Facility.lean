import Medea.ControlPlane.Provisioning

/-!
# The bring-up of a control plane and its surroundings

What the bootstrap reconciler works on besides the store: the credentials of the clusters, the machine
configurations that are staged for network boot, and the nodes, of which it matters whether their etcd
was initialized. `Facility` is all of it, with a log of what has happened.

A write that reports an error may have happened or not, field by field; a staging that fails leaves
anything behind; a read of a credential may fail although the credential is there. `bringUp` runs the
calls of `Reconcile` for one cluster, with crashes, among any other operations.
-/

set_option autoImplicit false

namespace Medea

open Medea.Interaction

/-- What the credential store keeps of a cluster. -/
structure Credentials where
  talosconfig : Option Bytes := none
  kubeconfig : Option Bytes := none
  secrets : Option Bytes := none
  deriving DecidableEq

structure Facility where
  store : Store := {}
  creds : String → Credentials := fun _ => {}
  /-- The machine configuration that is served to a MAC. -/
  staged : String → Option Bytes := fun _ => none
  /-- Whether etcd was initialized on the node with the address. -/
  etcd : String → Bool := fun _ => false
  log : List Ev := []

/-- A field after a write: an error leaves the old value or the new one. -/
def Written (rep : Except String Unit) (value old new : Option Bytes) : Prop :=
  new = value ∨ (∃ e, rep = .error e) ∧ new = old

theorem Written.of_ok {rep : Except String Unit} {value old new : Option Bytes}
    (h : Written rep value old new) (hrep : rep = .ok ()) : new = value := by
  rcases h with h | ⟨⟨e, rfl⟩, -⟩
  · exact h
  · cases hrep

/-- The credentials of the clusters after a call on the credential store. -/
def CredsOp.moves (k k' : String → Credentials) : (op : CredsOp) → Except String op.Value → Prop
  | .talosConfig c, rep => k' = k ∧ ∀ b, rep = .ok b → (k c).talosconfig = some b
  | .kubeConfig c, rep => k' = k ∧ ∀ b, rep = .ok b → (k c).kubeconfig = some b
  | .secrets c, rep => k' = k ∧ ∀ b, rep = .ok b → (k c).secrets = some b
  | .put c talos kube, rep => ∃ new : Credentials, k' = Function.update k c new ∧
      Written rep (some talos) (k c).talosconfig new.talosconfig ∧
      Written rep (some kube) (k c).kubeconfig new.kubeconfig ∧ new.secrets = (k c).secrets
  | .putSecrets c bundle, rep => ∃ new : Credentials, k' = Function.update k c new ∧
      Written rep (some bundle) (k c).secrets new.secrets ∧
      new.talosconfig = (k c).talosconfig ∧ new.kubeconfig = (k c).kubeconfig
  | .delete c, rep => ∃ new : Credentials, k' = Function.update k c new ∧
      Written rep none (k c).talosconfig new.talosconfig ∧
      Written rep none (k c).kubeconfig new.kubeconfig ∧ Written rep none (k c).secrets new.secrets

/-- The staged configurations after a call on the provisioner. -/
def ProvisionerOp.moves (m m' : String → Option Bytes) : ProvisionerOp → Except String Unit → Prop
  | .stage mac _ cfg, rep => ∃ new, m' = Function.update m mac new ∧ (rep = .ok () → new = some cfg)
  | .unstage mac, rep => ∃ new, m' = Function.update m mac new ∧ (rep = .ok () → new = none)

namespace Facility

/-- An event enters the log. -/
def note (s : Facility) (e : Ev) : Facility := { s with log := s.log ++ [e] }

/-- How the surroundings answer an operation. -/
def handles (s : Facility) : Ev → Facility → Prop
  | ⟨.store op, rep⟩, s' => ∃ w : World, World.handles ⟨s.store⟩ ⟨.store op, rep⟩ w ∧
      s' = { s.note ⟨.store op, rep⟩ with store := w.store }
  | ⟨.creds op, rep⟩, s' => ∃ k, op.moves s.creds k rep ∧
      s' = { s.note ⟨.creds op, rep⟩ with creds := k }
  | ⟨.provisioner c op, rep⟩, s' => ∃ m, op.moves s.staged m rep ∧
      s' = { s.note ⟨.provisioner c op, rep⟩ with staged := m }
  | ⟨.talos c (.bootstrap node), .ok u⟩, s' =>
    -- a node accepts one such call
    s.etcd node = false ∧ s' = { s.note ⟨.talos c (.bootstrap node), .ok u⟩ with
      etcd := Function.update s.etcd node true }
  | ⟨.machinery (.marshalSecrets b), rep⟩, s' =>
    -- a bundle is a record with fields, so its text is not empty
    rep ≠ .ok [] ∧ s' = s.note ⟨.machinery (.marshalSecrets b), rep⟩
  | e, s' => s' = s.note e

end Facility

/-! ## The system -/

/-- The reconciler of the cluster, and everybody else. -/
inductive Hand where
  | reconciler
  | other (n : Nat)
  deriving DecidableEq

inductive Chore where
  | reconcile
  | issue (op : Op)

def Hand.may : Hand → Chore → Bool
  | .reconciler, .reconcile => true
  | .other _, .issue _ => true
  | _, _ => false

def bringUp (r : BootstrapReconciler) (cluster : String) : System medeaSig Facility Hand Chore where
  task
    | .reconcile => discard (r.reconcile cluster)
    | .issue op => discard (call op)
  may i t := i.may t = true
  handle := Facility.handles
  restart s := { s with store := s.store.open }

abbrev Stint := Label medeaSig Hand Chore

/-! ## Scripts -/

/-- What goes wrong while an operation is handled. -/
inductive Mishap where
  | none
  /-- A node that is not initialized refuses the call. -/
  | refused (text : String)
  /-- The credential store cannot be read. -/
  | unread (text : String)

/-- The answer to a read of a credential. -/
def Mishap.read : Mishap → Option Bytes → Except String Bytes
  | .unread text, _ => .error text
  | _, some b => .ok b
  | _, .none => .error "not found"

/-- The answer of a node that is initialized already, or not. -/
def Mishap.bootstrap : Mishap → Bool → Except String Unit
  | _, true => .error "etcd data directory is not empty"
  | .refused text, false => .error text
  | _, false => .ok ()

theorem Mishap.eq_of_bootstrap {o : Mishap} {up : Bool} (h : o.bootstrap up = .ok ()) :
    up = false := by
  cases up with
  | true => cases h
  | false => rfl

theorem Mishap.eq_of_read {o : Mishap} {stored : Option Bytes} {b : Bytes}
    (h : o.read stored = .ok b) : stored = some b := by
  unfold Mishap.read at h
  split at h
  · cases h
  · cases h
    rfl
  · cases h

namespace Facility

/-- The credentials of one cluster are replaced. -/
def keep (s : Facility) (c : String) (new : Credentials) : Facility :=
  { s with creds := Function.update s.creds c new }

/-- An answer to an operation: what is written is written, and nothing else goes wrong. -/
def answer (s : Facility) (o : Mishap) : (op : Op) → op.Reply × Facility
  | .store op =>
    ((op.exec s.store).1,
      { s.note ⟨.store op, (op.exec s.store).1⟩ with store := (op.exec s.store).2 })
  | .creds (.talosConfig c) =>
    let rep := o.read (s.creds c).talosconfig
    (rep, s.note (ev (.creds (.talosConfig c)) rep))
  | .creds (.kubeConfig c) =>
    let rep := o.read (s.creds c).kubeconfig
    (rep, s.note (ev (.creds (.kubeConfig c)) rep))
  | .creds (.secrets c) =>
    let rep := o.read (s.creds c).secrets
    (rep, s.note (ev (.creds (.secrets c)) rep))
  | .creds (.put c talos kube) =>
    (.ok (), (s.note (ev (.creds (.put c talos kube)) (.ok ()))).keep c
      { s.creds c with talosconfig := some talos, kubeconfig := some kube })
  | .creds (.putSecrets c bundle) =>
    (.ok (), (s.note (ev (.creds (.putSecrets c bundle)) (.ok ()))).keep c
      { s.creds c with secrets := some bundle })
  | .creds (.delete c) => (.ok (), (s.note (ev (.creds (.delete c)) (.ok ()))).keep c {})
  | .provisioner c (.stage mac profile cfg) =>
    (.ok (), { s.note (ev (.provisioner c (.stage mac profile cfg)) (.ok ())) with
      staged := Function.update s.staged mac (some cfg) })
  | .provisioner c (.unstage mac) =>
    (.ok (), { s.note (ev (.provisioner c (.unstage mac)) (.ok ())) with
      staged := Function.update s.staged mac none })
  | .talos c (.bootstrap node) =>
    match o.bootstrap (s.etcd node) with
    | .error text => (.error text, s.note (ev (.talos c (.bootstrap node)) (.error text)))
    | .ok () => (.ok (), { s.note (ev (.talos c (.bootstrap node)) (.ok ())) with
        etcd := Function.update s.etcd node true })
  | .machinery .generateSecrets =>
    -- a new one each time
    (.ok [.ofNat s.log.length],
      s.note (ev (.machinery .generateSecrets) (.ok [.ofNat s.log.length])))
  | .machinery (.marshalSecrets b) =>
    (.ok (0 :: b), s.note (ev (.machinery (.marshalSecrets b)) (.ok (0 :: b))))
  | op => (Oracle.working "v1.7.0" [] op, s.note ⟨op, Oracle.working "v1.7.0" [] op⟩)

theorem answer_handles (s : Facility) (o : Mishap) (op : Op) :
    s.handles ⟨op, (s.answer o op).1⟩ (s.answer o op).2 := by
  cases op with
  | store op =>
    exact ⟨⟨(op.exec s.store).2⟩,
      World.answer_handles ⟨s.store⟩ (Oracle.working "" []) (.store op), rfl⟩
  | creds op =>
    cases op with
    | talosConfig | kubeConfig | secrets =>
      exact ⟨s.creds, ⟨rfl, fun _ => Mishap.eq_of_read⟩, rfl⟩
    | put c talos kube =>
      exact ⟨_, ⟨⟨some talos, some kube, _⟩, rfl, Or.inl rfl, Or.inl rfl, rfl⟩, rfl⟩
    | putSecrets c bundle =>
      exact ⟨_, ⟨⟨_, _, some bundle⟩, rfl, Or.inl rfl, rfl, rfl⟩, rfl⟩
    | delete => exact ⟨_, ⟨_, rfl, Or.inl rfl, Or.inl rfl, Or.inl rfl⟩, rfl⟩
  | provisioner c op =>
    cases op with
    | stage | unstage => exact ⟨_, ⟨_, rfl, fun _ => rfl⟩, rfl⟩
  | talos c op =>
    cases op with
    | bootstrap node =>
      cases h : o.bootstrap (s.etcd node) with
      | error text =>
        simp only [answer, h]
        rfl
      | ok u =>
        simp only [answer, h]
        exact ⟨Mishap.eq_of_bootstrap h, rfl⟩
    | _ => rfl
  | machinery op =>
    cases op with
    | marshalSecrets b => exact ⟨nofun, rfl⟩
    | _ => rfl
  | _ => rfl

end Facility

def bringUpPlayer (r : BootstrapReconciler) (cluster : String) :
    Player (bringUp r cluster) Mishap where
  allowed := Hand.may
  answer := Facility.answer
  may h := h
  handles := Facility.answer_handles

/-! ## Events -/

/-- The operation writes or removes bootstrap records. -/
def Op.arms : Op → Bool
  | .store (.putClusterBootstrap _) | .store (.deleteCluster _) => true
  | _ => false

theorem Op.arms_of_passive {op : Op} (h : op.passive = true) : op.arms = false := by
  unfold Op.arms
  split
  · cases h
  · cases h
  · rfl

/-- Whatever the operation writes as a bootstrap record satisfies `P`, and it removes none. -/
def Op.Records (P : ClusterBootstrap → Prop) : Op → Prop
  | .store (.putClusterBootstrap cb) => P cb
  | .store (.deleteCluster _) => False
  | _ => True

theorem Op.records_of_passive {P : ClusterBootstrap → Prop} (op : Op) (h : op.passive = true) :
    op.Records P := by
  unfold Op.Records
  split
  · cases h
  · cases h
  · trivial

namespace Facility

variable {s s' : Facility} {e : Ev} {cb : ClusterBootstrap}

/-- The bootstrap record of the cluster. -/
def record (s : Facility) (cluster : String) : Option ClusterBootstrap :=
  s.store.db.bootstraps[cluster]?

/-- What an operation does to the parts of the facility. -/
structure Moved (s : Facility) (e : Ev) (s' : Facility) : Prop where
  log : s'.log = s.log ++ [e]
  store : Ev.Fits s.store e ∧ s'.store = Ev.after s.store e
  /-- Credentials change by calls on the credential store only. -/
  creds : s'.creds = s.creds ∨ ∃ op rep, e = ⟨.creds op, rep⟩ ∧ op.moves s.creds s'.creds rep
  /-- Configurations change by calls on the provisioner only. -/
  staged : s'.staged = s.staged ∨
    ∃ c op rep, e = ⟨.provisioner c op, rep⟩ ∧ op.moves s.staged s'.staged rep
  /-- An initialized node stays so. -/
  etcd : ∀ {node}, s.etcd node = true → s'.etcd node = true

theorem moved (h : s.handles e s') : Moved s e s' := by
  unfold handles at h
  split at h
  · obtain ⟨w, hw, rfl⟩ := h
    exact ⟨rfl, World.handles_event hw, Or.inl rfl, Or.inl rfl, id⟩
  · obtain ⟨k, hk, rfl⟩ := h
    exact ⟨rfl, ⟨trivial, rfl⟩, Or.inr ⟨_, _, rfl, hk⟩, Or.inl rfl, id⟩
  · obtain ⟨m, hm, rfl⟩ := h
    exact ⟨rfl, ⟨trivial, rfl⟩, Or.inl rfl, Or.inr ⟨_, _, _, rfl, hm⟩, id⟩
  · obtain ⟨-, rfl⟩ := h
    refine ⟨rfl, ⟨trivial, rfl⟩, Or.inl rfl, Or.inl rfl, ?_⟩
    intro node hn
    show Function.update s.etcd _ true node = true
    rw [Function.update_apply, hn, ite_self]
  · obtain ⟨-, rfl⟩ := h
    exact ⟨rfl, ⟨trivial, rfl⟩, Or.inl rfl, Or.inl rfl, id⟩
  next hstore _ _ _ _ =>
    subst h
    refine ⟨rfl, ?_, Or.inl rfl, Or.inl rfl, id⟩
    obtain ⟨op, rep⟩ := e
    cases op with
    | store op => exact absurd rfl fun heq => hstore op rep heq
    | _ => exact ⟨trivial, rfl⟩

/-! ## The bootstrap record -/

theorem bootstraps_after {op : StoreOp} (hop : (Op.store op).arms = false) {s : Store}
    {rep : (Op.store op).Reply} (hfit : Ev.Fits s ⟨.store op, rep⟩) :
    (Ev.after s ⟨.store op, rep⟩).db.bootstraps = s.db.bootstraps := by
  cases hw : op.writes with
  | false => rw [db_after_read hw rep]
  | true =>
    cases rep with
    | error e => rfl
    | ok v =>
      obtain ⟨db, hc, hdb⟩ := db_after_write hw hfit
      rw [hdb]
      cases op with
      | putClusterBootstrap | deleteCluster => cases hop
      | putClusterDesired | putNodePoolDesired | putMachineDesired | deleteMachine | putHostDesired
      | deleteHost | putMachineRollout | putClusterRollout | putRolloutJob =>
        cases hc
        rfl
      | _ => cases hw

/-- A bootstrap record is written by its own call only. -/
theorem record_handles (cluster : String) (h : s.handles e s') (hop : e.op.arms = false) :
    s'.record cluster = s.record cluster := by
  obtain ⟨hfit, hstore⟩ := (moved h).store
  obtain ⟨op, rep⟩ := e
  rw [record, hstore]
  cases op with
  | store op => rw [bootstraps_after hop hfit, record]
  | _ => rfl

/-- What is recorded of the cluster after a record was written, or was to be written. -/
theorem record_put (cluster : String) {rep : Except StoreError Unit}
    (h : s.handles (ev (.store (.putClusterBootstrap cb)) rep) s') :
    (rep = .ok () ∧ cb.cluster = cluster ∧
        s'.record cluster = some { cb with revision := s.store.db.revision + 1 }) ∨
      ((∃ e, rep = .error e) ∨ cb.cluster ≠ cluster) ∧ s'.record cluster = s.record cluster := by
  obtain ⟨hfit, hstore⟩ := (moved h).store
  rw [record, hstore]
  cases rep with
  | error e => exact Or.inr ⟨Or.inl ⟨e, rfl⟩, rfl⟩
  | ok u =>
    obtain ⟨db, hw, hdb⟩ := db_after_write rfl hfit
    cases hw
    rw [hdb]
    by_cases hc : cb.cluster = cluster
    · exact Or.inl ⟨rfl, hc, (Bucket.get_insert ..).trans (if_pos hc)⟩
    · exact Or.inr ⟨Or.inr hc, (Bucket.get_insert ..).trans (if_neg hc)⟩

/-- What is recorded of the cluster was so before, or has just been written. -/
theorem record_cases (cluster : String) {P : ClusterBootstrap → Prop} (h : s.handles e s')
    (hop : e.op.Records P) : s'.record cluster = s.record cluster ∨
      ∃ cb, P cb ∧ cb.cluster = cluster ∧
        s'.record cluster = some { cb with revision := s.store.db.revision + 1 } := by
  obtain ⟨op, rep⟩ := e
  unfold Op.Records at hop
  split at hop
  next cb heq =>
    cases heq
    rcases record_put cluster h with ⟨-, hc, hrec⟩ | ⟨-, hrec⟩
    · exact Or.inr ⟨cb, hop, hc, hrec⟩
    · exact Or.inl hrec
  · cases hop
  next hput hdelete =>
    left
    apply record_handles cluster h
    unfold Op.arms
    split
    next cb heq => exact absurd heq fun heq => hput cb heq
    next c heq => exact absurd heq fun heq => hdelete c heq
    next => rfl

/-- A record that is read is the one that is stored, and nothing else happens. -/
theorem record_read {cluster : String} {rep : Except StoreError (Option ClusterBootstrap)}
    (h : s.handles (ev (.store (.getClusterBootstrap cluster)) rep) s') (hrep : rep = .ok (some cb)) :
    s'.record cluster = some cb := by
  obtain ⟨hfit, -⟩ := (moved h).store
  subst hrep
  have hread : s.store.getClusterBootstrap cluster = some cb := Except.ok.inj (Ev.Fits.ok hfit)
  rw [record_handles cluster h rfl]
  exact hread

/-- A record lies under the name of its cluster. -/
theorem record_cluster {cluster : String} (hs : s.store.Reachable) (h : s.record cluster = some cb) :
    cb.cluster = cluster :=
  congrArg Prod.snd (hs.revisions.own _ _ _ (DB.entry_of_bootstrap h)).1

end Facility

end Medea
