import Medea.Interaction.Coupling
import Medea.Inventory.Backup
import Medea.Inventory.Effects

/-!
# Observed state

What was last seen of a cluster or a machine is only in memory. It is joined into the records that
are read, and taken off the records that are written. Two stores are alike if they agree on everything
else; alike stores answer alike (`StoreOp.exec_alike`).

A program is blind to observed state if it makes alike calls and returns alike values for alike
answers, whatever is observed. `exportAll_blind` and `importAll_blind` are about backups.
-/

set_option autoImplicit false

namespace Medea

open Medea.Interaction

/-! ## Alike values -/

/-- The record without its observed part. -/
def Cluster.blank (c : Cluster) : Cluster := { c with observed := none }

def Machine.blank (m : Machine) : Machine := { m with observed := none }

/-- The store with nothing observed. -/
def Store.blank (s : Store) : Store := { s with obsCluster := ∅, obsMachine := ∅ }

/-- The two stores differ in what was observed at most. -/
def Store.Alike (s s' : Store) : Prop := s.blank = s'.blank

theorem Store.alike_iff {s s' : Store} :
    s.Alike s' ↔ s.db = s'.db ∧ s.lastRev = s'.lastRev ∧ s.subs = s'.subs := by
  simp [Store.Alike, Store.blank]

/-- What is left of a value that a store call returns. -/
def StoreOp.view : (op : StoreOp) → op.Value → op.Value
  | .getCluster _ => fun x => (x.1.map Cluster.blank, x.2)
  | .listClusters => fun cs => cs.map Cluster.blank
  | .getMachine _ _ => fun x => (x.1.map Machine.blank, x.2)
  | .listMachines _ _ => fun ms => ms.map Machine.blank
  | _ => id

/-- The results are the same error, or values that look the same. -/
def Agree {ε α γ : Type} (view : α → γ) (r r' : Except ε α) : Prop := r.map view = r'.map view

theorem agree_cases {ε α γ : Type} {view : α → γ} {r r' : Except ε α} (h : Agree view r r') :
    (∃ e, r = .error e ∧ r' = .error e) ∨ ∃ a a', r = .ok a ∧ r' = .ok a' ∧ view a = view a' := by
  cases r with
  | error e =>
    cases r' with
    | error e' =>
      cases h
      exact Or.inl ⟨e, rfl, rfl⟩
    | ok a' => cases h
  | ok a =>
    cases r' with
    | error e' => cases h
    | ok a' => exact Or.inr ⟨a, a', rfl, rfl, Except.ok.inj h⟩

theorem eq_of_agree_id {ε α : Type} {r r' : Except ε α} (h : Agree id r r') : r = r' := by
  rcases agree_cases h with ⟨e, rfl, rfl⟩ | ⟨a, a', rfl, rfl, haa'⟩
  · rfl
  · exact congrArg Except.ok haa'

/-! ## Alike calls -/

/-- The same call, or the same write of records that differ in what was observed. -/
inductive StoreOp.Alike : StoreOp → StoreOp → Prop
  | same (op : StoreOp) : StoreOp.Alike op op
  | cluster {c c' : Cluster} (expected : Nat) : c.blank = c'.blank →
      StoreOp.Alike (.putClusterDesired c expected) (.putClusterDesired c' expected)
  | machine {m m' : Machine} (expected : Nat) : m.blank = m'.blank →
      StoreOp.Alike (.putMachineDesired m expected) (.putMachineDesired m' expected)

/-- Alike calls on the store, or the same call to the outside. -/
inductive Op.Alike : Op → Op → Prop
  | store {op op' : StoreOp} : StoreOp.Alike op op' → Op.Alike (.store op) (.store op')
  | outside (op : Op) : Op.Alike op op

/-- Alike calls with alike answers. -/
inductive Ev.Alike : Ev → Ev → Prop
  | store {op : StoreOp} {r r' : Except StoreError op.Value} : Agree op.view r r' →
      Ev.Alike ⟨.store op, r⟩ ⟨.store op, r'⟩
  | cluster {c c' : Cluster} (expected : Nat) (r : Except StoreError Nat) : c.blank = c'.blank →
      Ev.Alike ⟨.store (.putClusterDesired c expected), r⟩ ⟨.store (.putClusterDesired c' expected), r⟩
  | machine {m m' : Machine} (expected : Nat) (r : Except StoreError Nat) : m.blank = m'.blank →
      Ev.Alike ⟨.store (.putMachineDesired m expected), r⟩ ⟨.store (.putMachineDesired m' expected), r⟩
  | outside (e : Ev) : Ev.Alike e e

/-! ## Alike stores -/

namespace StoreOp

variable {s s' : Store}

/-- What is observed shows in the observed part of an answer only, and nowhere in the store after it. -/
theorem exec_blank (op : StoreOp) (s : Store) :
    Agree op.view (op.exec s).1 (op.exec s.blank).1 ∧
      (op.exec s).2.blank = (op.exec s.blank).2.blank := by
  cases hw : op.writes with
  | true =>
    rcases exec_settles hw (show s.db = s.blank.db from rfl) with
      ⟨e, he, he'⟩ | ⟨db, v, kind, key, t, t', -, ⟨ht, hsubs, hr⟩, ht', hsubs', hr'⟩
    · rw [he, he']
      exact ⟨rfl, rfl⟩
    · rw [hr, hr']
      refine ⟨rfl, ?_⟩
      simp [Store.blank, Store.commit, Store.publish, ht, ht', hsubs, hsubs']
  | false =>
    cases op with
    | getCluster cluster =>
      refine ⟨?_, rfl⟩
      simp only [Agree, exec, Store.getCluster, view, Except.map, Store.blank]
      cases s.db.clusters[cluster]? <;> rfl
    | listClusters =>
      refine ⟨?_, rfl⟩
      simp [Agree, exec, Store.listClusters, view, Except.map, Store.blank, Cluster.blank]
    | getMachine cluster addr =>
      refine ⟨?_, rfl⟩
      simp only [Agree, exec, Store.getMachine, view, Except.map, Store.blank]
      cases s.db.machines[ckey cluster addr]? <;> rfl
    | listMachines cluster pool =>
      refine ⟨?_, rfl⟩
      simp [Agree, exec, Store.listMachines, view, Except.map, Store.blank, Machine.blank]
    | _ => first | exact ⟨rfl, rfl⟩ | cases hw

/-- A record is written without its observed part. -/
theorem putClusterDesired_blank {c c' : Cluster} (h : c.blank = c'.blank) (expected : Nat)
    (s : Store) : (putClusterDesired c expected).exec s = (putClusterDesired c' expected).exec s := by
  have hname : c.name = c'.name := by simpa [Cluster.blank] using congrArg Cluster.name h
  have hstamp : ∀ rev, Store.clusterTable.stamp c rev = Store.clusterTable.stamp c' rev :=
    fun rev => congrArg (fun d : Cluster => { d with revision := rev }) h
  simp only [exec, Store.putClusterDesired, Store.putCAS, Store.write, hname, hstamp]

theorem putMachineDesired_blank {m m' : Machine} (h : m.blank = m'.blank) (expected : Nat)
    (s : Store) : (putMachineDesired m expected).exec s = (putMachineDesired m' expected).exec s := by
  have hcluster : m.cluster = m'.cluster := by
    simpa [Machine.blank] using congrArg Machine.cluster h
  have haddr : m.talosEndpoint = m'.talosEndpoint := by
    simpa [Machine.blank] using congrArg Machine.talosEndpoint h
  have hstamp : ∀ rev, Store.machineTable.stamp m rev = Store.machineTable.stamp m' rev :=
    fun rev => congrArg (fun d : Machine => { d with revision := rev }) h
  simp only [exec, Store.putMachineDesired, Store.putCAS, Store.write, hcluster, haddr, hstamp]

/-- Alike stores answer alike calls alike, and are alike after them. -/
theorem exec_alike {op op' : StoreOp} (hop : op.Alike op') (hs : s.Alike s') :
    Ev.Alike ⟨.store op, (op.exec s).1⟩ ⟨.store op', (op'.exec s').1⟩ ∧
      (op.exec s).2.Alike (op'.exec s').2 := by
  have hsame : ∀ op : StoreOp, Agree op.view (op.exec s).1 (op.exec s').1 ∧
      (op.exec s).2.Alike (op.exec s').2 := by
    intro op
    obtain ⟨hrep, hafter⟩ := exec_blank op s
    obtain ⟨hrep', hafter'⟩ := exec_blank op s'
    rw [← hs] at hrep' hafter'
    exact ⟨hrep.trans hrep'.symm, hafter.trans hafter'.symm⟩
  cases hop with
  | same op => exact ⟨.store (hsame op).1, (hsame op).2⟩
  | @cluster c c' expected hc =>
    rw [← putClusterDesired_blank hc expected s']
    obtain ⟨hrep, hafter⟩ := hsame (.putClusterDesired c expected)
    refine ⟨?_, hafter⟩
    rw [eq_of_agree_id hrep]
    exact .cluster expected _ hc
  | @machine m m' expected hm =>
    rw [← putMachineDesired_blank hm expected s']
    obtain ⟨hrep, hafter⟩ := hsame (.putMachineDesired m expected)
    refine ⟨?_, hafter⟩
    rw [eq_of_agree_id hrep]
    exact .machine expected _ hm

end StoreOp

/-! ## Blind programs -/

/-- With alike answers the two programs make alike calls and return values related by `Q`. -/
abbrev Blind {α β : Type} (Q : α → β → Prop) (p : Prog α) (p' : Prog β) : Prop :=
  Program.Coupled Op.Alike Ev.Alike Q p p'

section Blind

variable {α β γ ε : Type} {Q : β → β → Prop} {view : α → γ}

/-- On both sides an error, or values that look the same. -/
theorem Blind.elim {p p' : Prog (Except ε α)} {k k' : Except ε α → Prog β}
    (hp : Blind (Agree view) p p') (herror : ∀ e, Blind Q (k (.error e)) (k' (.error e)))
    (hok : ∀ a a', view a = view a' → Blind Q (k (.ok a)) (k' (.ok a'))) :
    Blind Q (p >>= k) (p' >>= k') := by
  refine hp.bind ?_
  intro r r' hr
  rcases agree_cases hr with ⟨e, rfl, rfl⟩ | ⟨a, a', rfl, rfl, haa'⟩
  · exact herror e
  · exact hok a a' haa'

/-- A condition that is the same on both sides. -/
theorem ite_blind {c : Prop} [Decidable c] {p p' q q' : Prog β} (hp : Blind Q p p')
    (hq : Blind Q q q') : Blind Q (if c then p else q) (if c then p' else q') := by
  split_ifs
  · exact hp
  · exact hq

/-- A call on the store. -/
theorem callStore_blind (op : StoreOp) : Blind (Agree op.view) (callStore op) (callStore op) := by
  refine Program.coupled_perform (O := Op.Alike) (E := Ev.Alike) (.store (.same op)) ?_
  intro r r' hr
  cases hr with
  | store h => exact h
  | cluster | machine | outside => rfl

/-- A call that returns nothing observed. -/
theorem callPlain_blind (op : StoreOp) (hop : op.view = id) :
    Blind Eq (callStore op) (callStore op) := by
  refine (callStore_blind op).mono ?_
  intro r r' hr
  rw [hop] at hr
  exact eq_of_agree_id hr

/-- A call to the outside. -/
theorem call_blind (op : Op) (hop : ∀ o, op ≠ .store o) : Blind Eq (call op) (call op) := by
  refine Program.coupled_perform (.outside op) ?_
  intro r r' hr
  cases hr with
  | store | cluster | machine => exact absurd rfl (hop _)
  | outside e => rfl

/-- The write of a cluster that was read. -/
theorem putCluster_blind {c c' : Cluster} (h : c.blank = c'.blank) (expected : Nat) :
    Blind Eq (callStore (.putClusterDesired c expected))
      (callStore (.putClusterDesired c' expected)) := by
  refine Program.coupled_perform (O := Op.Alike) (E := Ev.Alike) (.store (.cluster expected h)) ?_
  intro r r' hr
  cases hr with
  | store hr => exact eq_of_agree_id hr
  | cluster | outside => rfl

end Blind

/-! ## Backups -/

namespace ExportDoc

/-- A document is made of the records without their observed part. -/
theorem addCluster_blank (doc : ExportDoc) (nps : List NodePool) (hs : List Host) {c c' : Cluster}
    {ms ms' : List Machine} (hc : c.blank = c'.blank)
    (hms : ms.map Machine.blank = ms'.map Machine.blank) :
    doc.addCluster c nps ms hs = doc.addCluster c' nps ms' hs := by
  have hmachines : ms.map (fun m => (.ok m.blank : Except String Machine)) =
      ms'.map fun m => .ok m.blank := by
    simpa [Function.comp_def] using congrArg (List.map (Except.ok (ε := String))) hms
  show ExportDoc.mk (doc.clusters ++ [.ok c.blank]) _ (doc.machines ++ ms.map fun m => .ok m.blank) _ =
    ExportDoc.mk (doc.clusters ++ [.ok c'.blank]) _ (doc.machines ++ ms'.map fun m => .ok m.blank) _
  rw [hc, hmachines]

theorem exportClusters_blind {cs cs' : List Cluster}
    (hcs : cs.map Cluster.blank = cs'.map Cluster.blank) (doc : ExportDoc) :
    Blind Eq (exportClusters cs doc) (exportClusters cs' doc) := by
  induction cs generalizing cs' doc with
  | nil =>
    obtain rfl : cs' = [] := by simpa using hcs.symm
    exact .done rfl
  | cons c cs ih =>
    cases cs' with
    | nil => cases hcs
    | cons c' cs' =>
      obtain ⟨hc, hcs⟩ : c.blank = c'.blank ∧ cs.map Cluster.blank = cs'.map Cluster.blank := by
        simpa using hcs
      have hname : c.name = c'.name := by simpa [Cluster.blank] using congrArg Cluster.name hc
      rw [exportClusters, exportClusters, hname]
      refine (callPlain_blind _ rfl).bind ?_
      rintro nps _ rfl
      cases nps with
      | error e => exact .done rfl
      | ok nps =>
        refine (callStore_blind _).elim (fun e => .done rfl) ?_
        intro ms ms' hms
        refine (callPlain_blind _ rfl).bind ?_
        rintro hs _ rfl
        cases hs with
        | error e => exact .done rfl
        | ok hs =>
          have hdoc := addCluster_blank doc nps hs hc hms
          simp only [hdoc]
          exact ih hcs _

/-- An export is the same whatever is observed. -/
theorem exportAll_blind : Blind Eq exportAll exportAll := by
  refine (callStore_blind _).elim (fun e => .done rfl) ?_
  intro cs cs' hcs
  exact exportClusters_blind hcs {}

/-- One message: of the stored record only the revision is used. -/
theorem restoreRecord_blind {V : Type} {read : V → Prog (Except StoreError Nat)}
    {write : V → Nat → Prog (Except StoreError Nat)} (hread : ∀ v, Blind Eq (read v) (read v))
    (hwrite : ∀ v rev, Blind Eq (write v rev) (write v rev)) (msg : Except String V) :
    Blind Eq (restoreRecord read write msg) (restoreRecord read write msg) := by
  cases msg with
  | error e => exact .done rfl
  | ok v =>
    refine (hread v).bind ?_
    rintro rep _ rfl
    cases rep with
    | error e => exact .done rfl
    | ok rev =>
      refine (hwrite v rev).bind ?_
      rintro rep _ rfl
      cases rep <;> exact .done rfl

/-- The revision of a record is not part of what is observed. -/
theorem revisionRead_blind {V : Type} {blank : V → V}
    {p : Prog (Except StoreError (Option V × Nat))}
    (hp : Blind (Agree fun x => (x.1.map blank, x.2)) p p) :
    Blind Eq (p >>= revisionRead) (p >>= revisionRead) := by
  refine hp.elim (fun e => .done rfl) ?_
  intro x x' hx
  refine .done ?_
  exact congrArg Except.ok (Prod.mk.inj hx).2

theorem restoreCluster_blind (msg : Except String Cluster) :
    Blind Eq (restoreCluster msg) (restoreCluster msg) :=
  restoreRecord_blind (fun c => revisionRead_blind (callStore_blind (.getCluster c.name)))
    (fun c rev => callPlain_blind (.putClusterDesired c rev) rfl) msg

theorem restoreNodePool_blind (msg : Except String NodePool) :
    Blind Eq (restoreNodePool msg) (restoreNodePool msg) := by
  refine restoreRecord_blind (fun np => ?_)
    (fun np rev => callPlain_blind (.putNodePoolDesired np rev) rfl) msg
  refine (callPlain_blind (.getNodePool np.cluster np.name) rfl).bind ?_
  rintro rep _ rfl
  exact .done rfl

theorem restoreMachine_blind (msg : Except String Machine) :
    Blind Eq (restoreMachine msg) (restoreMachine msg) :=
  restoreRecord_blind
    (fun m => revisionRead_blind (callStore_blind (.getMachine m.cluster m.talosEndpoint)))
    (fun m rev => callPlain_blind (.putMachineDesired m rev) rfl) msg

theorem restoreHost_blind (msg : Except String Host) :
    Blind Eq (restoreHost msg) (restoreHost msg) := by
  refine restoreRecord_blind (fun h => ?_)
    (fun h rev => callPlain_blind (.putHostDesired h rev) rfl) msg
  refine (callPlain_blind (.getHost h.cluster h.mac) rfl).bind ?_
  rintro rep _ rfl
  exact .done rfl

/-- An import makes the same writes whatever is observed. -/
theorem importAll_blind (doc : Except String ExportDoc) : Blind Eq (importAll doc) (importAll doc) := by
  cases doc with
  | error e => exact .done rfl
  | ok doc =>
    refine (Program.coupled_untilSome fun msg _ => restoreCluster_blind msg).bind ?_
    rintro res _ rfl
    cases res with
    | some e => exact .done rfl
    | none =>
      refine (Program.coupled_untilSome fun msg _ => restoreNodePool_blind msg).bind ?_
      rintro res _ rfl
      cases res with
      | some e => exact .done rfl
      | none =>
        refine (Program.coupled_untilSome fun msg _ => restoreMachine_blind msg).bind ?_
        rintro res _ rfl
        cases res with
        | some e => exact .done rfl
        | none => exact Program.coupled_untilSome fun msg _ => restoreHost_blind msg

end ExportDoc

end Medea
