import Medea.Inventory.Operations

/-!
# Backups

`Export` and `Import` of `internal/store/watch.go`. A backup document holds the desired records only,
each as one JSON message; a message that is read back is a record or an error of the decoder. Neither
function is one transaction: both are sequences of calls on the store, and an import stops at the
first error with everything before it written.
-/

set_option autoImplicit false

namespace Medea

open Medea.Interaction

/-- The messages of a document, as the decoder reads them. -/
structure ExportDoc where
  clusters : List (Except String Cluster) := []
  nodePools : List (Except String NodePool) := []
  machines : List (Except String Machine) := []
  hosts : List (Except String Host) := []

namespace ExportDoc

/-- The document with the records of one more cluster. -/
def addCluster (doc : ExportDoc) (c : Cluster) (nps : List NodePool) (ms : List Machine)
    (hs : List Host) : ExportDoc where
  -- the listings join the observed cache in; it is not exported
  clusters := doc.clusters ++ [.ok { c with observed := none }]
  nodePools := doc.nodePools ++ nps.map .ok
  machines := doc.machines ++ ms.map fun m => .ok { m with observed := none }
  hosts := doc.hosts ++ hs.map .ok

/-- The clusters one after the other, each with its pools, machines and hosts. -/
def exportClusters : List Cluster → ExportDoc → Prog (Except String ExportDoc)
  | [], doc => return .ok doc
  | c :: cs, doc => do
      match ← callStore (.listNodePools c.name) with
      | .error e => return .error e.text
      | .ok nps =>
        match ← callStore (.listMachines c.name "") with
        | .error e => return .error e.text
        | .ok ms =>
          match ← callStore (.listHosts c.name "") with
          | .error e => return .error e.text
          | .ok hs => exportClusters cs (doc.addCluster c nps ms hs)

/-- `Export`. -/
def exportAll : Prog (Except String ExportDoc) := do
  match ← callStore .listClusters with
  | .error e => return .error e.text
  | .ok clusters => exportClusters clusters {}

/-- One message: the record is written over whatever revision the stored one has. -/
def restoreRecord {V : Type} (read : V → Prog (Except StoreError Nat))
    (write : V → Nat → Prog (Except StoreError Nat)) : Except String V → Prog (Option String)
  -- a message that cannot be decoded ends the import, what came before it stays
  | .error e => return some e
  | .ok v => do
      match ← read v with
      | .error e => return some e.text
      | .ok rev =>
        match ← write v rev with
        | .error e => return some e.text
        | .ok _ => return none

/-- The revision that a read returned. -/
def revisionRead {V : Type} (rep : Except StoreError (Option V × Nat)) : Prog (Except StoreError Nat) :=
  return rep.map Prod.snd

def restoreCluster : Except String Cluster → Prog (Option String) :=
  restoreRecord (fun c => callStore (.getCluster c.name) >>= revisionRead)
    fun c rev => callStore (.putClusterDesired c rev)

def restoreNodePool : Except String NodePool → Prog (Option String) :=
  restoreRecord (fun np => callStore (.getNodePool np.cluster np.name) >>= revisionRead)
    fun np rev => callStore (.putNodePoolDesired np rev)

def restoreMachine : Except String Machine → Prog (Option String) :=
  restoreRecord (fun m => callStore (.getMachine m.cluster m.talosEndpoint) >>= revisionRead)
    fun m rev => callStore (.putMachineDesired m rev)

def restoreHost : Except String Host → Prog (Option String) :=
  restoreRecord (fun h => callStore (.getHost h.cluster h.mac) >>= revisionRead)
    fun h rev => callStore (.putHostDesired h rev)

/-- Clusters, pools, machines and hosts, up to the first error. -/
def restore (doc : ExportDoc) : Prog (Option String) := do
  match ← Program.untilSome restoreCluster doc.clusters with
  | some e => return some e
  | none =>
    match ← Program.untilSome restoreNodePool doc.nodePools with
    | some e => return some e
    | none =>
      match ← Program.untilSome restoreMachine doc.machines with
      | some e => return some e
      | none => Program.untilSome restoreHost doc.hosts

/-- `Import` of a text that the decoder reads as a document, or not at all. -/
def importAll : Except String ExportDoc → Prog (Option String)
  | .error e => return some e
  | .ok doc => doc.restore

/-! ## What an import does to the store -/

/-- The calls an import makes. -/
def imports : Op → Prop
  | .store (.getCluster _) | .store (.putClusterDesired _ _) => True
  | .store (.getNodePool _ _) | .store (.putNodePoolDesired _ _) => True
  | .store (.getMachine _ _) | .store (.putMachineDesired _ _) => True
  | .store (.getHost _ _) | .store (.putHostDesired _ _) => True
  | _ => False

/-- An import only reads and puts desired records. -/
abbrev Imports {α : Type} (p : Prog α) : Prop := p.Within (fun _ => True) imports fun _ => True

theorem restoreRecord_imports {V : Type} {read : V → Prog (Except StoreError Nat)}
    {write : V → Nat → Prog (Except StoreError Nat)} (hr : ∀ v, Imports (read v))
    (hw : ∀ v rev, Imports (write v rev)) (raw : Except String V) :
    Imports (restoreRecord read write raw) := by
  rcases raw with e | v
  · trivial
  refine (hr v).bind fun rep _ => ?_
  rcases rep with e | rev
  · trivial
  refine (hw v rev).bind fun rep _ => ?_
  cases rep <;> trivial

theorem restoreCluster_imports (raw : Except String Cluster) : Imports (restoreCluster raw) := by
  -- the read, then the write
  refine restoreRecord_imports ?_ ?_ raw
  · exact fun _ => ⟨trivial, fun _ _ => trivial⟩
  · exact fun _ _ => ⟨trivial, fun _ _ => trivial⟩

theorem restoreNodePool_imports (raw : Except String NodePool) :
    Imports (restoreNodePool raw) := by
  refine restoreRecord_imports ?_ ?_ raw
  · exact fun _ => ⟨trivial, fun _ _ => trivial⟩
  · exact fun _ _ => ⟨trivial, fun _ _ => trivial⟩

theorem restoreMachine_imports (raw : Except String Machine) : Imports (restoreMachine raw) := by
  refine restoreRecord_imports ?_ ?_ raw
  · exact fun _ => ⟨trivial, fun _ _ => trivial⟩
  · exact fun _ _ => ⟨trivial, fun _ _ => trivial⟩

theorem restoreHost_imports (raw : Except String Host) : Imports (restoreHost raw) := by
  refine restoreRecord_imports ?_ ?_ raw
  · exact fun _ => ⟨trivial, fun _ _ => trivial⟩
  · exact fun _ _ => ⟨trivial, fun _ _ => trivial⟩

theorem importAll_imports (text : Except String ExportDoc) : Imports (importAll text) := by
  rcases text with e | doc
  · trivial
  -- the four loops, each followed by an exit on its error
  refine (Program.within_untilSome fun raw _ => restoreCluster_imports raw).bind fun res _ => ?_
  rcases res with _ | e
  swap
  · trivial
  refine (Program.within_untilSome fun raw _ => restoreNodePool_imports raw).bind fun res _ => ?_
  rcases res with _ | e
  swap
  · trivial
  refine (Program.within_untilSome fun raw _ => restoreMachine_imports raw).bind fun res _ => ?_
  rcases res with _ | e
  swap
  · trivial
  exact Program.within_untilSome fun raw _ => restoreHost_imports raw

end ExportDoc

end Medea
