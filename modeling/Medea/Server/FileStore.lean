import Medea.Files.Tree
import Medea.Inventory.Operations

/-!
# The credential store in files

`internal/creds/creds.go`: one directory per cluster below the directory of the store, with a file for
each of the three credentials. The name of the cluster is joined into the path as it is.
-/

set_option autoImplicit false

namespace Medea

open Medea.Interaction Medea.Files

/-- Programs that call the file system. -/
abbrev FileProg := Program (fileSig Bytes)

/-- Making the directory of the store fails when it has no path. -/
structure FileStore where
  dir : String
  named : dir ≠ ""

namespace FileStore

def talosFile : String := "talosconfig"

def kubeFile : String := "kubeconfig"

def secretsFile : String := "secrets.yaml"

/-- The files of a cluster. -/
def files : List String := [talosFile, kubeFile, secretsFile]

def writeSecret (path : String) (data : Bytes) : FileProg (Except String Unit) :=
  Program.perform (S := fileSig Bytes) (.writeFile path data)

variable (f : FileStore)

/-- The directory of a cluster. -/
def folder (cluster : String) : String := joinPath f.dir cluster

def put (cluster : String) (talos kube : Bytes) : FileProg (Except String Unit) := do
  match ← Program.perform (S := fileSig Bytes) (.mkdirAll (f.folder cluster)) with
  | .error e => return .error e
  | .ok () =>
    match ← writeSecret (joinPath (f.folder cluster) talosFile) talos with
    | .error e => return .error e
    | .ok () => writeSecret (joinPath (f.folder cluster) kubeFile) kube

def putSecrets (cluster : String) (secrets : Bytes) : FileProg (Except String Unit) := do
  match ← Program.perform (S := fileSig Bytes) (.mkdirAll (f.folder cluster)) with
  | .error e => return .error e
  | .ok () => writeSecret (joinPath (f.folder cluster) secretsFile) secrets

def delete (cluster : String) : FileProg (Except String Unit) :=
  if cluster = "" then return .error "creds: cluster required"
  else do
    match ← Program.perform (S := fileSig Bytes) (.removeAll (f.folder cluster)) with
    | .error e => return .error ("delete creds for " ++ quote cluster ++ ": " ++ e)
    | .ok () => return .ok ()

/-- What a read makes of the answer of the file system. -/
def readReply (cluster name : String) : Except String Bytes → Except String Bytes
  | .error e => .error ("read " ++ name ++ " for " ++ quote cluster ++ ": " ++ e)
  | .ok b => .ok b

def read (cluster name : String) : FileProg (Except String Bytes) := do
  return readReply cluster name
    (← Program.perform (S := fileSig Bytes) (.readFile (joinPaths [f.dir, cluster, name])))

/-- The calls of the rest of the program on the store. -/
def serve : (op : CredsOp) → FileProg (Except String op.Value)
  | .talosConfig cluster => f.read cluster talosFile
  | .kubeConfig cluster => f.read cluster kubeFile
  | .secrets cluster => f.read cluster secretsFile
  | .put cluster talos kube => f.put cluster talos kube
  | .putSecrets cluster secrets => f.putSecrets cluster secrets
  | .delete cluster => f.delete cluster

/-- Any number of callers, side by side. -/
def system (cwd : Place) : System (fileSig Bytes) (Files.Tree Bytes) Nat CredsOp where
  task op := discard (f.serve op)
  may _ _ := True
  handle := Tree.handles cwd
  restart t := t

/-- What a read returns when the file system does what it is asked. -/
def returns (cwd : Place) (t : Files.Tree Bytes) (cluster name : String) : Except String Bytes :=
  let path := joinPaths [f.dir, cluster, name]
  readReply cluster name
    ((t.read (resolve cwd path)).mapError fun e => "open " ++ path ++ ": " ++ e.text)

/-! ## Places -/

/-- Where the store is. -/
def home (cwd : Place) : Place := resolve cwd f.dir

/-- Where the files of a cluster are. -/
def place (cwd : Place) (cluster : String) : Place := walk (f.home cwd) cluster

variable {f} {cwd : Place} {cluster name : String}

theorem plain_of_mem_files (h : name ∈ files) : Plain name := by
  simp only [files, List.mem_cons, List.not_mem_nil, or_false] at h
  rcases h with rfl | rfl | rfl <;> exact ⟨by decide, by decide, by decide, by decide⟩

theorem resolve_folder : resolve cwd (f.folder cluster) = f.place cwd cluster :=
  resolve_joinPath f.named cluster

theorem resolve_file (h : Plain name) :
    resolve cwd (joinPath (f.folder cluster) name) = f.place cwd cluster ++ [name] := by
  have hfolder : f.folder cluster ≠ "" := joinPath_ne_empty f.named cluster
  rw [resolve_joinPath hfolder, resolve_folder, walk_plain h]

theorem resolve_read (h : Plain name) :
    resolve cwd (joinPaths [f.dir, cluster, name]) = f.place cwd cluster ++ [name] := by
  rw [resolve_joinPaths f.named, walk_plain h]
  rfl

theorem readReply_inj {cluster name path : String} {r r' : Except Errno Bytes}
    (h : readReply cluster name (r.mapError fun e => "open " ++ path ++ ": " ++ e.text) =
      readReply cluster name (r'.mapError fun e => "open " ++ path ++ ": " ++ e.text)) : r = r' := by
  cases r with
  | ok b =>
    cases r' with
    | ok b' => exact congrArg _ (Except.ok.inj h)
    | error e' => cases h
  | error e =>
    cases r' with
    | ok b' => cases h
    | error e' =>
      have htext : e.text = e'.text := by
        simpa [readReply, Except.mapError] using h
      rw [Errno.text_inj htext]

end FileStore

end Medea
