import Medea.Files.Disk
import Medea.Provision.Reconciler
import Medea.Provision.Url

/-!
# Boot files

`internal/provision/matchbox/matchbox.go`: the files that Matchbox serves to booting hosts. A host has a
machine configuration, a profile and a group, under a key made from its MAC. The boot assets of a
profile are downloaded once, through a temporary file that is renamed when the download is complete,
and kept under the path of their URL.

What is taken from the standard library of Go, `goLib`, is lower case of a character, the parser of URLs
and the JSON encoding. Little depends on how they work, and the code is modelled for any `GoLib`. The body
of a response is modelled as the list of the pieces in which it will arrive, and the error that ends it,
if any; reading it has no other effect.
-/

set_option autoImplicit false

namespace Medea

open Medea.Interaction Medea.Files

structure BootSpec where
  kernel : String
  initrd : List String
  args : List String

/-- The files that Matchbox reads as JSON. -/
inductive BootRecord where
  | profile (id name : String) (boot : BootSpec) (genericID : String)
  | group (id name profile : String) (selector : List (String × String))

/-! ## The standard library -/

namespace JSON

/-- A character in a string, as the encoder of `encoding/json` writes it. -/
def char (c : Char) : String :=
  if c = '"' then "\\\"" else if c = '\\' then "\\\\"
  else if c = '\n' then "\\n" else if c = '\r' then "\\r" else if c = '\t' then "\\t"
  else if c = '\x08' then "\\b" else if c = '\x0c' then "\\f"
  else if c = '\u2028' then "\\u2028" else if c = '\u2029' then "\\u2029"
  else if c.toNat < 0x20 ∨ c ∈ ['<', '>', '&'] then
    "\\u00" ++ String.ofList [Nat.digitChar (c.toNat / 16), Nat.digitChar (c.toNat % 16)]
  else String.singleton c

def text (s : String) : String := "\"" ++ String.join (s.toList.map char) ++ "\""

def field (key value : String) : String := text key ++ ": " ++ value

/-- `MarshalIndent`: the parts of an object or array on lines of their own. -/
def block (opening closing indent : String) (parts : List String) : String :=
  if parts = [] then opening ++ closing
  else opening ++ "\n" ++ String.intercalate ",\n" (parts.map (indent ++ "  " ++ ·)) ++ "\n" ++ indent ++
    closing

def object : String → List String → String := block "\x7b" "\x7d"

def array : String → List String → String := block "[" "]"

/-- A field with `omitempty`. -/
def texts (key indent : String) (ss : List String) : List String :=
  if ss = [] then [] else [field key (array indent (ss.map text))]

end JSON

open JSON in
/-- `writeJSON`: the content of a file. -/
def BootRecord.json : BootRecord → String
  | .profile id name boot genericID => object "" [field "id" (text id), field "name" (text name),
      field "boot" (object "  " (field "kernel" (text boot.kernel) ::
        (texts "initrd" "    " boot.initrd ++ texts "args" "    " boot.args))),
      field "generic_id" (text genericID)]
  | .group id name profileID selector => object "" [field "id" (text id), field "name" (text name),
      field "profile" (text profileID),
      field "selector" (object "  " (selector.map fun (key, value) => field key (text value)))]

/-- What is taken from the standard library. -/
structure GoLib where
  lower : Char → Char
  parseURL : String → Except String Url
  marshal : BootRecord → Bytes

/-- Lower case is the one of ASCII, in which MACs are written. -/
def goLib : GoLib := ⟨Char.toLower, Url.parse, fun r => r.json.toUTF8.data.toList⟩

/-- A response: its body arrives in pieces, and may break off with an error. -/
structure Download where
  status : Nat
  chunks : List Bytes
  failure : Option String

def Download.body (d : Download) : Bytes := d.chunks.flatten

inductive BootOp where
  | file (op : DiskOp UInt8)
  | get (url : String)

@[reducible] def BootOp.Reply : BootOp → Type
  | .file op => Except FileError op.Value
  | .get _ => Except String Download

def bootSig : Signature := ⟨BootOp, BootOp.Reply⟩

/-- Programs that work on boot files. -/
abbrev BootProg := Program bootSig

namespace BootProg

def file (op : DiskOp UInt8) : BootProg (Except FileError op.Value) :=
  Program.perform (S := bootSig) (.file op)

def get (url : String) : BootProg (Except String Download) := Program.perform (S := bootSig) (.get url)

end BootProg

/-- `keyFor`: a MAC as a file name. -/
def GoLib.keyFor (lib : GoLib) (mac : String) : String :=
  let dash (c : Char) : Char := if c = ':' ∨ c = '/' ∨ c = ' ' then '-' else c
  String.ofList ((mac.toList.map lib.lower).map dash)

/-- `Store`, with a data directory that has a name. -/
structure Matchbox where
  root : String
  httpURL : String
  httpHost : String
  named : root ≠ ""

namespace Matchbox

open BootProg

def groupsDir : String := "groups"

def profilesDir : String := "profiles"

def genericDir : String := "generic"

def assetsDir : String := "assets"

/-- The file of a name in one of the directories. -/
def path (root dir name : String) : String := joinPaths [root, dir, name]

/-- The files of a host. -/
def bootFiles (root key : String) : List String :=
  [path root groupsDir (key ++ ".json"), path root profilesDir (key ++ ".json"),
    path root genericDir key]

/-- Where the copy of an asset is kept. -/
def assetPath (root : String) (u : Url) : String := path root assetsDir (trimLeading u.path "/")

/-- Where the download of an asset is collected. -/
def tempPath (dest : String) : String := dest ++ ".tmp"

/-! ## Downloads -/

/-- `io.Copy` from the body of a response, at a position of the file. -/
def copy (n offset : Nat) (failure : Option String) : List Bytes → BootProg (Except String Unit)
  | [] =>
    match failure with
    | none => return .ok ()
    | some e => return .error e
  | chunk :: chunks => do
      match ← file (.write n offset chunk) with
      | .error e => return .error e.text
      | .ok () => copy n (offset + chunk.length) failure chunks

/-- The response is copied to the temporary file, which then takes the place of the asset. -/
def save (d : Download) (dest : String) : BootProg (Except String Unit) := do
  match ← file (.create (tempPath dest)) with
  | .error e => return .error e.text
  | .ok n =>
    match ← copy n 0 d.failure d.chunks with
    | .error e =>
      let _ ← file (.close n)
      let _ ← file (.remove (tempPath dest))
      return .error ("matchbox: write asset " ++ dest ++ ": " ++ e)
    | .ok () =>
      match ← file (.close n) with
      | .error e =>
        let _ ← file (.remove (tempPath dest))
        return .error e.text
      | .ok () =>
        match ← file (.rename (tempPath dest) dest) with
        | .error e => return .error e.text
        | .ok () => return .ok ()

/-- Making the request does not fail, since the URL was parsed before. -/
def fetch (srcURL dest : String) : BootProg (Except String Unit) := do
  match ← file (.mkdirAll (dirPath dest)) with
  | .error e => return .error ("matchbox: mkdir for asset: " ++ e.text)
  | .ok () =>
    match ← get srcURL with
    | .error e => return .error ("matchbox: mirror " ++ srcURL ++ ": " ++ e)
    | .ok d =>
      if d.status / 100 = 2 then save d dest
      else return .error ("matchbox: mirror " ++ srcURL ++ ": status " ++ toString d.status)

def fetchIfAbsent (srcURL dest : String) : BootProg (Except String Unit) := do
  match ← file (.stat dest) with
  | .ok size => if size > 0 then return .ok () else fetch srcURL dest
  | .error _ => fetch srcURL dest

variable (lib : GoLib) (s : Matchbox)

/-- The URL of the copy of an asset. -/
def mirror (rawURL : String) : BootProg (Except String String) :=
  if rawURL = "" then return .ok ""
  else
    match lib.parseURL rawURL with
    | .error e => return .error ("matchbox: parse boot asset " ++ quote rawURL ++ ": " ++ e)
    | .ok u =>
      if (u.scheme ≠ "http" ∧ u.scheme ≠ "https") ∨ u.host = s.httpHost then return .ok rawURL
      else do
        match ← fetchIfAbsent rawURL (assetPath s.root u) with
        | .error e => return .error e
        | .ok () => return .ok (s.httpURL ++ "/" ++ assetsDir ++ "/" ++ trimLeading u.path "/")

def mirrorAll : List String → BootProg (Except String (List String))
  | [] => return .ok []
  | url :: urls => do
      match ← s.mirror lib url with
      | .error e => return .error e
      | .ok local_ =>
        match ← mirrorAll urls with
        | .error e => return .error e
        | .ok locals => return .ok (local_ :: locals)

/-! ## Staging -/

def writeJSON (dir key : String) (r : BootRecord) : BootProg (Except String Unit) := do
  match ← file (.writeFile (path s.root dir (key ++ ".json")) (lib.marshal r)) with
  | .error e => return .error e.text
  | .ok () => return .ok ()

/-- The kernel argument that leads a host to its machine configuration. -/
def configArg : String :=
  "talos.config=" ++ s.httpURL ++ "/generic?mac=$\x7bnet0/mac:hexhyp\x7d&uuid=$\x7buuid\x7d"

/-- The profile and the group, once the assets are there. -/
def publish (mac kernel : String) (initrd args : List String) : BootProg (Except String Unit) := do
  let key := lib.keyFor mac
  match ← s.writeJSON lib profilesDir key
      (.profile key key ⟨kernel, initrd, args ++ [s.configArg]⟩ key) with
  | .error e => return .error e
  | .ok () => s.writeJSON lib groupsDir key (.group key key key [("mac", mac)])

def stage (mac : String) (p : Profile) (machineConfig : Bytes) : BootProg (Except String Unit) :=
  if mac = "" then return .error "matchbox: empty mac"
  else do
    match ← file (.writeFile (path s.root genericDir (lib.keyFor mac)) machineConfig) with
    | .error e => return .error ("matchbox: write generic config: " ++ e.text)
    | .ok () =>
      match ← s.mirror lib p.kernel with
      | .error e => return .error e
      | .ok kernel =>
        match ← s.mirrorAll lib p.initrd with
        | .error e => return .error e
        | .ok initrd => s.publish lib mac kernel initrd p.args

def removeAll : List String → BootProg (Except String Unit)
  | [] => return .ok ()
  | f :: fs => do
      match ← file (.remove f) with
      | .ok () => removeAll fs
      | .error e =>
        if e.missing then removeAll fs
        else return .error ("matchbox: remove " ++ f ++ ": " ++ e.text)

def unstage (mac : String) : BootProg (Except String Unit) :=
  removeAll (bootFiles s.root (lib.keyFor mac))

end Matchbox

/-! ## Callers side by side -/

/-- A call of the reconcilers. -/
inductive BootCall where
  | stage (mac : String) (profile : Profile) (machineConfig : Bytes)
  | unstage (mac : String)

def Matchbox.serve (lib : GoLib) (s : Matchbox) : BootCall → BootProg (Except String Unit)
  | .stage mac profile machineConfig => s.stage lib mac profile machineConfig
  | .unstage mac => s.unstage lib mac

/-- A call on one of the stores of a data directory. -/
structure BootTask where
  store : Matchbox
  call : BootCall

/-- The disk, with a network that does not change it. -/
def bootHandles (cwd : Place) (d : Disk UInt8) : Event bootSig → Disk UInt8 → Prop
  | ⟨.file op, rep⟩, d' => d.handles cwd ⟨op, rep⟩ d'
  | ⟨.get _, _⟩, d' => d' = d

/-- Any number of callers, on stores over one data directory. -/
def bootPlane (lib : GoLib) (root : String) (cwd : Place) (ι : Type) :
    System bootSig (Disk UInt8) ι BootTask where
  task t := discard (t.store.serve lib t.call)
  may _ t := t.store.root = root
  handle := bootHandles cwd
  restart d := d

end Medea
