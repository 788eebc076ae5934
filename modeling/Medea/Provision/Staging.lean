import Medea.Provision.Matchbox

/-!
# What a call does to the boot files

`Transfer` is how far a call has come with a download, as its own events show it, and `staging` is the
contract of a call: it writes and removes the files of its hosts, creates the temporary file of an asset
it has a response for, writes to the file it has created from where it has come to, and renames it to
the asset when all of the response is written. `Matchbox.serve_keeps` says that every call keeps it.
-/

set_option autoImplicit false

namespace Medea

open Medea.Interaction Medea.Files

/-- The copy of the asset at a URL is kept at `dest`. -/
def GoLib.Mirrors (lib : GoLib) (root url dest : String) : Prop :=
  ∃ u, lib.parseURL url = .ok u ∧ (u.scheme = "http" ∨ u.scheme = "https") ∧
    dest = Matchbox.assetPath root u

/-- The hosts and the boot assets of calls. -/
structure Scope where
  macs : String → Prop
  urls : String → Prop

/-- The call is for a host and for assets in the scope. -/
def Scope.Covers (sc : Scope) : BootCall → Prop
  | .stage mac profile _ => sc.macs mac ∧ ∀ url ∈ profile.kernel :: profile.initrd, sc.urls url
  | .unstage mac => sc.macs mac

/-- How far a call has come with a download. What a file holds after a failed write is not known. -/
inductive Transfer where
  | idle
  | fetched (url : String) (d : Download)
  | holding (url temp : String) (d : Download) (file : Nat) (written : Option Bytes)

def Transfer.next (w : Transfer) : Event bootSig → Transfer
  | ⟨.get url, .ok d⟩ => .fetched url d
  | ⟨.file (.create temp), .ok n⟩ =>
    match w with
    | .fetched url d => .holding url temp d n (some [])
    | _ => w
  | ⟨.file (.write _ _ chunk), rep⟩ =>
    match w, rep with
    | .holding url temp d n written, .ok () =>
      .holding url temp d n (written.map (· ++ chunk))
    | .holding url temp d n _, .error _ => .holding url temp d n none
    | _, _ => w
  | ⟨.file (.remove _), _⟩ | ⟨.file (.rename _ _), _⟩ => .idle
  | _ => w

section Contract

variable (lib : GoLib) (root : String) (sc : Scope)

/-- An asset in the scope, with the path of its copy. -/
def Scope.Asset (url dest : String) : Prop := sc.urls url ∧ lib.Mirrors root url dest

/-- The path of a file of a host in the scope. -/
def Scope.BootFile (path : String) : Prop :=
  ∃ mac, sc.macs mac ∧ path ∈ Matchbox.bootFiles root (lib.keyFor mac)

def Transfer.Allows (w : Transfer) : BootOp → Prop
  | .get _ | .file (.stat _) | .file (.mkdirAll _) | .file (.close _) => True
  | .file (.writeFile path _) => sc.BootFile lib root path
  | .file (.create path) => ∃ url dest d, w = .fetched url d ∧ sc.Asset lib root url dest ∧
      path = Matchbox.tempPath dest
  | .file (.write n offset _) => ∃ url temp d written,
      w = .holding url temp d n (some written) ∧ offset = written.length
  | .file (.remove path) => sc.BootFile lib root path ∨
      ∃ url d n written, w = .holding url path d n written
  | .file (.rename old new) => ∃ url d n, w = .holding url old d n (some d.body) ∧
      d.failure = none ∧ d.status / 100 = 2 ∧ sc.Asset lib root url new ∧
      old = Matchbox.tempPath new

/-- The contract of a call. -/
def staging : Contract bootSig Transfer :=
  .quiet (fun _ _ => True) (fun w e => w.Allows lib root sc e.op) Transfer.next

end Contract

namespace Matchbox

variable {lib : GoLib} {root : String} {sc : Scope} {α : Type} {Q : α → Transfer → Prop} {w : Transfer}

theorem file_keeps {op : DiskOp UInt8} {k : Except FileError op.Value → BootProg α}
    (hop : w.Allows lib root sc (.file op))
    (hk : ∀ rep, (k rep).Keeps (staging lib root sc) Q (w.next ⟨.file op, rep⟩)) :
    (BootProg.file op >>= k).Keeps (staging lib root sc) Q w := by
  rintro _ rfl rep -
  exact ⟨hop, hk rep⟩

theorem get_keeps {url : String} {k : Except String Download → BootProg α}
    (hk : ∀ rep, (k rep).Keeps (staging lib root sc) Q (w.next ⟨.get url, rep⟩)) :
    (BootProg.get url >>= k).Keeps (staging lib root sc) Q w := by
  rintro _ rfl rep -
  exact ⟨trivial, hk rep⟩

theorem return_keeps {a : α} (h : Q a w) :
    (pure a : BootProg α).Keeps (staging lib root sc) Q w := by
  rintro _ rfl
  exact h

variable {url dest temp : String} {d : Download} {n : Nat}

/-- All of the response is written, or the copying has failed somewhere. -/
theorem copy_keeps (chunks : List Bytes) (written : Bytes) (h : written ++ chunks.flatten = d.body) :
    (copy n written.length d.failure chunks).Keeps (staging lib root sc)
      (fun r w => ∃ end_, w = .holding url temp d n end_ ∧
        (r = .ok () → end_ = some d.body ∧ d.failure = none))
      (.holding url temp d n (some written)) := by
  induction chunks generalizing written with
  | nil =>
    rw [List.flatten_nil, List.append_nil] at h
    unfold copy
    cases d.failure with
    | none => exact return_keeps ⟨some written, rfl, fun _ => ⟨by rw [h], rfl⟩⟩
    | some e => exact return_keeps ⟨some written, rfl, nofun⟩
  | cons chunk chunks ih =>
    refine file_keeps ⟨url, temp, d, written, rfl, rfl⟩ fun rep => ?_
    cases rep with
    | error e => exact return_keeps ⟨none, rfl, nofun⟩
    | ok u =>
      have hnext := ih (written ++ chunk) (by rw [← h, List.flatten_cons, List.append_assoc])
      rw [List.length_append] at hnext
      exact hnext

theorem save_keeps (ha : sc.Asset lib root url dest) (hd : d.status / 100 = 2) :
    (save d dest).Keeps (staging lib root sc) (fun _ _ => True) (.fetched url d) := by
  refine file_keeps ⟨url, dest, d, rfl, ha, rfl⟩ fun rep => ?_
  cases rep with
  | error e => exact return_keeps trivial
  | ok n =>
    refine (copy_keeps d.chunks [] rfl).bind ?_
    rintro r _ ⟨written, rfl, hr⟩
    cases r with
    | error e =>
      refine file_keeps trivial fun _ => ?_
      refine file_keeps (Or.inr ⟨url, d, n, written, rfl⟩) fun _ => ?_
      exact return_keeps trivial
    | ok u =>
      obtain ⟨rfl, hf⟩ := hr rfl
      refine file_keeps trivial fun rep => ?_
      cases rep with
      | error e =>
        refine file_keeps (Or.inr ⟨url, d, n, _, rfl⟩) fun _ => ?_
        exact return_keeps trivial
      | ok u =>
        refine file_keeps ⟨url, d, n, rfl, hf, hd, ha, rfl⟩ fun rep => ?_
        cases rep with
        | error | ok => exact return_keeps trivial

theorem fetch_keeps (ha : sc.Asset lib root url dest) :
    (fetch url dest).Keeps (staging lib root sc) (fun _ _ => True) w := by
  refine file_keeps trivial fun rep => ?_
  cases rep with
  | error e => exact return_keeps trivial
  | ok u =>
    refine get_keeps fun rep => ?_
    cases rep with
    | error e => exact return_keeps trivial
    | ok d =>
      dsimp only
      split
      next hd => exact save_keeps ha hd
      next => exact return_keeps trivial

theorem fetchIfAbsent_keeps (ha : sc.Asset lib root url dest) :
    (fetchIfAbsent url dest).Keeps (staging lib root sc) (fun _ _ => True) w := by
  refine file_keeps trivial fun rep => ?_
  cases rep with
  | error e => exact fetch_keeps ha
  | ok size =>
    dsimp only
    split
    · exact return_keeps trivial
    · exact fetch_keeps ha

variable {s : Matchbox}

theorem mirror_keeps (hs : s.root = root) (hurl : sc.urls url) :
    (s.mirror lib url).Keeps (staging lib root sc) (fun _ _ => True) w := by
  rw [mirror]
  split
  · exact return_keeps trivial
  split
  · exact return_keeps trivial
  next u hu =>
    split
    · exact return_keeps trivial
    next hremote =>
      rw [not_or, not_and_or, not_not, not_not] at hremote
      refine (fetchIfAbsent_keeps ⟨hurl, u, hu, hremote.1, by rw [hs]⟩).bind fun r w _ => ?_
      cases r with
      | error | ok => exact return_keeps trivial

theorem mirrorAll_keeps (hs : s.root = root) {urls : List String} (hurls : ∀ url ∈ urls, sc.urls url) :
    (s.mirrorAll lib urls).Keeps (staging lib root sc) (fun _ _ => True) w := by
  induction urls generalizing w with
  | nil => exact return_keeps trivial
  | cons url urls ih =>
    refine (mirror_keeps hs (hurls url List.mem_cons_self)).bind fun r w _ => ?_
    cases r with
    | error e => exact return_keeps trivial
    | ok copy =>
      refine (ih fun v hv => hurls v (List.mem_cons_of_mem _ hv)).bind fun r w _ => ?_
      cases r with
      | error | ok => exact return_keeps trivial

theorem writeJSON_keeps {dir key : String} {r : BootRecord}
    (hfile : sc.BootFile lib root (path s.root dir (key ++ ".json"))) :
    (s.writeJSON lib dir key r).Keeps (staging lib root sc) (fun _ _ => True) w := by
  refine file_keeps hfile fun rep => ?_
  cases rep with
  | error | ok => exact return_keeps trivial

variable {mac : String}

/-- The files of a host in the scope. -/
theorem bootFile (hs : s.root = root) (hmac : sc.macs mac) {f : String}
    (hf : f ∈ bootFiles s.root (lib.keyFor mac)) : sc.BootFile lib root f :=
  ⟨mac, hmac, hs ▸ hf⟩

theorem publish_keeps (hs : s.root = root) (hmac : sc.macs mac) {kernel : String}
    {initrd args : List String} :
    (s.publish lib mac kernel initrd args).Keeps (staging lib root sc) (fun _ _ => True) w := by
  refine (writeJSON_keeps (bootFile hs hmac (by simp [bootFiles]))).bind fun r w _ => ?_
  cases r with
  | error e => exact return_keeps trivial
  | ok u => exact writeJSON_keeps (bootFile hs hmac (by simp [bootFiles]))

theorem stage_keeps (hs : s.root = root) (hmac : sc.macs mac) {p : Profile} {cfg : Bytes}
    (hurls : ∀ url ∈ p.kernel :: p.initrd, sc.urls url) :
    (s.stage lib mac p cfg).Keeps (staging lib root sc) (fun _ _ => True) w := by
  rw [stage]
  split
  · exact return_keeps trivial
  · refine file_keeps (bootFile hs hmac (by simp [bootFiles])) fun rep => ?_
    cases rep with
    | error e => exact return_keeps trivial
    | ok u =>
      refine (mirror_keeps hs (hurls _ List.mem_cons_self)).bind fun r w _ => ?_
      cases r with
      | error e => exact return_keeps trivial
      | ok kernel =>
        refine (mirrorAll_keeps hs fun url hurl => hurls url (List.mem_cons_of_mem _ hurl)).bind
          fun r w _ => ?_
        cases r with
        | error e => exact return_keeps trivial
        | ok initrd => exact publish_keeps hs hmac

theorem removeAll_keeps {fs : List String} (hfs : ∀ f ∈ fs, sc.BootFile lib root f) :
    (removeAll fs).Keeps (staging lib root sc) (fun _ _ => True) w := by
  induction fs generalizing w with
  | nil => exact return_keeps trivial
  | cons f fs ih =>
    have hrest := fun f hf => hfs f (List.mem_cons_of_mem _ hf)
    refine file_keeps (Or.inl (hfs f List.mem_cons_self)) fun rep => ?_
    cases rep with
    | ok u => exact ih hrest
    | error e =>
      dsimp only
      split
      · exact ih hrest
      · exact return_keeps trivial

/-- Every call keeps its contract. -/
theorem serve_keeps (hs : s.root = root) {call : BootCall} (hc : sc.Covers call) :
    (s.serve lib call).Keeps (staging lib root sc) (fun _ _ => True) w := by
  cases call with
  | stage mac p cfg => exact stage_keeps hs hc.1 hc.2
  | unstage mac => exact removeAll_keeps fun f hf => bootFile hs hc hf

end Matchbox

/-! ## Calls side by side -/

/-- The file of the download in progress. -/
def Transfer.file : Transfer → Option Nat
  | .holding _ _ _ n _ => some n
  | _ => none

/-- The temporary file of the download in progress, by its path. -/
def Transfer.temp : Transfer → Option String
  | .holding _ temp _ _ _ => some temp
  | _ => none

section Runs

variable {ι : Type} [DecidableEq ι]

/-- The downloads of all callers, after one more label. -/
def Transfer.after (m : ι → Transfer) : Label bootSig ι BootTask → ι → Transfer
  | .start i _ => Function.update m i .idle
  | .act i e => Function.update m i ((m i).next e)
  | .crash => fun _ => .idle

variable (lib : GoLib) (root : String) (sc : Scope) (cwd : Place) (ι)

/-- An assertion about the disk and the downloads in progress that every call keeps, in runs whose
labels meet a condition. -/
structure Custody where
  assumes : (ι → Transfer) → Label bootSig ι BootTask → Prop
  rel : Disk UInt8 → (ι → Transfer) → Prop
  covers : ∀ {m i t}, assumes m (.start i t) → sc.Covers t.call
  act : ∀ {m i e d d'}, assumes m (.act i e) → rel d m → bootHandles cwd d e d' →
    (m i).Allows lib root sc e.op → rel d' (Function.update m i ((m i).next e))
  /-- A download that is given up is no download. -/
  drop : ∀ {m m' d}, rel d m → (∀ i, m' i = m i ∨ m' i = .idle) → rel d m'

/-- The contract of a call, as a contract on the downloads of all callers. -/
def callerContract (i : ι) : Contract bootSig (ι → Transfer) where
  drift m m' := m i = m' i
  admits _ _ := True
  allows m e := (m i).Allows lib root sc e.op
  next m e := Function.update m i ((m i).next e)
  drift_refl _ := rfl
  drift_trans := Eq.trans

namespace Custody

variable {lib root sc cwd ι} (V : Custody ι lib root sc cwd)

def supervision : Supervision (bootPlane lib root cwd ι) (ι → Transfer) where
  contract := callerContract ι lib root sc
  mark := Transfer.after
  assumes := V.assumes
  rel := V.rel
  idle _ _ := True
  idle_drift _ _ := trivial
  admits _ _ _ := trivial
  act hass hrel hw hall :=
    ⟨V.act hass hrel hw hall, fun _ hj => (Function.update_of_ne hj ..).symm⟩
  start {i t d m} hmay hass hrel _ := by
    refine ⟨V.drop hrel ?_, ?_, fun j hj => (Function.update_of_ne hj ..).symm⟩
    · intro j
      by_cases hj : j = i
      · rw [hj]
        exact Or.inr (Function.update_self ..)
      · exact Or.inl (Function.update_of_ne hj ..)
    · have hserve : (discard (t.store.serve lib t.call)).Keeps (staging lib root sc)
          (fun _ _ => True) (Transfer.after m (.start i t) i) :=
        (Matchbox.serve_keeps hmay (V.covers hass)).bind fun _ _ _ => Matchbox.return_keeps trivial
      exact Program.Keeps.of_part (fun m : ι → Transfer => m i) (fun h => h) (fun _ => trivial)
        (fun h => h) (fun m e => Function.update_self ..) hserve
  crash _ hrel := ⟨V.drop hrel fun _ => Or.inr rfl, fun _ => trivial⟩

/-- The assertion holds as far as one caller has come. -/
theorem steps_rel {i : ι} (hact : ∀ m e, V.assumes m (.act i e)) {α : Type} {p q : BootProg α}
    {Q : α → Transfer → Prop} {tr : Trace bootSig} (hs : p.Steps tr q) {d d' : Disk UInt8}
    (ha : Answered (bootHandles cwd) d tr d') {m : ι → Transfer}
    (hp : p.Keeps (staging lib root sc) Q (m i)) (hd : V.rel d m) : ∃ m', V.rel d' m' := by
  induction hs generalizing d m with
  | refl p =>
    cases ha
    exact ⟨m, hd⟩
  | head r _ ih =>
    obtain ⟨v, hv, ha⟩ := ha
    obtain ⟨hall, hnext⟩ := hp _ rfl r trivial
    refine ih ha ?_ (V.act (hact _ _) hd hv hall)
    rw [Function.update_self]
    exact hnext

/-- The assertion holds along a run, from a disk where it holds without downloads. -/
theorem runs_rel {d : Disk UInt8} {ls : List (Label bootSig ι BootTask)}
    {c : Config bootSig (Disk UInt8) ι}
    (hr : (bootPlane lib root cwd ι).Runs (Config.idle bootSig ι d) ls c)
    (hd : V.rel d fun _ => .idle) (ha : Along Transfer.after V.assumes (fun _ => .idle) ls) :
    V.rel c.world (ls.foldl Transfer.after fun _ => .idle) := by
  have htrack : ∀ m l, V.supervision.track m l = Transfer.after m l := by
    intro m l
    cases l with
    | start | act | crash => rfl
  exact (V.supervision.runs_inv htrack hr (V.supervision.inv_idle hd fun _ => trivial) ha).1

end Custody

end Runs

end Medea
