import Medea.Interaction.Script
import Medea.Provision.Staging

/-!
# Complete boot assets

Matchbox serves an asset as soon as its file is there, so the file must never hold a part of the asset.
A download is collected in a temporary file, but all downloads of an asset use the same one: a second
download truncates the file that the first is about to rename. `asset_complete` says that this is the
only way: as long as no download creates a temporary file that another one still uses, and a response
that ends without an error has carried the asset, every asset that is there is complete, however the
calls of any number of stores over one directory are interleaved, and wherever they fail or are cut off.

The paths are what the profiles make of them. The condition on them, `Tidy`, says that assets with one
place have one content, and that an asset is kept apart from temporary files and from the files of hosts.
-/

set_option autoImplicit false

namespace Medea

open Medea.Interaction Medea.Files Matchbox

namespace BootAssets

variable {ι : Type} [DecidableEq ι] (lib : GoLib) (root : String) (cwd : Place) (sc : Scope)
  (source : String → Bytes)

/-- An asset that is there, and not empty, is complete. -/
def Complete (d : Disk UInt8) : Prop :=
  ∀ url dest b, sc.Asset lib root url dest → d.content (resolve cwd dest) = some b → b ≠ [] →
    b = source url

/-- The places of assets, temporary files and files of hosts are different. -/
structure Tidy : Prop where
  same : ∀ {url url' dest dest'}, sc.Asset lib root url dest → sc.Asset lib root url' dest' →
    resolve cwd dest = resolve cwd dest' → source url = source url'
  temp : ∀ {url url' dest dest'}, sc.Asset lib root url dest → sc.Asset lib root url' dest' →
    resolve cwd (Matchbox.tempPath dest) ≠ resolve cwd dest'
  boot : ∀ {url dest path}, sc.Asset lib root url dest → sc.BootFile lib root path →
    resolve cwd path ≠ resolve cwd dest ∧
      resolve cwd path ≠ resolve cwd (Matchbox.tempPath dest)

/-- A response that is taken for the asset is the asset, or empty. -/
def Faithful (url : String) (d : Download) : Prop :=
  d.status / 100 = 2 → d.failure = none → d.body = source url ∨ d.body = []

/-- The calls are for the hosts and assets in the scope, no temporary file is created while another
download uses it, and responses are faithful. -/
def Orderly (m : ι → Transfer) : Label bootSig ι BootTask → Prop
  | .start _ t => sc.Covers t.call
  | .act i ⟨.file (.create path), _⟩ =>
    ∀ j, j ≠ i → ∀ temp, (m j).temp = some temp → resolve cwd path ≠ resolve cwd temp
  | .act _ ⟨.get url, .ok d⟩ => Faithful source url d
  | _ => True

/-! ## The invariant -/

/-- What is known of a download in progress. -/
def Sound (d : Disk UInt8) : Transfer → Prop
  | .idle => True
  | .fetched url resp => Faithful source url resp
  | .holding url temp resp n written => Faithful source url resp ∧
      (∃ dest, sc.Asset lib root url dest ∧ temp = Matchbox.tempPath dest) ∧
      d.number (resolve cwd temp) = some n ∧ ∀ b, written = some b → d.data n = b

/-- No two downloads use one temporary file. -/
def Apart (m : ι → Transfer) : Prop :=
  ∀ i j, i ≠ j → ∀ temp temp', (m i).temp = some temp → (m j).temp = some temp' →
    resolve cwd temp ≠ resolve cwd temp'

structure Held (d : Disk UInt8) (m : ι → Transfer) : Prop where
  complete : Complete lib root cwd sc source d
  sound : ∀ i, Sound lib root cwd sc source d (m i)
  apart : Apart cwd m

variable {lib root cwd sc source} {d d' : Disk UInt8} {m : ι → Transfer} {i : ι} {w : Transfer}

theorem Complete.frame (h : Complete lib root cwd sc source d)
    (hs : ∀ url dest, sc.Asset lib root url dest → d.Same d' (resolve cwd dest)) :
    Complete lib root cwd sc source d' := by
  intro url dest b ha hb
  rw [(hs url dest ha).content] at hb
  exact h url dest b ha hb

theorem Sound.frame (h : Sound lib root cwd sc source d w)
    (hs : ∀ temp, w.temp = some temp → d.Same d' (resolve cwd temp)) :
    Sound lib root cwd sc source d' w := by
  cases w with
  | idle => trivial
  | fetched url resp => exact h
  | holding url temp resp n written =>
    obtain ⟨hresp, hasset, hn, hdata⟩ := h
    have hsame := hs temp rfl
    refine ⟨hresp, hasset, by rw [hsame.number, hn], ?_⟩
    intro b hb
    rw [hsame.data n hn]
    exact hdata b hb

/-- The temporary file of a download belongs to an asset. -/
theorem Sound.temp (h : Sound lib root cwd sc source d w) {temp : String} (ht : w.temp = some temp) :
    ∃ url dest, sc.Asset lib root url dest ∧ temp = tempPath dest := by
  cases w with
  | idle => cases ht
  | fetched url resp => cases ht
  | holding url temp' resp n written =>
    cases ht
    obtain ⟨-, ⟨dest, ha, hd⟩, -⟩ := h
    exact ⟨url, dest, ha, hd⟩

theorem Apart.update (h : Apart cwd m)
    (hw : ∀ temp, w.temp = some temp → ∀ j, j ≠ i → ∀ temp', (m j).temp = some temp' →
      resolve cwd temp ≠ resolve cwd temp') : Apart cwd (Function.update m i w) := by
  intro j k hjk temp temp' hj hk
  by_cases hji : j = i
  · subst hji
    rw [Function.update_self] at hj
    rw [Function.update_of_ne (Ne.symm hjk)] at hk
    exact hw temp hj k (Ne.symm hjk) temp' hk
  · rw [Function.update_of_ne hji] at hj
    by_cases hki : k = i
    · subst hki
      rw [Function.update_self] at hk
      exact Ne.symm (hw temp' hk j hji temp hj)
    · rw [Function.update_of_ne hki] at hk
      exact h j k hjk temp temp' hj hk

/-- One caller goes on; what the others have is left alone. -/
theorem Held.update (h : Held lib root cwd sc source d m)
    (hcomplete : Complete lib root cwd sc source d') (hw : Sound lib root cwd sc source d' w)
    (hothers : ∀ j, j ≠ i → ∀ temp, (m j).temp = some temp → d.Same d' (resolve cwd temp))
    (hapart : ∀ temp, w.temp = some temp → ∀ j, j ≠ i → ∀ temp', (m j).temp = some temp' →
      resolve cwd temp ≠ resolve cwd temp') :
    Held lib root cwd sc source d' (Function.update m i w) where
  complete := hcomplete
  sound := (Function.forall_update_iff m fun _ w => Sound lib root cwd sc source d' w).2
    ⟨hw, fun j hj => (h.sound j).frame (hothers j hj)⟩
  apart := h.apart.update hapart

/-- Everything is left alone, and the caller keeps its temporary file or gives it up. -/
theorem Held.spared (h : Held lib root cwd sc source d m)
    (hdest : ∀ url dest, sc.Asset lib root url dest → d.Same d' (resolve cwd dest))
    (hothers : ∀ j, j ≠ i → ∀ temp, (m j).temp = some temp → d.Same d' (resolve cwd temp))
    (hw : Sound lib root cwd sc source d' w) (htemp : w.temp = none ∨ w.temp = (m i).temp) :
    Held lib root cwd sc source d' (Function.update m i w) := by
  refine h.update (h.complete.frame hdest) hw hothers ?_
  intro temp ht j hj temp' hj'
  rcases htemp with hnone | hsame
  · rw [hnone] at ht
    cases ht
  · rw [hsame] at ht
    exact h.apart i j (Ne.symm hj) temp temp' ht hj'

/-! ## Steps -/

/-- A call that works on neither an asset nor a temporary file, and goes on as before. -/
theorem Held.elsewhere (h : Held lib root cwd sc source d m) {op : DiskOp UInt8} {rep : Except FileError op.Value}
    (hw : d.handles cwd ⟨op, rep⟩ d')
    (hspares : ∀ url dest, sc.Asset lib root url dest →
      op.Spares cwd d (resolve cwd dest) ∧ op.Spares cwd d (resolve cwd (tempPath dest))) :
    Held lib root cwd sc source d' (Function.update m i (m i)) := by
  have htemps : ∀ j temp, (m j).temp = some temp → d.Same d' (resolve cwd temp) := by
    intro j temp hj
    obtain ⟨url, dest, ha, rfl⟩ := (h.sound j).temp hj
    exact Disk.same_of_spares hw (hspares url dest ha).2
  refine h.spared (fun url dest ha => Disk.same_of_spares hw (hspares url dest ha).1)
    (fun j _ => htemps j) ?_ (Or.inr rfl)
  exact (h.sound i).frame (htemps i)

section Steps

variable (ht : Tidy lib root cwd sc source) (h : Held lib root cwd sc source d m)
variable {rep : Except FileError Unit}

include ht h

theorem Held.create {url dest : String} {resp : Download} {rep : Except FileError Nat}
    (hi : m i = .fetched url resp) (ha : sc.Asset lib root url dest)
    (hfree : ∀ j, j ≠ i → ∀ temp, (m j).temp = some temp →
      resolve cwd (tempPath dest) ≠ resolve cwd temp)
    (hw : d.handles cwd ⟨.create (tempPath dest), rep⟩ d') :
    Held lib root cwd sc source d' (Function.update m i
      ((m i).next ⟨.file (.create (tempPath dest)), rep⟩)) := by
  have hdest : ∀ url' dest', sc.Asset lib root url' dest' → d.Same d' (resolve cwd dest') :=
    fun _ _ ha' => Disk.same_of_spares hw (ht.temp ha ha')
  have hothers : ∀ j, j ≠ i → ∀ temp, (m j).temp = some temp → d.Same d' (resolve cwd temp) :=
    fun j hj temp hjt => Disk.same_of_spares hw (hfree j hj temp hjt)
  have hresp : Faithful source url resp := by
    have := h.sound i
    rwa [hi] at this
  rw [hi]
  cases rep with
  | error e => exact h.spared hdest hothers hresp (Or.inl rfl)
  | ok n =>
    obtain ⟨hn, hdata⟩ := hw.2 n rfl
    refine h.update (h.complete.frame hdest) ⟨hresp, ⟨dest, ha, rfl⟩, hn, ?_⟩ hothers ?_
    · intro b hb
      cases hb
      exact hdata
    · intro temp htemp j hj temp' hj'
      cases htemp
      exact hfree j hj temp' hj'

theorem Held.write {url temp : String} {resp : Download} {n : Nat} {written chunk : Bytes}
    (hi : m i = .holding url temp resp n (some written))
    (hw : d.handles cwd ⟨.write n written.length chunk, rep⟩ d') :
    Held lib root cwd sc source d' (Function.update m i
      ((m i).next ⟨.file (.write n written.length chunk), rep⟩)) := by
  have hsound := h.sound i
  rw [hi] at hsound
  obtain ⟨hresp, ⟨dest, ha, rfl⟩, hn, hdata⟩ := hsound
  -- no asset and no other download has the file
  have hdest : ∀ url' dest', sc.Asset lib root url' dest' → d.Same d' (resolve cwd dest') := by
    intro url' dest' ha'
    refine Disk.same_of_spares hw fun hn' => ?_
    exact ht.temp ha ha' (Disk.number_inj hn hn')
  have hothers : ∀ j, j ≠ i → ∀ temp, (m j).temp = some temp → d.Same d' (resolve cwd temp) := by
    intro j hj temp hjt
    refine Disk.same_of_spares hw fun hn' => ?_
    exact h.apart i j (Ne.symm hj) _ temp (by rw [hi]; rfl) hjt (Disk.number_inj hn hn')
  have hnumber : d'.number (resolve cwd (tempPath dest)) = some n := by
    rw [← hn]
    exact Disk.number_congr (by rw [hw.1.tree])
  rw [hi]
  cases rep with
  | error e =>
    refine h.spared hdest hothers ⟨hresp, ⟨dest, ha, rfl⟩, hnumber, nofun⟩ (Or.inr ?_)
    rw [hi]
    rfl
  | ok u =>
    refine h.spared hdest hothers ⟨hresp, ⟨dest, ha, rfl⟩, hnumber, ?_⟩ (Or.inr ?_)
    · intro b hb
      cases hb
      rw [hw.2 rfl, hdata written rfl, splice_end]
    · rw [hi]
      rfl

theorem Held.remove {path : String} (hpath : sc.BootFile lib root path ∨
      ∃ url resp n written, m i = .holding url path resp n written)
    (hw : d.handles cwd ⟨.remove path, rep⟩ d') :
    Held lib root cwd sc source d' (Function.update m i .idle) := by
  have hdest : ∀ url' dest', sc.Asset lib root url' dest' → resolve cwd path ≠ resolve cwd dest' := by
    intro url' dest' ha'
    rcases hpath with hboot | ⟨url, resp, n, written, hi⟩
    · exact (ht.boot ha' hboot).1
    · have htemp : (m i).temp = some path := by rw [hi]; rfl
      obtain ⟨url, dest, ha, rfl⟩ := (h.sound i).temp htemp
      exact ht.temp ha ha'
  have hothers : ∀ j, j ≠ i → ∀ temp, (m j).temp = some temp →
      resolve cwd path ≠ resolve cwd temp := by
    intro j hj temp hjt
    rcases hpath with hboot | ⟨url, resp, n, written, hi⟩
    · obtain ⟨url, dest, ha, rfl⟩ := (h.sound j).temp hjt
      exact (ht.boot ha hboot).2
    · exact h.apart i j (Ne.symm hj) path temp (by rw [hi]; rfl) hjt
  exact h.spared (fun url' dest' ha' => Disk.same_of_spares hw (hdest url' dest' ha'))
    (fun j hj temp hjt => Disk.same_of_spares hw (hothers j hj temp hjt)) trivial (Or.inl rfl)

/-- The place of the asset gets all of a response. -/
theorem Held.rename {url dest : String} {resp : Download} {n : Nat}
    (hi : m i = .holding url (tempPath dest) resp n (some resp.body))
    (hfull : resp.failure = none) (hok : resp.status / 100 = 2) (ha : sc.Asset lib root url dest)
    (hw : d.handles cwd ⟨.rename (tempPath dest) dest, rep⟩ d') :
    Held lib root cwd sc source d' (Function.update m i .idle) := by
  have hsound := h.sound i
  rw [hi] at hsound
  obtain ⟨hresp, -, hn, hdata⟩ := hsound
  have hfile : d.number (resolve cwd (tempPath dest)) ≠ none := by
    rw [hn]
    simp
  refine h.update ?_ trivial ?_ nofun
  · intro url' dest' b ha' hb hne
    by_cases hplace : resolve cwd dest = resolve cwd dest'
    · rcases hw.1 with rfl | hmoved
      · exact h.complete url' dest' b ha' hb hne
      · -- the file is the one that was written
        have hbody : b = resp.body := by
          rw [← hplace, Disk.content, hmoved.number_target hn, Option.map_some, hmoved.data,
            hdata _ rfl] at hb
          exact (Option.some.inj hb).symm
        rcases hresp hok hfull with hsource | hempty
        · rw [hbody, hsource]
          exact ht.same ha ha' hplace
        · exact absurd (hbody.trans hempty) hne
    · have hsame : d.Same d' (resolve cwd dest') :=
        Disk.same_of_spares hw (Or.inr ⟨hfile, ht.temp ha ha', hplace⟩)
      rw [hsame.content] at hb
      exact h.complete url' dest' b ha' hb hne
  · intro j hj temp hjt
    refine Disk.same_of_spares hw (Or.inr ⟨hfile, ?_, ?_⟩)
    · exact h.apart i j (Ne.symm hj) _ temp (by rw [hi]; rfl) hjt
    · obtain ⟨url', dest', ha', rfl⟩ := (h.sound j).temp hjt
      exact Ne.symm (ht.temp ha' ha)

end Steps

variable (ι lib root cwd sc source) in
/-- The assets are in good hands. -/
def custody (ht : Tidy lib root cwd sc source) : Custody ι lib root sc cwd where
  assumes := Orderly cwd sc source
  rel := Held lib root cwd sc source
  covers h := h
  act {m i e d d'} hass h hw hall := by
    obtain ⟨op, rep⟩ := e
    cases op with
    | get url =>
      cases hw
      cases rep with
      | error e =>
        show Held _ _ _ _ _ _ (Function.update m i (m i))
        rw [Function.update_eq_self]
        exact h
      | ok resp =>
        exact h.spared (fun _ _ _ => .refl _ _) (fun _ _ _ _ => .refl _ _) hass (Or.inl rfl)
    | file op =>
      have hfile : d.handles cwd ⟨op, rep⟩ d' := hw
      cases op with
      | stat | mkdirAll | close => exact h.elsewhere hfile fun _ _ _ => ⟨trivial, trivial⟩
      | writeFile path data => exact h.elsewhere hfile fun _ _ ha => ht.boot ha hall
      | create path =>
        obtain ⟨url, dest, resp, hi, ha, rfl⟩ := hall
        exact h.create ht hi ha hass hfile
      | write n offset chunk =>
        obtain ⟨url, temp, resp, written, hi, rfl⟩ := hall
        exact h.write ht hi hfile
      | remove path => exact h.remove ht hall hfile
      | rename old new =>
        obtain ⟨url, resp, n, hi, hfull, hok, ha, rfl⟩ := hall
        exact h.rename ht hi hfull hok ha hfile
  drop {m m' d} h hm := by
    refine ⟨h.complete, fun i => ?_, fun i j hij temp temp' hi hj => ?_⟩
    · rcases hm i with hi | hi
      · rw [hi]
        exact h.sound i
      · rw [hi]
        trivial
    · rcases hm i with hmi | hmi
      · rcases hm j with hmj | hmj
        · rw [hmi] at hi
          rw [hmj] at hj
          exact h.apart i j hij temp temp' hi hj
        · rw [hmj] at hj
          cases hj
      · rw [hmi] at hi
        cases hi

/-- From a disk whose assets are complete, every run of calls under the condition leads to one. -/
theorem asset_complete (lib : GoLib) (root : String) (cwd : Place) (sc : Scope)
    (source : String → Bytes) (ht : Tidy lib root cwd sc source) {d : Disk UInt8}
    (hd : Complete lib root cwd sc source d) {ls : List (Label bootSig ι BootTask)}
    {c : Config bootSig (Disk UInt8) ι}
    (hr : (bootPlane lib root cwd ι).Runs (Config.idle bootSig ι d) ls c)
    (ho : Along Transfer.after (Orderly cwd sc source) (fun _ => .idle) ls) :
    Complete lib root cwd sc source c.world := by
  have hheld : Held lib root cwd sc source d (fun _ : ι => .idle) :=
    ⟨hd, fun _ => trivial, nofun⟩
  exact ((custody ι lib root cwd sc source ht).runs_rel hr hheld ho).complete

/-! ## Runs -/

/-- The two stores of the server. -/
inductive Instance where
  | provisioning
  | bootstrap
  deriving DecidableEq

def kernel : String := "https://factory/kernel"

def asset : Bytes := [1, 2]

/-- Two hosts that boot the same kernel. -/
def hosts : Scope := ⟨fun mac => mac = "a" ∨ mac = "b", fun url => url = kernel⟩

def server : Matchbox := ⟨"/d", "http://boot", "boot", by decide⟩

/-- The data directory of a new store. -/
def fresh : Disk UInt8 :=
  [Matchbox.groupsDir, Matchbox.profilesDir, Matchbox.genericDir, Matchbox.assetsDir].foldl
    (fun d dir => d.grown ["d", dir]) (Disk.blank UInt8)

def stageHost (mac : String) : BootTask := ⟨server, .stage mac ⟨kernel, [], []⟩ [7]⟩

/-- A disk without errors; the responses are given. -/
def player : Player (bootPlane goLib "/d" [] Instance) Download where
  allowed _ t := t.store.root == "/d"
  answer d resp
    | .file op => d.answer [] op
    | .get _ => (.ok resp, d)
  may h := eq_of_beq h
  handles d resp op := by
    cases op with
    | file op => exact Disk.answer_handles op
    | get url => rfl

def inTwo : Download := ⟨200, [[1], [2]], none⟩

/-- The asset is saved by one store and found by the other. -/
def saved : List (Label bootSig Instance BootTask) × Config bootSig (Disk UInt8) Instance :=
  player.play (Cue.task .provisioning (stageHost "a") 11 inTwo ++
    Cue.task .bootstrap (stageHost "b") 4 inTwo) (Config.idle bootSig Instance fresh)

/-- The first download is renamed when the second has begun to write. -/
def mixed : List (Label bootSig Instance BootTask) × Config bootSig (Disk UInt8) Instance :=
  player.play (Cue.task .provisioning (stageHost "a") 8 inTwo ++
    Cue.task .bootstrap (stageHost "b") 6 inTwo ++ [.step .provisioning inTwo])
    (Config.idle bootSig Instance fresh)

theorem asset_iff {url dest : String} :
    hosts.Asset goLib "/d" url dest ↔ url = kernel ∧ dest = "/d/assets/kernel" := by
  have hparse : goLib.parseURL kernel = .ok ⟨"https", "factory", "/kernel"⟩ := by decide +kernel
  constructor
  · rintro ⟨rfl, u, hu, -, rfl⟩
    rw [hparse] at hu
    cases hu
    exact ⟨rfl, by decide +kernel⟩
  · rintro ⟨rfl, rfl⟩
    exact ⟨rfl, _, hparse, Or.inr rfl, by decide +kernel⟩

theorem hosts_tidy : Tidy goLib "/d" [] hosts (fun _ => asset) where
  same _ _ _ := rfl
  temp {url url' dest dest'} h h' := by
    obtain ⟨-, rfl⟩ := asset_iff.1 h
    obtain ⟨-, rfl⟩ := asset_iff.1 h'
    decide +kernel
  boot {url dest path} h hpath := by
    obtain ⟨-, rfl⟩ := asset_iff.1 h
    have hfiles : ∀ mac ∈ ["a", "b"], ∀ path ∈ bootFiles "/d" (goLib.keyFor mac),
        resolve [] path ≠ resolve [] "/d/assets/kernel" ∧
          resolve [] path ≠ resolve [] (tempPath "/d/assets/kernel") := by
      decide +kernel
    obtain ⟨mac, hmac, hfile⟩ := hpath
    exact hfiles mac (by simpa [hosts] using hmac) path hfile

theorem fresh_complete : Complete goLib "/d" [] hosts (fun _ => asset) fresh := by
  intro url dest b h hb
  obtain ⟨-, rfl⟩ := asset_iff.1 h
  have hnone : fresh.content (resolve [] "/d/assets/kernel") = none := by decide +kernel
  rw [hnone] at hb
  cases hb

/-- A step in order, checked. -/
def inOrder (m : Instance → Transfer) : Label bootSig Instance BootTask → Bool
  | .start _ ⟨_, .stage mac profile _⟩ =>
    ["a", "b"].contains mac && profile.kernel == kernel && profile.initrd.isEmpty
  | .start _ ⟨_, .unstage mac⟩ => ["a", "b"].contains mac
  | .act i ⟨.file (.create path), _⟩ => [Instance.provisioning, .bootstrap].all fun j =>
    j == i || (m j).temp.all fun temp => resolve [] path != resolve [] temp
  | .act _ ⟨.get _, .ok d⟩ => d.body == asset
  | _ => true

theorem orderly_of_inOrder {m : Instance → Transfer} {l : Label bootSig Instance BootTask}
    (h : inOrder m l = true) : Orderly [] hosts (fun _ => asset) m l := by
  rcases l with ⟨i, store, call⟩ | ⟨i, op, rep⟩ | _
  · cases call with
    | stage mac profile cfg =>
      simp only [inOrder, List.contains_cons, List.contains_nil, Bool.or_false, Bool.and_eq_true,
        Bool.or_eq_true, beq_iff_eq, List.isEmpty_iff] at h
      obtain ⟨⟨hmac, hkernel⟩, hinitrd⟩ := h
      refine ⟨hmac, ?_⟩
      intro url hurl
      rw [hinitrd, List.mem_singleton] at hurl
      rw [hurl]
      exact hkernel
    | unstage mac => simpa [inOrder, Orderly, Scope.Covers, hosts] using h
  · cases op with
    | get url =>
      cases rep with
      | error e => trivial
      | ok d => exact fun _ _ => Or.inl (eq_of_beq h)
    | file op =>
      cases op with
      | create path =>
        intro j hj temp htemp
        rw [inOrder, List.all_eq_true] at h
        have hfree := h j (by cases j <;> simp)
        simp only [Bool.or_eq_true, beq_iff_eq, hj, false_or, htemp, Option.all_some] at hfree
        simpa using hfree
      | _ => trivial
  · trivial

/-- Both hosts are staged; the asset is there and complete. -/
theorem saved_complete :
    saved.2.world.content (resolve [] "/d/assets/kernel") = some asset ∧
      Complete goLib "/d" [] hosts (fun _ => asset) saved.2.world := by
  have horder : Along Transfer.after (fun m l => inOrder m l = true) (fun _ => .idle) saved.1 := by
    decide +kernel
  exact ⟨by decide +kernel, asset_complete goLib "/d" [] hosts (fun _ => asset) hosts_tidy
    fresh_complete (player.play_runs _ _) (horder.mono fun _ _ => orderly_of_inOrder)⟩

/-- Both responses carry the whole asset, and half of it is served. -/
theorem mixed_incomplete :
    Tidy goLib "/d" [] hosts (fun _ => asset) ∧
      Complete goLib "/d" [] hosts (fun _ => asset) fresh ∧
      inTwo.body = asset ∧ inTwo.failure = none ∧
      (bootPlane goLib "/d" [] Instance).Runs (Config.idle bootSig Instance fresh) mixed.1 mixed.2 ∧
      mixed.2.world.content (resolve [] "/d/assets/kernel") = some [1] ∧
      ¬Complete goLib "/d" [] hosts (fun _ => asset) mixed.2.world := by
  have hhalf : mixed.2.world.content (resolve [] "/d/assets/kernel") = some [1] := by decide +kernel
  refine ⟨hosts_tidy, fresh_complete, rfl, rfl, player.play_runs _ _, hhalf, ?_⟩
  intro h
  have hfull := h kernel "/d/assets/kernel" [1] (asset_iff.2 ⟨rfl, rfl⟩) hhalf (by simp)
  exact absurd hfull (by decide)

end BootAssets

end Medea
