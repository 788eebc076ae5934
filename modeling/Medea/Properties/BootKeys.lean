import Medea.ControlPlane.Origins
import Medea.Properties.BootAssets

/-!
# Boot files of different hosts

The store tells hosts apart by their cluster and their MAC, as the requests spell them. Matchbox tells
them apart by `keyFor` of the MAC alone: in lower case, with dashes for colons, blanks and slashes. Two
records of one machine, or of two spellings of one MAC, share their boot files, and a call for one of
them replaces or removes the files of the other.

`boot_files_agree`: as long as registrations with one key are registrations of one record, no two records
of a store have the same key, and calls for some of its hosts, in any number and interleaved in any way,
leave the files of the others alone. The key is never a way out of its directory, except that `.` and
`..` lead to the directory and the one above (`Files.walk_name`). The assets of the profiles are kept
where their URLs lead to, so the files of a host have to be clear of these places.
-/

set_option autoImplicit false
set_option maxRecDepth 100000

namespace Medea

open Medea.Interaction Medea.Files BootAssets

/-! ## Keys and places -/

namespace GoLib

variable (lib : GoLib) (mac : String)

theorem keyFor_noSlash : '/' ∉ (lib.keyFor mac).toList := by
  rw [keyFor, String.toList_ofList, List.mem_map]
  rintro ⟨c, -, hc⟩
  split_ifs at hc with hsep
  · exact absurd hc (by decide)
  · exact hsep (Or.inr (Or.inl hc))

theorem keyFor_ne_empty {mac : String} (h : mac ≠ "") : lib.keyFor mac ≠ "" := by
  intro hkey
  have hchars := congrArg String.toList hkey
  rw [keyFor, String.toList_ofList] at hchars
  apply h
  simpa using hchars

end GoLib

namespace Matchbox

theorem json_plain {key : String} (h : '/' ∉ key.toList) : Plain (key ++ ".json") :=
  plain_append h (by decide) (by decide)

theorem resolve_path {root dir : String} (hroot : root ≠ "") (hdir : Plain dir) (cwd : Place)
    (name : String) :
    resolve cwd (path root dir name) = walk (resolve cwd root ++ [dir]) name := by
  rw [path, resolve_joinPaths hroot, walk_plain hdir]

end Matchbox

/-- A key that is a name. -/
def IsName (key : String) : Prop := '/' ∉ key.toList ∧ key ≠ ""

/-- The kinds of boot files. -/
inductive BootKind where
  | group
  | profile
  | generic
  deriving DecidableEq

namespace BootKind

open Matchbox

def dir : BootKind → String
  | .group => groupsDir
  | .profile => profilesDir
  | .generic => genericDir

def name (key : String) : BootKind → String
  | .generic => key
  | _ => key ++ ".json"

/-- Where the file of a key is. -/
def place (root : String) (cwd : Place) (key : String) (kind : BootKind) : Place :=
  resolve cwd (path root kind.dir (kind.name key))

theorem exists_of_bootFile {root key f : String} (hf : f ∈ bootFiles root key) :
    ∃ kind : BootKind, f = path root kind.dir (kind.name key) := by
  simp only [bootFiles, List.mem_cons, List.not_mem_nil, or_false] at hf
  rcases hf with rfl | rfl | rfl
  · exact ⟨.group, rfl⟩
  · exact ⟨.profile, rfl⟩
  · exact ⟨.generic, rfl⟩

variable {root a b : String} {kind kind' : BootKind}

theorem dir_plain (kind : BootKind) : Plain kind.dir := by
  cases kind <;> exact ⟨by decide, by decide, by decide, by decide⟩

theorem name_plain (hkind : kind ≠ .generic) (ha : IsName a) : Plain (kind.name a) := by
  cases kind with
  | generic => exact absurd rfl hkind
  | group | profile => exact json_plain ha.1

theorem isName_name (kind : BootKind) (ha : IsName a) : IsName (kind.name a) := by
  cases kind with
  | generic => exact ha
  | group | profile => exact ⟨(json_plain ha.1).noSlash, (json_plain ha.1).nonempty⟩

/-- Different files are in different places. -/
theorem place_inj {cwd : Place} (hroot : root ≠ "") (ha : IsName a) (hb : IsName b)
    (h : kind.place root cwd a = kind'.place root cwd b) : kind = kind' ∧ a = b := by
  rw [place, place, resolve_path hroot kind.dir_plain, resolve_path hroot kind'.dir_plain] at h
  obtain ⟨ha1, ha2⟩ := kind.isName_name ha
  obtain ⟨hb1, hb2⟩ := kind'.isName_name hb
  by_cases hkind : kind = kind'
  · subst hkind
    have hname := walk_name_inj kind.dir_plain.noDots ha1 ha2 hb1 hb2 h
    cases kind <;> exact ⟨rfl, by simpa [name] using hname⟩
  · have hdir : kind.dir ≠ kind'.dir := by
      revert hkind
      cases kind <;> cases kind' <;> decide
    -- one of them is a JSON file, which leads into its directory
    by_cases hg : kind = .generic
    · have hg' : kind' ≠ .generic := fun h' => hkind (hg.trans h'.symm)
      exact absurd h.symm (walk_plain_ne hdir.symm (name_plain hg' hb) kind.dir_plain.noDots ha1 ha2)
    · exact absurd h (walk_plain_ne hdir (name_plain hg ha) kind'.dir_plain.noDots hb1 hb2)

end BootKind

namespace BootKeys

variable {ι : Type} [DecidableEq ι]

/-! ## A place that calls leave alone -/

section Frame

variable (lib : GoLib) (root : String) (cwd : Place) (sc : Scope) (q : Place)

/-- The files of assets are neither at the place nor above it. -/
def AssetsClear : Prop :=
  ∀ url dest, sc.Asset lib root url dest →
    ¬resolve cwd dest <+: q ∧ ¬resolve cwd (Matchbox.tempPath dest) <+: q

/-- What calls write is elsewhere. -/
structure Clear : Prop where
  boot : ∀ {path}, sc.BootFile lib root path → resolve cwd path ≠ q
  asset : AssetsClear lib root cwd sc q

/-- What was at the place is there, and no download in progress has it. -/
structure Kept (d₀ d : Disk UInt8) (m : ι → Transfer) : Prop where
  same : d₀.Same d q
  file : ∀ i n, (m i).file = some n → d.number q ≠ some n
  temp : ∀ i temp, (m i).temp = some temp → resolve cwd temp ≠ q

variable {lib root cwd sc q} {d₀ d d' : Disk UInt8} {m : ι → Transfer} {i : ι} {w : Transfer}

theorem Clear.temp (h : Clear lib root cwd sc q) {url dest : String}
    (ha : sc.Asset lib root url dest) : resolve cwd (Matchbox.tempPath dest) ≠ q := by
  intro heq
  exact (h.asset url dest ha).2 (heq ▸ List.prefix_rfl)

/-- One caller goes on. -/
theorem Kept.update (h : Kept cwd q d₀ d m) (hsame : d.Same d' q)
    (hfile : ∀ n, w.file = some n → d'.number q ≠ some n)
    (htemp : ∀ temp, w.temp = some temp → resolve cwd temp ≠ q) :
    Kept cwd q d₀ d' (Function.update m i w) where
  same := h.same.trans hsame
  file := (Function.forall_update_iff m fun _ w => ∀ n, w.file = some n → d'.number q ≠ some n).2
    ⟨hfile, fun j _ => hsame.number ▸ h.file j⟩
  temp := (Function.forall_update_iff m fun _ w => ∀ temp, w.temp = some temp → resolve cwd temp ≠ q).2
    ⟨htemp, fun j _ => h.temp j⟩

/-- One caller goes on with the file it has, or without. -/
theorem Kept.goesOn (h : Kept cwd q d₀ d m) (hsame : d.Same d' q)
    (hfile : w.file = none ∨ w.file = (m i).file) (htemp : w.temp = none ∨ w.temp = (m i).temp) :
    Kept cwd q d₀ d' (Function.update m i w) := by
  apply h.update hsame
  · intro n hn
    rw [hsame.number]
    rcases hfile with hnone | heq
    · rw [hnone] at hn
      cases hn
    · exact h.file i n (heq ▸ hn)
  · intro temp ht
    rcases htemp with hnone | heq
    · rw [hnone] at ht
      cases ht
    · exact h.temp i temp (heq ▸ ht)

theorem Kept.create (hq : Clear lib root cwd sc q) (h : Kept cwd q d₀ d m) {url dest : String}
    {resp : Download} {rep : Except FileError Nat} (hi : m i = .fetched url resp)
    (ha : sc.Asset lib root url dest)
    (hw : d.handles cwd ⟨.create (Matchbox.tempPath dest), rep⟩ d') :
    Kept cwd q d₀ d' (Function.update m i
      ((m i).next ⟨.file (.create (Matchbox.tempPath dest)), rep⟩)) := by
  have hsame : d.Same d' q := Disk.same_of_spares hw (hq.temp ha)
  rw [hi]
  cases rep with
  | error e => exact h.goesOn hsame (Or.inl rfl) (Or.inl rfl)
  | ok n =>
    obtain ⟨hn, -⟩ := hw.2 n rfl
    refine h.update hsame ?_ ?_
    · -- the new file has another name
      rintro _ ⟨⟩ hnq
      exact hq.temp ha (Disk.number_inj hn hnq)
    · rintro _ ⟨⟩
      exact hq.temp ha

variable (ι d₀) in
/-- The place is in good hands. -/
def custody (hq : Clear lib root cwd sc q) : Custody ι lib root sc cwd where
  assumes _ l := ∀ i t, l = .start i t → sc.Covers t.call
  rel := Kept cwd q d₀
  covers h := h _ _ rfl
  act {m i e d d'} _ h hw hall := by
    obtain ⟨op, rep⟩ := e
    cases op with
    | get url =>
      cases hw
      cases rep with
      | error e => exact h.goesOn (.refl _ _) (Or.inr rfl) (Or.inr rfl)
      | ok resp => exact h.goesOn (.refl _ _) (Or.inl rfl) (Or.inl rfl)
    | file op =>
      have hfile : d.handles cwd ⟨op, rep⟩ d' := hw
      cases op with
      | stat | mkdirAll | close =>
        exact h.goesOn (Disk.same_of_spares hfile trivial) (Or.inr rfl) (Or.inr rfl)
      | writeFile path data =>
        exact h.goesOn (Disk.same_of_spares hfile (hq.boot hall)) (Or.inr rfl) (Or.inr rfl)
      | create path =>
        obtain ⟨url, dest, resp, hi, ha, rfl⟩ := hall
        exact h.create hq hi ha hfile
      | write n offset chunk =>
        obtain ⟨url, temp, resp, written, hi, rfl⟩ := hall
        have hown : (m i).file = some n := by rw [hi]; rfl
        apply h.goesOn (Disk.same_of_spares hfile (h.file i n hown))
        · rw [hi]
          cases rep <;> exact Or.inr rfl
        · rw [hi]
          cases rep <;> exact Or.inr rfl
      | remove path =>
        have hne : resolve cwd path ≠ q := by
          rcases hall with hboot | ⟨url, resp, n, written, hi⟩
          · exact hq.boot hboot
          · exact h.temp i path (by rw [hi]; rfl)
        exact h.goesOn (Disk.same_of_spares hfile hne) (Or.inl rfl) (Or.inl rfl)
      | rename old new =>
        obtain ⟨url, resp, n, hi, -, -, ha, rfl⟩ := hall
        obtain ⟨hdest, htemp⟩ := hq.asset url new ha
        exact h.goesOn (Disk.same_of_spares hfile (Or.inl ⟨htemp, hdest⟩)) (Or.inl rfl) (Or.inl rfl)
  drop {m m' d} h hm := by
    refine ⟨h.same, fun i n hi => ?_, fun i temp hi => ?_⟩
    · rcases hm i with hmi | hmi
      · exact h.file i n (hmi ▸ hi)
      · rw [hmi] at hi
        cases hi
    · rcases hm i with hmi | hmi
      · exact h.temp i temp (hmi ▸ hi)
      · rw [hmi] at hi
        cases hi

/-- Calls that are clear of a place leave it alone. -/
theorem Clear.content_eq (hq : Clear lib root cwd sc q) {ls : List (Label bootSig ι BootTask)}
    {c : Config bootSig (Disk UInt8) ι}
    (hr : (bootPlane lib root cwd ι).Runs (Config.idle bootSig ι d) ls c)
    (hcalls : ∀ i t, Label.start i t ∈ ls → sc.Covers t.call) :
    c.world.content q = d.content q := by
  have hidle : Kept cwd q d d (fun _ : ι => .idle) := ⟨.refl _ _, nofun, nofun⟩
  have hcovers : Along Transfer.after (custody ι d hq).assumes (fun _ => .idle) ls := by
    apply along_of_split
    rintro pre l post hls i t rfl
    exact hcalls i t (by rw [hls]; simp)
  exact ((custody ι d hq).runs_rel hr hidle hcovers).same.content

end Frame

/-! ## Records and files -/

/-- The hosts of a store but for one, with some assets. -/
def others (s : Store) (k : String) (urls : String → Prop) : Scope where
  macs mac := ∃ k' h, s.db.hosts[k']? = some h ∧ k' ≠ k ∧ h.mac = mac
  urls := urls

/-- The records of hosts and their boot files agree: different records have different keys, and calls
for other records leave the files of a host alone. -/
structure Agree (lib : GoLib) (s : Store) : Prop where
  keys : ∀ {k k' : String} {h h' : Host}, s.db.hosts[k]? = some h → s.db.hosts[k']? = some h' → k ≠ k' →
    lib.keyFor h.mac ≠ lib.keyFor h'.mac
  files : ∀ {ι : Type} [DecidableEq ι] (b : Matchbox) (cwd : Place) (urls : String → Prop)
    {k : String} {h : Host}, s.db.hosts[k]? = some h →
    ∀ {d : Disk UInt8} {ls : List (Label bootSig ι BootTask)} {c : Config bootSig (Disk UInt8) ι},
      (bootPlane lib b.root cwd ι).Runs (Config.idle bootSig ι d) ls c →
      (∀ i t, Label.start i t ∈ ls → (others s k urls).Covers t.call) →
      ∀ f ∈ Matchbox.bootFiles b.root (lib.keyFor h.mac),
        AssetsClear lib b.root cwd (others s k urls) (resolve cwd f) →
        c.world.content (resolve cwd f) = d.content (resolve cwd f)

/-- Registrations with one key are registrations of one record. -/
def Separate (lib : GoLib) (ls : List Lbl) : Prop :=
  ∀ p ∈ registrations ls, ∀ q ∈ registrations ls, lib.keyFor p.2 = lib.keyFor q.2 →
    ckey p.1 p.2 = ckey q.1 q.2

instance (lib : GoLib) (ls : List Lbl) : Decidable (Separate lib ls) :=
  inferInstanceAs (Decidable (∀ p ∈ registrations ls, ∀ q ∈ registrations ls, _ → _))

section Runs

variable {lib : GoLib} {cfg : Settings} {ls : List Lbl} {c : State}

/-- A host that is stored was registered under its key. -/
theorem registered (hr : Reaches cfg ls c) {k : String} {h : Host}
    (hk : (storeAt ls).db.hosts[k]? = some h) :
    (h.cluster, h.mac) ∈ registrations ls ∧ h.mac ≠ "" ∧ ckey h.cluster h.mac = k := by
  have he := DB.entry_of_host hk
  rw [← List.take_length (l := ls)] at he
  obtain ⟨hreg, hmac⟩ := hr.host_registered he
  exact ⟨hreg, hmac, (Revisions.of_history hr.history.1).host_key hk⟩

theorem keys_ne (hr : Reaches cfg ls c) (hsep : Separate lib ls) {k k' : String} {h h' : Host}
    (hk : (storeAt ls).db.hosts[k]? = some h) (hk' : (storeAt ls).db.hosts[k']? = some h')
    (hne : k ≠ k') : lib.keyFor h.mac ≠ lib.keyFor h'.mac := by
  intro hkey
  obtain ⟨hreg, -, rfl⟩ := registered hr hk
  obtain ⟨hreg', -, rfl⟩ := registered hr hk'
  exact hne (hsep _ hreg _ hreg' hkey)

end Runs

/-- In every run whose registrations keep the keys of different records apart, the records of hosts and
their boot files agree. -/
theorem boot_files_agree (lib : GoLib) {cfg : Settings} {ls : List Lbl} {c : State}
    (hr : Reaches cfg ls c) (hsep : Separate lib ls) : Agree lib c.world.store := by
  rw [hr.store_eq]
  refine ⟨keys_ne hr hsep, ?_⟩
  intro ι _ b cwd urls k h hk d bs cb hb hcalls f hf hassets
  have hclear : Clear lib b.root cwd (others (storeAt ls) k urls) (resolve cwd f) := by
    refine ⟨?_, hassets⟩
    rintro path ⟨mac, ⟨k', h', hk', hne, rfl⟩, hpath⟩
    obtain ⟨-, hmac, -⟩ := registered hr hk
    obtain ⟨-, hmac', -⟩ := registered hr hk'
    obtain ⟨kind, rfl⟩ := BootKind.exists_of_bootFile hpath
    obtain ⟨kind', rfl⟩ := BootKind.exists_of_bootFile hf
    intro hplace
    have hkey := (BootKind.place_inj b.named ⟨lib.keyFor_noSlash _, lib.keyFor_ne_empty hmac'⟩
      ⟨lib.keyFor_noSlash _, lib.keyFor_ne_empty hmac⟩ hplace).2
    exact keys_ne hr hsep hk' hk hne hkey
  exact hclear.content_eq hb hcalls

/-! ## Runs -/

/-- Cluster `c`, and hosts with the given MACs in it. -/
def inCluster (macs : List String) : List Move :=
  Script.armed ++ macs.flatMap fun mac => Script.request (.registerHost { cluster := "c", mac })

/-- Two hosts with different MACs. -/
def different : List Lbl × State :=
  runScript Script.settings (inCluster ["a1", "b2"]) State.initial

/-- The disk on which a host is staged. -/
def staged (mac : String) : Disk UInt8 :=
  (BootAssets.player.play (Cue.task .provisioning (BootAssets.stageHost mac) 20 BootAssets.inTwo)
    (Config.idle bootSig BootAssets.Instance BootAssets.fresh)).2.world

def unstageHost (mac : String) : BootTask := ⟨BootAssets.server, .unstage mac⟩

/-- The second host is staged; then the first is staged by one store and unstaged by the other. -/
def replaced : List (Label bootSig BootAssets.Instance BootTask) ×
    Config bootSig (Disk UInt8) BootAssets.Instance :=
  BootAssets.player.play (Cue.task .provisioning (BootAssets.stageHost "a1") 20 BootAssets.inTwo ++
    Cue.task .bootstrap (unstageHost "a1") 5 BootAssets.inTwo)
    (Config.idle bootSig BootAssets.Instance (staged "b2"))

/-- A call is for the first host and the one kernel. -/
def forFirst : Label bootSig BootAssets.Instance BootTask → Bool
  | .start _ ⟨_, .stage mac profile _⟩ =>
    mac == "a1" && profile.kernel == BootAssets.kernel && profile.initrd.isEmpty
  | .start _ ⟨_, .unstage mac⟩ => mac == "a1"
  | _ => true

theorem covers_of_forFirst {sc : Scope} (hmac : sc.macs "a1") (hkernel : sc.urls kernel)
    {i : BootAssets.Instance} {t : BootTask} (h : forFirst (.start i t) = true) : sc.Covers t.call := by
  obtain ⟨store, call⟩ := t
  cases call with
  | stage mac profile cfg =>
    simp only [forFirst, Bool.and_eq_true, beq_iff_eq, List.isEmpty_iff] at h
    obtain ⟨⟨rfl, hk⟩, hinitrd⟩ := h
    refine ⟨hmac, ?_⟩
    intro url hurl
    rw [hinitrd, List.mem_singleton] at hurl
    rw [hurl, hk]
    exact hkernel
  | unstage mac =>
    obtain rfl : mac = "a1" := eq_of_beq h
    exact hmac

/-- The records agree with the files, and the configuration of the second host stays. -/
theorem different_agree :
    Agree goLib different.2.world.store ∧
      replaced.2.world.content (resolve [] "/d/generic/b2") = some [7] := by
  have hagree : Agree goLib different.2.world.store :=
    boot_files_agree goLib (reaches_script Script.settings (inCluster ["a1", "b2"]))
      (by decide +kernel)
  have hhosts : ∀ mac ∈ ["a1", "b2"], different.2.world.store.db.hosts[ckey "c" mac]?.map Host.mac =
      some mac := by decide +kernel
  obtain ⟨first, hfirst, hmac⟩ := Option.map_eq_some_iff.1 (hhosts "a1" (by decide))
  obtain ⟨second, hsecond, hmac'⟩ := Option.map_eq_some_iff.1 (hhosts "b2" (by decide))
  refine ⟨hagree, ?_⟩
  have hcalls : ∀ l ∈ replaced.1, forFirst l = true := by decide +kernel
  have hcovers : ∀ i t, Label.start i t ∈ replaced.1 →
      (others different.2.world.store (ckey "c" "b2") (· = kernel)).Covers t.call := by
    intro i t ht
    refine covers_of_forFirst ?_ rfl (hcalls _ ht)
    exact ⟨_, first, hfirst, by decide, hmac⟩
  have hfile : "/d/generic/b2" ∈ Matchbox.bootFiles "/d" (goLib.keyFor "b2") := by
    decide +kernel
  have hkept := hagree.files server [] (· = kernel) hsecond
    (player.play_runs _ _) hcovers "/d/generic/b2" (by rw [hmac']; exact hfile) ?_
  · rw [replaced, hkept]
    decide +kernel
  · intro url dest ha
    obtain ⟨-, rfl⟩ := asset_iff.1 ha
    decide +kernel

/-- One machine, registered in two spellings and as the control plane of another cluster. -/
def sameMachine : List Lbl × State :=
  runScript Script.settings (inCluster ["AA:BB", "aa:bb"] ++
    Script.request (.createCluster ⟨"d", "https://d", "aa:bb", "10.0.0.2", "v1.7.0", "v1.30.0", "", [], "",
      false, [], true⟩)) State.initial

/-- The host is unstaged under its other name. -/
def removed : List (Label bootSig BootAssets.Instance BootTask) ×
    Config bootSig (Disk UInt8) BootAssets.Instance :=
  BootAssets.player.play (Cue.task .bootstrap (unstageHost "AA:BB") 5 BootAssets.inTwo)
    (Config.idle bootSig BootAssets.Instance (staged "aa:bb"))

/-- Three records have one key, and a call for one of them removes the files of another. -/
theorem sameMachine_disagree :
    Reaches Script.settings sameMachine.1 sameMachine.2 ∧
      (∀ p ∈ [("c", "AA:BB"), ("c", "aa:bb"), ("d", "aa:bb")],
        (sameMachine.2.world.store.db.hosts[ckey p.1 p.2]?).map
          (fun h => (h.mac, goLib.keyFor h.mac)) = some (p.2, "aa-bb")) ∧
      (bootPlane goLib "/d" [] BootAssets.Instance).Runs
        (Config.idle bootSig BootAssets.Instance (staged "aa:bb")) removed.1 removed.2 ∧
      (∀ f ∈ Matchbox.bootFiles "/d" "aa-bb", ((staged "aa:bb").content (resolve [] f)).isSome = true ∧
        removed.2.world.content (resolve [] f) = none) ∧
      ¬Agree goLib sameMachine.2.world.store := by
  have hhosts : ∀ p ∈ [("c", "AA:BB"), ("c", "aa:bb"), ("d", "aa:bb")],
      (sameMachine.2.world.store.db.hosts[ckey p.1 p.2]?).map
        (fun h => (h.mac, goLib.keyFor h.mac)) = some (p.2, "aa-bb") := by decide +kernel
  refine ⟨reaches_script _ _, hhosts, player.play_runs _ _, by decide +kernel, ?_⟩
  intro hagree
  obtain ⟨h, hk, hkey⟩ := Option.map_eq_some_iff.1 (hhosts ("c", "AA:BB") (by decide))
  obtain ⟨h', hk', hkey'⟩ := Option.map_eq_some_iff.1 (hhosts ("c", "aa:bb") (by decide))
  have hsame : goLib.keyFor h.mac = goLib.keyFor h'.mac :=
    (Prod.mk.inj hkey).2.trans (Prod.mk.inj hkey').2.symm
  exact hagree.keys hk hk' (by decide) hsame

end BootKeys

end Medea
