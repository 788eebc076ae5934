import Medea.Interaction.Outcome
import Medea.Properties.AssetPaths

/-!
# Boot files that lead on

A booting host is matched by its group, which names a profile, which names a machine configuration.
`Stage` writes the configuration first and the group last, and `Unstage` removes them in the opposite
order, so that a call that fails or is cut off leaves no file that names a missing one. Every call works
on the files of one key, and well-formed MACs with one key are one hardware address.

`boot_files_linked`: so it is in every directory that sequences of calls lead to, as long as the copies of
boot assets stay in the asset directory. A kernel whose path leads to the groups is itself taken for the
group of another host, which has no profile (`group_dangling`).
-/

set_option autoImplicit false

namespace Medea

open Medea.Interaction Medea.Files

/-! ## MACs -/

def hexDigits : List Char := "0123456789abcdefABCDEF".toList

def macSeparators : List Char := [':', '-']

/-- Six pairs of hexadecimal digits, with separators between them. -/
def WellFormedMAC (mac : String) : Prop :=
  mac.toList.length = 17 ∧
    ∀ p ∈ mac.toList.zipIdx, p.1 ∈ if p.2 % 3 = 2 then macSeparators else hexDigits

instance (mac : String) : Decidable (WellFormedMAC mac) :=
  inferInstanceAs (Decidable (_ ∧ ∀ p ∈ _, _ ∈ _))

def hexValue? (c : Char) : Option Nat := "0123456789abcdef".toList.idxOf? c.toLower

/-- The digits of a hardware address. -/
def hardware (mac : String) : List Nat := mac.toList.filterMap hexValue?

namespace GoLib

variable {lib : GoLib} {mac mac' : String}

/-- The lower case of the characters of MACs. -/
def LowersMACs (lib : GoLib) : Prop := ∀ c ∈ macSeparators ++ hexDigits, lib.lower c = c.toLower

theorem mem_of_wellFormed (h : WellFormedMAC mac) {c : Char} (hc : c ∈ mac.toList) :
    c ∈ macSeparators ++ hexDigits := by
  obtain ⟨i, hi⟩ := List.getElem?_of_mem hc
  have hmem := h.2 (c, i) (List.mk_mem_zipIdx_iff_getElem?.2 hi)
  split at hmem
  · exact List.mem_append_left _ hmem
  · exact List.mem_append_right _ hmem

/-- The key has the digits of the address. -/
theorem hardware_keyFor (hlib : lib.LowersMACs) (h : WellFormedMAC mac) :
    hardware (lib.keyFor mac) = hardware mac := by
  have hchar : (macSeparators ++ hexDigits).all (fun c => hexValue? (if c.toLower = ':' ∨
      c.toLower = '/' ∨ c.toLower = ' ' then '-' else c.toLower) == hexValue? c) = true := by decide
  rw [hardware, hardware, keyFor, String.toList_ofList, List.map_map, List.filterMap_map]
  refine List.filterMap_congr fun c hc => ?_
  have hmem := mem_of_wellFormed h hc
  simp only [Function.comp_apply, hlib c hmem]
  exact beq_iff_eq.1 (List.all_eq_true.1 hchar c hmem)

theorem keyFor_ne (hlib : lib.LowersMACs) (h : WellFormedMAC mac) (h' : WellFormedMAC mac')
    (hne : hardware mac ≠ hardware mac') : lib.keyFor mac ≠ lib.keyFor mac' := by
  intro hkey
  apply hne
  rw [← hardware_keyFor hlib h, ← hardware_keyFor hlib h', hkey]

theorem keyFor_nonempty (lib : GoLib) (h : WellFormedMAC mac) : lib.keyFor mac ≠ "" := by
  apply lib.keyFor_ne_empty
  rintro rfl
  exact absurd h.1 (by decide)

end GoLib

def BootCall.mac : BootCall → String
  | .stage mac _ _ | .unstage mac => mac

/-- The file that is named by a file. -/
def BootKind.next : BootKind → Option BootKind
  | .group => some .profile
  | .profile => some .generic
  | .generic => none

theorem BootKind.next_ne (kind : BootKind) : kind.next ≠ some kind := by cases kind <;> decide

/-- What a file says, for its key. -/
def BootKind.Names (lib : GoLib) (key : String) (kind : BootKind) (b : Bytes) : Prop :=
  match kind with
  | .group => ∃ selector, b = lib.marshal (.group key key key selector)
  | .profile => ∃ boot, b = lib.marshal (.profile key key boot key)
  | .generic => True

namespace BootChain

section Statement

variable (lib : GoLib) (root : String) (cwd : Place)

/-- Every file that is there names one that is there: a group the profile of its key, and a profile the
machine configuration. -/
def Linked (key : String) (d : Disk UInt8) : Prop :=
  ∀ kind b, d.content (BootKind.place root cwd key kind) = some b → kind.Names lib key b ∧
    ∀ next, kind.next = some next → d.content (next.place root cwd key) ≠ none

/-- A write or a removal that fails does nothing, and a file that is there is found. -/
def Atomic (d : Disk UInt8) : Event bootSig → Disk UInt8 → Prop
  | ⟨.file (.writeFile _ _), .error _⟩, d' => d' = d
  | ⟨.file (.remove path), .error e⟩, d' =>
    d' = d ∧ (e.missing = true → d.content (resolve cwd path) = none)
  | _, _ => True

def atomically (d : Disk UInt8) (e : Event bootSig) (d' : Disk UInt8) : Prop :=
  bootHandles cwd d e d' ∧ Atomic cwd d e d'

/-- The call is cut off somewhere, or comes to its end. -/
def Cut (t : BootTask) (d d' : Disk UInt8) : Prop :=
  ∃ tr p, (t.store.serve lib t.call).Steps tr p ∧ Answered (atomically cwd) d tr d'

/-- The copies of the boot assets of the call are in the asset directory. -/
def Inside (t : BootTask) : Prop :=
  match t.call with
  | .stage _ profile _ => ∀ url ∈ profile.kernel :: profile.initrd, ∀ dest,
      lib.Mirrors t.store.root url dest → Below (t.store.assetsPlace cwd) (resolve cwd dest)
  | .unstage _ => True

/-- The directories that sequences of calls lead to, from one without boot files. -/
inductive Reached (proper : BootTask → Prop) : Disk UInt8 → Prop
  | new {d : Disk UInt8} : (∀ mac, WellFormedMAC mac → ∀ kind,
      d.content (BootKind.place root cwd (lib.keyFor mac) kind) = none) → Reached proper d
  | call {d d' : Disk UInt8} {t : BootTask} : Reached proper d → t.store.root = root →
      WellFormedMAC t.call.mac → proper t → Cut lib cwd t d d' → Reached proper d'

end Statement

/-! ## Single calls -/

section Calls

variable {lib : GoLib} {s : Matchbox} {key : String} {kind : BootKind} {cwd p : Place}
  {d d' : Disk UInt8}

/-- What is in the asset directory is not at the place of a boot file nor above it. -/
theorem place_clear (hkey : IsName key) (hp : s.assetsPlace cwd <+: p) :
    ¬p <+: kind.place s.root cwd key := by
  intro hpre
  have hassets := hp.trans hpre
  have hne : Matchbox.assetsDir ≠ kind.dir := by cases kind <;> decide
  obtain ⟨hname, hname'⟩ := kind.isName_name hkey
  rw [BootKind.place, Matchbox.resolve_path s.named kind.dir_plain,
    walk_name kind.dir_plain.noDots hname hname', Matchbox.assetsPlace] at hassets
  split_ifs at hassets
  · simp [hne] at hassets
  · exact absurd hassets.length_le (by simp)
  · simp [List.cons_prefix_cons, hne] at hassets

/-- The boot files of all hosts stay. -/
def Untouched (root : String) (cwd : Place) (d d' : Disk UInt8) : Prop :=
  ∀ key, IsName key → ∀ kind, d.Same d' (BootKind.place root cwd key kind)

theorem atomically_answers (d : Disk UInt8) (op : BootOp) : ∃ r d', atomically cwd d ⟨op, r⟩ d' := by
  cases op with
  | get url => exact ⟨.error "", d, rfl, trivial⟩
  | file op =>
    refine ⟨.error ⟨false, ""⟩, d, ?_⟩
    cases op with
    | stat path => exact ⟨⟨rfl, nofun⟩, trivial⟩
    | mkdirAll path => exact ⟨⟨fun _ => Or.inl rfl, rfl, rfl, nofun⟩, trivial⟩
    | writeFile path data => exact ⟨⟨Or.inl rfl, nofun⟩, rfl⟩
    | create path | rename old new => exact ⟨⟨Or.inl rfl, nofun⟩, trivial⟩
    | write n offset chunk => exact ⟨⟨⟨rfl, fun _ _ => rfl, rfl⟩, nofun⟩, trivial⟩
    | close n => exact ⟨rfl, trivial⟩
    | remove path => exact ⟨⟨Or.inl rfl, nofun⟩, rfl, nofun⟩

/-- The file at a place is written or removed, and nothing else changes. -/
def Sets (d : Disk UInt8) (p : Place) (x : Option Bytes) (d' : Disk UInt8) : Prop :=
  d'.content p = x ∧ ∀ q, p ≠ q → d.Same d' q

theorem sets_of_write {f : String} {data : Bytes} {rep : Except FileError Unit}
    (hw : atomically cwd d ⟨.file (.writeFile f data), rep⟩ d') :
    (∃ e, rep = .error e ∧ d' = d) ∨ rep = .ok () ∧ Sets d (resolve cwd f) (some data) d' := by
  cases rep with
  | error e => exact Or.inl ⟨e, rfl, hw.2⟩
  | ok u =>
    have hfile : d.handles cwd ⟨.writeFile f data, .ok u⟩ d' := hw.1
    exact Or.inr ⟨rfl, hfile.2 rfl, fun q hq => Disk.same_of_spares hfile hq⟩

theorem removeAll_stays {I : Disk UInt8 → Prop} {f : String} {fs : List String} (hd : I d)
    (hgone : ∀ d', Sets d (resolve cwd f) none d' →
      (Matchbox.removeAll fs).Stays (atomically cwd) I (fun _ => I) d') :
    (Matchbox.removeAll (f :: fs)).Stays (atomically cwd) I (fun _ => I) d := by
  refine ⟨hd, atomically_answers d _, fun rep d' hw => ?_⟩
  cases rep with
  | ok u =>
    have hfile : d.handles cwd ⟨.remove f, .ok u⟩ d' := hw.1
    refine hgone d' ⟨?_, fun q hq => Disk.same_of_spares hfile hq⟩
    rw [Disk.content, Disk.number, hfile.2 rfl]
    rfl
  | error e =>
    obtain ⟨rfl, hmissing⟩ : d' = d ∧ _ := hw.2
    dsimp only [Program.bind]
    split
    next hm => exact hgone d' ⟨hmissing hm, fun _ _ => .refl _ _⟩
    next => exact hd

/-- Downloads into the asset directory leave boot files alone. -/
theorem Untouched.stays (hd : Untouched s.root cwd d d') {sc : Scope} (hsc : ∀ mac, ¬sc.macs mac)
    (hin : ∀ url dest, sc.Asset lib s.root url dest → Below (s.assetsPlace cwd) (resolve cwd dest))
    {α : Type} {p : BootProg α} (hp : p.Keeps (staging lib s.root sc) (fun _ _ => True) .idle) :
    p.Stays (atomically cwd) (Untouched s.root cwd d) (fun _ => Untouched s.root cwd d) d' := by
  refine Program.stays_of_steps atomically_answers fun tr p' d'' hs ha key hkey kind => ?_
  have hclear : BootKeys.Clear lib s.root cwd sc (kind.place s.root cwd key) := by
    constructor
    · rintro path ⟨mac, hmac, -⟩
      exact absurd hmac (hsc mac)
    · intro url dest ha
      have hbelow := hin url dest ha
      exact ⟨place_clear hkey hbelow.1, place_clear hkey (Matchbox.temp_below hbelow).1⟩
  obtain ⟨m, hm⟩ := (BootKeys.custody Unit d' hclear).steps_rel (i := ()) (m := fun _ => .idle)
    (fun _ _ => nofun) hs (ha.mono fun h => h.1) hp ⟨.refl _ _, nofun, nofun⟩
  exact (hd key hkey kind).trans hm.same

end Calls

/-! ## The files of one host -/

section Host

variable {lib : GoLib} {s : Matchbox} {mac key : String} {cwd : Place}
  {d0 d d' : Disk UInt8} {x : Option Bytes}

/-- The files of the key are linked, and those of all others as they were. -/
structure Tended (lib : GoLib) (s : Matchbox) (cwd : Place) (mac : String) (d0 d : Disk UInt8) :
    Prop where
  linked : Linked lib s.root cwd (lib.keyFor mac) d
  others : ∀ key, IsName key → key ≠ lib.keyFor mac → ∀ kind,
    d0.Same d (BootKind.place s.root cwd key kind)

theorem Linked.same (h : Linked lib s.root cwd key d)
    (hsame : ∀ kind, d.Same d' (BootKind.place s.root cwd key kind)) : Linked lib s.root cwd key d' := by
  intro kind b hb
  rw [(hsame kind).content] at hb
  obtain ⟨hnames, hnext⟩ := h kind b hb
  refine ⟨hnames, fun next hn => ?_⟩
  rw [(hsame next).content]
  exact hnext next hn

section

variable (hkey : IsName (lib.keyFor mac)) (h : Tended lib s cwd mac d0 d)
include hkey h

theorem Tended.untouched (hu : Untouched s.root cwd d d') : Tended lib s cwd mac d0 d' where
  linked := h.linked.same (hu _ hkey)
  others key hkey hne kind := (h.others key hkey hne kind).trans (hu key hkey kind)

/-- A file is written when the one it names is there, and removed when none names it. -/
theorem Tended.sets (kind : BootKind) (hset : Sets d (kind.place s.root cwd (lib.keyFor mac)) x d')
    (hx : ∀ b, x = some b → kind.Names lib (lib.keyFor mac) b ∧
      ∀ next, kind.next = some next → d.content (next.place s.root cwd (lib.keyFor mac)) ≠ none)
    (hprev : ∀ prev : BootKind, prev.next = some kind →
      d.content (prev.place s.root cwd (lib.keyFor mac)) = none ∨ x ≠ none) :
    Tended lib s cwd mac d0 d' := by
  have hother : ∀ k, k ≠ kind → d'.content (BootKind.place s.root cwd (lib.keyFor mac) k) =
      d.content (k.place s.root cwd (lib.keyFor mac)) := by
    intro k hk
    refine (hset.2 _ fun hplace => hk ?_).content
    exact (BootKind.place_inj s.named hkey hkey hplace).1.symm
  refine ⟨fun k b hb => ?_, fun key hkey' hne k => (h.others key hkey' hne k).trans ?_⟩
  · by_cases hk : k = kind
    · subst hk
      obtain ⟨hnames, hnext⟩ := hx b (hset.1.symm.trans hb)
      refine ⟨hnames, fun next hn => ?_⟩
      rw [hother next fun heq => k.next_ne (heq ▸ hn)]
      exact hnext next hn
    · rw [hother k hk] at hb
      refine ⟨(h.linked k b hb).1, fun next hn => ?_⟩
      by_cases hnext : next = kind
      · subst hnext
        rw [hset.1]
        rcases hprev k hn with hnone | hsome
        · cases hnone.symm.trans hb
        · exact hsome
      · rw [hother next hnext]
        exact (h.linked k b hb).2 next hn
  · refine hset.2 _ fun hplace => hne ?_
    exact (BootKind.place_inj s.named hkey hkey' hplace).2.symm

/-- What a call keeps on its way. -/
def Tends (lib : GoLib) (s : Matchbox) (cwd : Place) (mac : String) (d0 : Disk UInt8) {α : Type}
    (p : BootProg α) (d : Disk UInt8) : Prop :=
  p.Stays (atomically cwd) (Tended lib s cwd mac d0) (fun _ => Tended lib s cwd mac d0) d

theorem publish_tends
    (hgeneric : d.content (BootKind.place s.root cwd (lib.keyFor mac) .generic) ≠ none)
    (kernel : String) (initrd args : List String) :
    Tends lib s cwd mac d0 (s.publish lib mac kernel initrd args) d := by
  refine ⟨h, atomically_answers d _, fun rep d1 hw => ?_⟩
  rcases sets_of_write hw with ⟨e, rfl, rfl⟩ | ⟨rfl, hset⟩
  · exact h
  have h1 : Tended lib s cwd mac d0 d1 := by
    refine Tended.sets hkey h .profile hset ?_ fun _ _ => Or.inr (Option.some_ne_none _)
    rintro b ⟨⟩
    refine ⟨⟨_, rfl⟩, ?_⟩
    rintro next ⟨⟩
    exact hgeneric
  refine ⟨h1, atomically_answers d1 _, fun rep d2 hw => ?_⟩
  rcases sets_of_write hw with ⟨e, rfl, rfl⟩ | ⟨rfl, hset2⟩
  · exact h1
  · refine Tended.sets hkey h1 .group hset2 ?_ fun _ _ => Or.inr (Option.some_ne_none _)
    rintro b ⟨⟩
    refine ⟨⟨_, rfl⟩, ?_⟩
    rintro next ⟨⟩
    exact hset.1.trans_ne (Option.some_ne_none _)

theorem stage_tends {profile : Profile} {cfg : Bytes} (hin : Inside lib cwd ⟨s, .stage mac profile cfg⟩) :
    Tends lib s cwd mac d0 (s.stage lib mac profile cfg) d := by
  rw [Matchbox.stage]
  split
  · exact h
  refine ⟨h, atomically_answers d _, fun rep d1 hw => ?_⟩
  rcases sets_of_write hw with ⟨e, rfl, rfl⟩ | ⟨rfl, hset⟩
  · exact h
  -- the assets come between the configuration and the profile
  have h1 : Tended lib s cwd mac d0 d1 := Tended.sets hkey h .generic hset
    (fun _ _ => ⟨trivial, fun _ hn => by cases hn⟩) fun _ _ => Or.inr (Option.some_ne_none _)
  have hsteady : ∀ d', Untouched s.root cwd d1 d' → Tended lib s cwd mac d0 d' :=
    fun d' hu => Tended.untouched hkey h1 hu
  have hassets : ∀ {α} {p : BootProg α} {d'}, Untouched s.root cwd d1 d' → p.Keeps (staging lib s.root
      ⟨fun _ => False, (· ∈ profile.kernel :: profile.initrd)⟩) (fun _ _ => True) .idle →
      p.Stays (atomically cwd) (Tended lib s cwd mac d0)
        (fun _ => Untouched s.root cwd d1) d' := fun hu hp =>
    (hu.stays (fun _ => not_false) (fun url dest ha => hin url ha.1 dest ha.2) hp).mono hsteady
      fun _ _ hu => hu
  refine (hassets (fun _ _ _ => .refl _ _) (Matchbox.mirror_keeps rfl List.mem_cons_self)).bind
    fun r d2 hu => ?_
  cases r with
  | error e => exact hsteady d2 hu
  | ok kernel =>
    refine (hassets hu (Matchbox.mirrorAll_keeps rfl fun _ => List.mem_cons_of_mem _)).bind
      fun r d3 hu => ?_
    cases r with
    | error e => exact hsteady d3 hu
    | ok initrd =>
      refine publish_tends hkey (hsteady d3 hu) ?_ _ _ _
      rw [(hu _ hkey .generic).content]
      exact hset.1.trans_ne (Option.some_ne_none _)

theorem unstage_tends : Tends lib s cwd mac d0 (s.unstage lib mac) d := by
  refine removeAll_stays h fun d1 hset1 => ?_
  have h1 : Tended lib s cwd mac d0 d1 := by
    refine Tended.sets hkey h .group hset1 nofun fun prev hprev => ?_
    cases prev <;> cases hprev
  refine removeAll_stays h1 fun d2 hset2 => ?_
  have h2 : Tended lib s cwd mac d0 d2 := by
    refine Tended.sets hkey h1 .profile hset2 nofun fun prev hprev => ?_
    cases prev <;> cases hprev
    exact Or.inl hset1.1
  refine removeAll_stays h2 fun d3 hset3 => ?_
  refine Tended.sets hkey h2 .generic hset3 nofun fun prev hprev => ?_
  cases prev <;> cases hprev
  exact Or.inl hset2.1

end

end Host

/-! ## Sequences of calls -/

section Sequences

variable {lib : GoLib} {root mac : String} {cwd : Place} {d d' : Disk UInt8} {t : BootTask}

theorem isName (hmac : WellFormedMAC mac) : IsName (lib.keyFor mac) :=
  ⟨lib.keyFor_noSlash mac, lib.keyFor_nonempty hmac⟩

theorem Cut.tended (h : Cut lib cwd t d d') (hmac : WellFormedMAC t.call.mac) (hin : Inside lib cwd t)
    (hd : Linked lib t.store.root cwd (lib.keyFor t.call.mac) d) :
    Tended lib t.store cwd t.call.mac d d' := by
  obtain ⟨tr, p, hs, ha⟩ := h
  have hstart : Tended lib t.store cwd t.call.mac d d :=
    ⟨hd, fun _ _ _ _ => .refl _ _⟩
  have hserve : Tends lib t.store cwd t.call.mac d (t.store.serve lib t.call) d := by
    obtain ⟨s, call⟩ := t
    cases call with
    | stage mac profile cfg => exact stage_tends (isName hmac) hstart hin
    | unstage mac => exact unstage_tends (isName hmac) hstart
  exact (hserve.steps hs ha).here

theorem Reached.linked (hd : Reached lib root cwd (Inside lib cwd) d) (hmac : WellFormedMAC mac) :
    Linked lib root cwd (lib.keyFor mac) d := by
  induction hd generalizing mac with
  | new hnone =>
    intro kind b hb
    cases (hnone mac hmac kind).symm.trans hb
  | @call d d' t _ hroot hmac' hin hcut ih =>
    subst hroot
    have htended := hcut.tended hmac' hin (ih hmac')
    by_cases hkey : lib.keyFor mac = lib.keyFor t.call.mac
    · rw [hkey]
      exact htended.linked
    · exact (ih hmac).same (htended.others _ (isName hmac) hkey)

end Sequences

end BootChain

open BootChain in
/-- In every directory that calls lead to whose assets stay in the asset directory, no boot file names a
missing one, and the calls for one MAC leave the files of every other hardware address alone. -/
theorem boot_files_linked (lib : GoLib) (hlib : lib.LowersMACs) {root : String} {cwd : Place}
    {d : Disk UInt8} (hd : Reached lib root cwd (Inside lib cwd) d) :
    (∀ mac, WellFormedMAC mac → Linked lib root cwd (lib.keyFor mac) d) ∧
      ∀ t d', t.store.root = root → WellFormedMAC t.call.mac → Inside lib cwd t → Cut lib cwd t d d' →
        ∀ mac, WellFormedMAC mac → hardware mac ≠ hardware t.call.mac → ∀ kind,
          d'.content (BootKind.place root cwd (lib.keyFor mac) kind) =
            d.content (kind.place root cwd (lib.keyFor mac)) := by
  refine ⟨fun mac hmac => hd.linked hmac, ?_⟩
  rintro t d' rfl hmac hin hcut mac' hmac' hne kind
  have htended := hcut.tended hmac hin (hd.linked hmac)
  exact (htended.others _ (isName hmac') (GoLib.keyFor_ne hlib hmac' hmac hne) kind).content

namespace BootChain

/-! ## Runs -/

open BootAssets

/-- A disk without errors. -/
def answering (d : Disk UInt8) (op : BootOp) : op.Reply × Disk UInt8 :=
  player.answer d inTwo op

theorem answering_atomically (d : Disk UInt8) (op : BootOp) :
    atomically [] d ⟨op, (answering d op).1⟩ (answering d op).2 := by
  refine ⟨player.handles d inTwo op, ?_⟩
  cases op with
  | get url => trivial
  | file op =>
    cases op with
    | writeFile path data =>
      simp only [answering, player, Disk.answer]
      split
      · trivial
      · rfl
    | remove path =>
      simp only [answering, player, Disk.answer]
      split
      · trivial
      next hnone => exact ⟨rfl, fun _ => by rw [Disk.content, hnone]; rfl⟩
    | _ => trivial

/-- A call up to its `n`-th operation. -/
def after (call : BootCall) (n : Nat) (d : Disk UInt8) : Disk UInt8 :=
  (Program.runFor answering n (server.serve goLib call) d).2

theorem cut_after (call : BootCall) (n : Nat) (d : Disk UInt8) :
    Cut goLib [] ⟨server, call⟩ d (after call n d) := by
  obtain ⟨tr, hs, ha⟩ := Program.runFor_steps answering_atomically n
    (server.serve goLib call) d
  exact ⟨tr, _, hs, ha⟩

def oneMAC : String := "00:1B:63:84:45:E6"

def otherMAC : String := "00-1b-63-84-45-e7"

/-- The first host is staged with a kernel. -/
def stageOne (kernel : String) : BootCall := .stage oneMAC ⟨kernel, [], []⟩ [7]

/-- A new disk after that. -/
def staged (kernel : String) : Disk UInt8 := after (stageOne kernel) 20 fresh

/-- The group of the second host. -/
def otherGroup : Place := BootKind.place "/d" [] (goLib.keyFor otherMAC) .group

theorem reached_fresh (proper : BootTask → Prop) :
    Reached goLib "/d" [] proper fresh := by
  refine .new fun mac _ kind => ?_
  rw [Disk.content]
  cases hn : fresh.number (kind.place "/d" [] (goLib.keyFor mac)) with
  | none => rfl
  | some n => exact absurd (Disk.number_lt hn) (Nat.not_lt_zero n)

theorem inside_kernel :
    Inside goLib [] ⟨server, stageOne kernel⟩ := by
  intro url hurl dest hdest
  obtain rfl : url = kernel := List.mem_singleton.1 hurl
  obtain ⟨-, rfl⟩ := asset_iff.1 ⟨rfl, hdest⟩
  exact ⟨by decide +kernel, by decide +kernel⟩

end BootChain

open BootChain BootAssets in
/-- The first host is staged and its unstaging cut off. What is left is linked, and the second host was not
concerned. -/
theorem cut_unstaging_linked :
    (after (.unstage oneMAC) 1 (staged kernel)).content
        (BootKind.place "/d" [] (goLib.keyFor oneMAC) .profile) =
          some (goLib.marshal (.profile "00-1b-63-84-45-e6" "00-1b-63-84-45-e6"
            ⟨"http://boot/assets/kernel", [], [server.configArg]⟩ "00-1b-63-84-45-e6")) ∧
      Linked goLib "/d" [] (goLib.keyFor oneMAC) (after (.unstage oneMAC) 1 (staged kernel)) ∧
      (staged kernel).content otherGroup = fresh.content otherGroup := by
  have hlib : goLib.LowersMACs := fun _ _ => rfl
  have hstaged : Reached goLib "/d" [] (Inside goLib []) (staged kernel) :=
    (reached_fresh _).call rfl (by decide) inside_kernel (cut_after _ _ _)
  have hcut : Reached goLib "/d" [] (Inside goLib []) (after (.unstage oneMAC) 1 (staged kernel)) :=
    hstaged.call rfl (by decide) (show Inside goLib [] ⟨server, .unstage oneMAC⟩ from trivial)
      (cut_after _ _ _)
  refine ⟨by decide +kernel, (boot_files_linked goLib hlib hcut).1 oneMAC (by decide), ?_⟩
  exact (boot_files_linked goLib hlib (reached_fresh _)).2 ⟨server, stageOne kernel⟩ _ rfl (by decide)
    inside_kernel (cut_after _ _ _) otherMAC (by decide) (by decide) .group

namespace BootChain

/-- A kernel with a path that leads to the group of the second host. -/
def astray : String := "https://factory/../groups/" ++ otherMAC ++ ".json"

end BootChain

open BootChain BootAssets in
/-- The kernel of the first host becomes the group of the second, which has no profile. -/
theorem group_dangling :
    WellFormedMAC oneMAC ∧ WellFormedMAC otherMAC ∧ hardware oneMAC ≠ hardware otherMAC ∧
      Reached goLib "/d" [] (fun _ => True) (staged astray) ∧
      fresh.content otherGroup = none ∧ (staged astray).content otherGroup = some inTwo.body ∧
      ¬Linked goLib "/d" [] (goLib.keyFor otherMAC) (staged astray) := by
  have hgroup : (staged astray).content otherGroup = some inTwo.body := by decide +kernel
  refine ⟨by decide, by decide, by decide, (reached_fresh _).call rfl (by decide) trivial (cut_after _ _ _),
    by decide +kernel, hgroup, fun h => ?_⟩
  exact (h .group _ hgroup).2 .profile rfl (by decide +kernel)

end Medea
