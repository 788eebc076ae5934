import Medea.Properties.BootKeys

/-!
# Where boot assets are kept

The copy of a boot asset is kept under the path of its URL, and the path has the schematic and the version
in it, which no request checks. The path is decoded and cleaned for the file; for the URL that is handed
out it is decoded only, and whoever reads that URL decodes it again.

`assets_contained_iff`: the copies of the assets of a version stay below the asset directory, and the
URLs that are handed out lead to them, if and only if schematic and version are `Inward`: their dots lead
no further up than the names after them lead down again, and decoding their text twice leads to the same
place. A version with enough dots leads out (`version_leads_out`).
-/

set_option autoImplicit false

namespace Medea

open Medea.Interaction Medea.Files

namespace Matchbox

/-! ## What may be done -/

/-- The directories that are made on the way to a place are on the way to `dir` or in it. -/
def OnWay (dir q : Place) : Prop := dir <+: legalPart q ∨ legalPart q <+: dir

/-- What may be done for a copy at `dest`: everything that is created, written, removed or renamed is
below the directory, and what gets a name for good is `dest`. A path with a zero byte leads nowhere. -/
def Confined (dir cwd : Place) (dest : String) (seen : Trace bootSig) : BootOp → Prop
  | .file (.stat path) => path = dest
  | .file (.mkdirAll path) => OnWay dir (resolve cwd path)
  | .file (.writeFile path _) | .file (.create path) | .file (.remove path) =>
    Legal (resolve cwd path) → Below dir (resolve cwd path)
  | .file (.write n _ _) => ∃ path, (Legal (resolve cwd path) → Below dir (resolve cwd path)) ∧
      (⟨.file (.create path), .ok n⟩ : Event bootSig) ∈ seen
  | .file (.rename old new) => (Legal (resolve cwd old) → Below dir (resolve cwd old)) ∧ new = dest
  | .file (.close _) | .get _ => True

/-- A file with a zero byte in its path is not found and not made. -/
def Honest (cwd : Place) : Event bootSig → Prop
  | ⟨.file (.stat path), .ok _⟩ | ⟨.file (.create path), .ok _⟩ => Legal (resolve cwd path)
  | _ => True

section Statement

variable (s : Matchbox) (cwd : Place) (url : String)

/-- The asset directory. -/
def assetsPlace : Place := resolve cwd s.root ++ [assetsDir]

/-- The URL leads to a place: the endpoint is the asset directory, and the rest of the path is followed
from there. -/
def Designates (q : Place) : Prop :=
  ∃ base rest, Url.parse (s.httpURL ++ "/" ++ assetsDir ++ "/") = .ok base ∧
    Url.parse url = .ok { base with path := base.path ++ rest } ∧
    walk (s.assetsPlace cwd) rest = q

/-- The asset is copied to `dest`. -/
structure CopiedTo (dest : String) : Prop where
  below : Legal (resolve cwd dest) → Below (s.assetsPlace cwd) (resolve cwd dest)
  confined : (s.mirror goLib url).Justified (Confined (s.assetsPlace cwd) cwd dest)
  designates : (s.mirror goLib url).Within (Honest cwd) (fun _ => True) fun r =>
    ∀ copy, r = .ok copy → s.Designates cwd copy (resolve cwd dest)

/-- Nothing is done and no other URL is returned, or the asset is copied. -/
def Contained : Prop :=
  (∃ r, s.mirror goLib url = .done r ∧ ∀ copy, r = .ok copy → copy = url) ∨
    ∃ dest, s.CopiedTo cwd url dest

/-- Matchbox is reached by a plain URL, and its assets are in a directory that there can be. -/
structure Served : Prop where
  url : ∃ scheme base, (scheme = "http" ∨ scheme = "https") ∧
    s.httpURL ++ "/" = scheme ++ "://" ++ s.httpHost ++ "/" ++ base ∧
    '#' ∉ base.toList ∧ '?' ∉ base.toList ∧ '%' ∉ base.toList ∧ base.toList.any Url.isControl = false
  host : Url.Address s.httpHost
  legal : Legal (s.assetsPlace cwd)
  noDots : ".." ∉ s.assetsPlace cwd

end Statement

/-- The files of a version. -/
def assetNames (arch : String) : List String :=
  let arch := if arch = "" then "amd64" else arch
  ["kernel-" ++ arch, "initramfs-" ++ arch ++ ".xz"]

/-- What may stand for an asset. Once decoded, it may lead up, but then down again the same way and on to
some `rest`, and when it is decoded once more it still leads there. With a zero byte no file is made, and up
to the zero byte it is on the way. -/
structure Inward (dir : Place) (text : String) : Prop where
  file {p : String} : Url.readPath text = some p → Legal (climb p) →
    ∃ rest again, rest ≠ [] ∧ Leads dir (climb p) rest ∧
      Url.readPath p = some again ∧ Leads dir (climb again) rest
  zero {p : String} : Url.readPath text = some p → ¬Legal (climb p) →
    ∃ rest, ".." ∉ rest ∧
      (Leads dir (legalPart (climb p)) rest ∨ Leads dir (legalPart (climb p) ++ rest) [])

/-! ## The calls of a download -/

/-- What is made for a copy at a place. -/
structure Fits (dir q : Place) : Prop where
  below : Legal q → Below dir q
  way : ¬Legal q → OnWay dir q

theorem legalName_of_append {a b : String} (h : legalName (a ++ b) = true) : legalName a = true := by
  simp only [legalName, String.toList_append, List.contains_append, Bool.not_or, Bool.and_eq_true] at h
  exact h.1

section Download

variable {dir cwd : Place} {url dest : String}

/-- A place that there cannot be: what can be made of the directory that holds it. -/
theorem legalPart_dirPath (h : ¬Legal (resolve cwd dest)) :
    legalPart (resolve cwd (dirPath dest)) = legalPart (resolve cwd dest) := by
  obtain ⟨here, last, hdest, hdir, -⟩ :=
    exists_last (show 2 < ".tmp".length by decide) (by decide) cwd dest
  rw [hdest] at h ⊢
  rw [hdir]
  rcases cleanStep_cases here last with heq | ⟨name, heq⟩ | ⟨name, heq, -⟩
  · rw [heq]
  · rw [heq, legalPart_append_of_not h]
  · rw [heq] at h ⊢
    by_cases hlegal : Legal here.reverse
    · have hname : ¬legalName name = true := fun hname => h (legal_concat.2 ⟨hlegal, hname⟩)
      rw [legalPart_append hlegal, legalPart_of_legal hlegal]
      simp [legalPart, hname]
    · rw [legalPart_append_of_not hlegal]

theorem onWay_dirPath (h : Fits dir (resolve cwd dest)) : OnWay dir (resolve cwd (dirPath dest)) := by
  by_cases hq : Legal (resolve cwd dest)
  · obtain ⟨hin, hne⟩ := h.below hq
    obtain ⟨here, last, hdest, hdir, -⟩ :=
      exists_last (show 2 < ".tmp".length by decide) (by decide) cwd dest
    rw [hdest] at hq hin hne
    rw [hdir]
    refine Or.inl ?_
    rcases cleanStep_cases here last with heq | ⟨name, heq⟩ | ⟨name, heq, -⟩
    · rwa [← heq, legalPart_of_legal hq]
    · rw [heq, legalPart_append hq]
      exact hin.trans (List.prefix_append _ _)
    · rw [heq] at hq hin hne
      rw [legalPart_of_legal (legal_append.1 hq).1]
      exact (List.prefix_concat_iff.1 hin).resolve_left hne
  · rw [OnWay, legalPart_dirPath hq]
    exact h.way hq

/-- The name of a copy is legal if a longer one is. -/
theorem legal_of_temp (h : Legal (resolve cwd (tempPath dest))) : Legal (resolve cwd dest) := by
  obtain ⟨here, last, hdest, -, htemp⟩ :=
    exists_last (show 2 < ".tmp".length by decide) (by decide) cwd dest
  rw [tempPath, htemp] at h
  obtain ⟨hhere, hname⟩ := legal_concat.1 h
  rw [hdest]
  rcases cleanStep_cases here last with heq | ⟨name, heq⟩ | ⟨name, heq, rfl | rfl⟩
  · rwa [heq]
  · rw [heq] at hhere
    exact (legal_append.1 hhere).1
  · rw [heq]
    exact legal_concat.2 ⟨hhere, legalName_of_append hname⟩
  · rw [heq]
    exact legal_concat.2 ⟨hhere, by decide⟩

theorem temp_below (h : Below dir (resolve cwd dest)) : Below dir (resolve cwd (tempPath dest)) := by
  obtain ⟨hin, hne⟩ := h
  obtain ⟨here, last, hdest, -, htemp⟩ :=
    exists_last (show 2 < ".tmp".length by decide) (by decide) cwd dest
  rw [hdest] at hin hne
  have hdir : dir <+: here.reverse := by
    rcases cleanStep_cases here last with heq | ⟨name, heq⟩ | ⟨name, heq, -⟩
    · rwa [← heq]
    · rw [heq]
      exact hin.trans (List.prefix_append _ _)
    · rw [heq] at hin hne
      exact (List.prefix_concat_iff.1 hin).resolve_left hne
  rw [tempPath, htemp]
  refine ⟨hdir.trans (List.prefix_append _ _), ?_⟩
  rintro rfl
  exact not_concat_isPrefix _ _ hdir

theorem copy_within {A : BootOp → Prop} {n : Nat} (h : ∀ offset chunk, A (.file (.write n offset chunk)))
    (failure : Option String) (chunks : List Bytes) (offset : Nat) :
    (copy n offset failure chunks).Within (fun _ => True) A fun _ => True := by
  induction chunks generalizing offset with
  | nil => cases failure <;> exact trivial
  | cons chunk chunks ih =>
    refine ⟨h offset chunk, fun rep _ => ?_⟩
    cases rep with
    | error e => exact trivial
    | ok u => exact ih _

theorem save_confined (h : Fits dir (resolve cwd dest)) (d : Download) :
    (save d dest).Justified (Confined dir cwd dest) := by
  have htemp (hlegal : Legal (resolve cwd (tempPath dest))) := temp_below (h.below (legal_of_temp hlegal))
  refine Program.justified_seen (fun _ => htemp) fun rep es hseen => ?_
  cases rep with
  | error e => exact Program.justified_done _ es
  | ok n =>
    -- what is written from here on is the file that was created
    refine Program.keeps_memory (A := fun es => _ ∈ es) (fun h hsub => hsub h) (fun es hes => ?_) hseen
    refine (copy_within (fun _ _ => ⟨_, htemp, hes⟩) _ _ _).bind fun r _ => ?_
    cases r with
    | error e => exact ⟨trivial, fun _ _ => ⟨htemp, fun _ _ => trivial⟩⟩
    | ok u =>
      refine ⟨trivial, fun rep _ => ?_⟩
      cases rep with
      | error e => exact ⟨htemp, fun _ _ => trivial⟩
      | ok u =>
        refine ⟨⟨htemp, rfl⟩, fun rep _ => ?_⟩
        cases rep with
        | error | ok => exact trivial

theorem fetch_confined (h : Fits dir (resolve cwd dest)) :
    (fetch url dest).Justified (Confined dir cwd dest) := by
  refine Program.justified_request (fun _ => onWay_dirPath h) fun rep => ?_
  cases rep with
  | error e => exact Program.justified_done _
  | ok u =>
    refine Program.justified_request (fun _ => trivial) fun rep => ?_
    cases rep with
    | error e => exact Program.justified_done _
    | ok d =>
      dsimp only
      split
      · exact save_confined h d
      · exact Program.justified_done _

theorem fetchIfAbsent_confined (h : Fits dir (resolve cwd dest)) :
    (fetchIfAbsent url dest).Justified (Confined dir cwd dest) := by
  refine Program.justified_request (fun _ => rfl) fun rep => ?_
  cases rep with
  | error e => exact fetch_confined h
  | ok size =>
    dsimp only
    split
    · exact Program.justified_done _
    · exact fetch_confined h

/-- Nothing is copied to a path with a zero byte. -/
theorem fetchIfAbsent_fails (h : ¬Legal (resolve cwd dest)) :
    (fetchIfAbsent url dest).Within (Honest cwd) (fun _ => True) fun r => r ≠ .ok () := by
  refine ⟨trivial, fun rep hrep => ?_⟩
  cases rep with
  | ok size => exact absurd hrep h
  | error e =>
    refine ⟨trivial, fun rep _ => ?_⟩
    cases rep with
    | error e => rintro ⟨⟩
    | ok u =>
      refine ⟨trivial, fun rep _ => ?_⟩
      cases rep with
      | error e => rintro ⟨⟩
      | ok d =>
        dsimp only [Program.bind]
        split
        · refine ⟨trivial, fun rep hrep => ?_⟩
          cases rep with
          | error e => rintro ⟨⟩
          | ok n => exact absurd (legal_of_temp hrep) h
        · rintro ⟨⟩

end Download

/-! ## Mirrored assets -/

/-- The asset is somewhere else, and is downloaded. -/
structure Remote (s : Matchbox) (url : String) (u : Url) : Prop where
  nonempty : url ≠ ""
  parsed : Url.parse url = .ok u
  web : u.scheme = "http" ∨ u.scheme = "https"
  foreign : u.host ≠ s.httpHost

section Mirror

variable {s : Matchbox} {cwd : Place} {url host text : String} {u : Url}

theorem mirror_remote (h : s.Remote url u) :
    s.mirror goLib url = fetchIfAbsent url (assetPath s.root u) >>= fun r =>
      pure (r.map fun _ => s.httpURL ++ "/" ++ assetsDir ++ "/" ++ trimLeading u.path "/") := by
  have hcopied : ¬((u.scheme ≠ "http" ∧ u.scheme ≠ "https") ∨ u.host = s.httpHost) := by
    rintro (⟨hhttp, hhttps⟩ | hhost)
    · exact h.web.elim hhttp hhttps
    · exact h.foreign hhost
  rw [mirror, if_neg h.nonempty, show goLib.parseURL url = .ok u from h.parsed]
  dsimp only
  rw [if_neg hcopied]
  congr 1
  funext r
  cases r with
  | error | ok => rfl

theorem mirror_local (h : ∀ u, ¬s.Remote url u) :
    ∃ r, s.mirror goLib url = .done r ∧ ∀ copy, r = .ok copy → copy = url := by
  rw [mirror]
  split
  next hempty => exact ⟨.ok "", rfl, fun copy hcopy => by cases hcopy; exact hempty.symm⟩
  next hempty =>
    split
    next e he => exact ⟨_, rfl, fun copy hcopy => by cases hcopy⟩
    next u hu =>
      split
      next => exact ⟨.ok url, rfl, fun copy hcopy => by cases hcopy; rfl⟩
      next hcopied =>
        rw [not_or, not_and_or, not_not, not_not] at hcopied
        exact absurd ⟨hempty, hu, hcopied.1, hcopied.2⟩ (h u)

theorem resolve_assetPath : resolve cwd (assetPath s.root u) =
    walk (s.assetsPlace cwd) (trimLeading u.path "/") :=
  resolve_path s.named ⟨by decide, by decide, by decide, by decide⟩ cwd _

/-- A remote asset is contained if the place of its copy is, and the URL of the copy leads there. -/
theorem contained_remote_iff (h : s.Remote url u) :
    s.Contained cwd url ↔ Fits (s.assetsPlace cwd) (resolve cwd (assetPath s.root u)) ∧
      (Legal (resolve cwd (assetPath s.root u)) →
        s.Designates cwd (s.httpURL ++ "/" ++ assetsDir ++ "/" ++ trimLeading u.path "/")
          (resolve cwd (assetPath s.root u))) := by
  constructor
  · rintro (⟨r, hr, -⟩ | ⟨dest, hbelow, hconf, hleads⟩)
    · rw [mirror_remote h] at hr
      cases hr
    rw [mirror_remote h] at hconf hleads
    -- the first call asks for the copy; it may be there already, or its directory is made
    obtain ⟨hdest, hnext⟩ := hconf [] [] (List.Subset.refl _) (.error ⟨true, ""⟩) trivial
    obtain rfl : assetPath s.root u = dest := hdest
    refine ⟨⟨hbelow, fun hzero => ?_⟩, fun hlegal => hleads.2 (.ok 1) hlegal _ rfl⟩
    have hmade := (hnext _ (List.Subset.refl _) (.ok ()) trivial).1
    rw [OnWay, ← legalPart_dirPath hzero]
    exact hmade
  · rintro ⟨hfits, hleads⟩
    refine Or.inr ⟨assetPath s.root u, hfits.below, ?_, ?_⟩
    · rw [mirror_remote h]
      exact (fetchIfAbsent_confined hfits).bind fun _ => Program.justified_done _
    rw [mirror_remote h]
    by_cases hlegal : Legal (resolve cwd (assetPath s.root u))
    · have hany : ∀ p : BootProg (Except String Unit),
          p.Within (Honest cwd) (fun _ => True) fun _ => True := by
        intro p
        induction p with
        | done a => exact trivial
        | request op next ih => exact ⟨trivial, fun r _ => ih r⟩
      refine (hany _).bind fun r _ => ?_
      cases r with
      | error e => exact fun _ hcopy => by cases hcopy
      | ok _ =>
        rintro copy ⟨⟩
        exact hleads hlegal
    · refine (fetchIfAbsent_fails hlegal).bind fun r hr => ?_
      cases r with
      | error e => exact fun _ hcopy => by cases hcopy
      | ok _ => exact absurd rfl hr

/-- The URL of a copy is decoded when it is read. -/
theorem designates_iff (hs : s.Served cwd) {p : String} {q : Place} :
    s.Designates cwd (s.httpURL ++ "/" ++ assetsDir ++ "/" ++ p) q ↔
      ∃ again, Url.readPath p = some again ∧ walk (s.assetsPlace cwd) again = q := by
  obtain ⟨scheme, base, hscheme, hurl, hhash, hquery, hcode, hcontrol⟩ := hs.url
  have hread : ∀ text, Url.readPath (base ++ assetsDir ++ "/" ++ text) =
      (Url.readPath text).map (base ++ assetsDir ++ "/" ++ ·) := by
    intro text
    refine Url.readPath_append ?_ ?_ ?_ ?_ text <;>
      simp [String.toList_append, hhash, hquery, hcode, hcontrol, assetsDir, Url.isControl]
  have hform : ∀ text, s.httpURL ++ "/" ++ assetsDir ++ "/" ++ text =
      scheme ++ "://" ++ s.httpHost ++ "/" ++ (base ++ assetsDir ++ "/" ++ text) := by
    intro text
    rw [hurl]
    simp only [String.append_assoc]
  have hbase : Url.parse (s.httpURL ++ "/" ++ assetsDir ++ "/") =
      .ok ⟨scheme, s.httpHost, "/" ++ (base ++ assetsDir ++ "/")⟩ := by
    rw [← String.append_empty (s := _ ++ "/"), hform, Url.parse_address hscheme hs.host, hread]
    exact ⟨_, rfl, by simp⟩
  rw [Designates, hbase, hform]
  constructor
  · rintro ⟨_, rest, ⟨⟩, hparse, hwalk⟩
    obtain ⟨t, ht, heq⟩ := (Url.parse_address hscheme hs.host).1 hparse
    rw [hread, Option.map_eq_some_iff] at ht
    obtain ⟨again, hagain, rfl⟩ := ht
    refine ⟨again, hagain, ?_⟩
    have hpath := congrArg Url.path heq
    simp only [String.append_assoc, String.append_right_inj] at hpath
    rw [← hpath, hwalk]
  · rintro ⟨again, hagain, hwalk⟩
    refine ⟨_, again, rfl, (Url.parse_address hscheme hs.host).2 ⟨_, by rw [hread, hagain]; rfl, ?_⟩, hwalk⟩
    simp [String.append_assoc]

end Mirror

section Inward

variable {dir : Place} (hdots : ".." ∉ dir)
include hdots

theorem leads_climb {p : String} {rest : Place} : Leads dir (climb p) rest ↔ walk dir p = dir ++ rest := by
  obtain ⟨k, names, hp, hnames⟩ := exists_ups p
  rw [climbs_iff hdots hp hnames, walk_ups hdots hp hnames]

variable (hlegal : Legal dir)
include hlegal

/-- What can be made on the way to the place that a path leads to. -/
theorem exists_legalParts (p : String) : ∃ k names, ".." ∉ names ∧ (Legal (climb p) ↔ Legal (walk dir p)) ∧
    legalPart (climb p) = List.replicate k ".." ++ names ∧
    legalPart (walk dir p) = dir.take (dir.length - k) ++ names := by
  obtain ⟨k, names, hp, hnames⟩ := exists_ups p
  have hups : Legal (List.replicate k "..") := by
    intro a ha
    rw [List.eq_of_mem_replicate ha]
    decide
  have hdown : Legal (dir.take (dir.length - k)) := hlegal.of_isPrefix (List.take_prefix _ _)
  refine ⟨k, legalPart names, fun h => hnames ((legalPart_isPrefix _).subset h), ?_, ?_, ?_⟩
  · rw [hp, walk_ups hdots hp hnames, legal_append, legal_append]
    exact ⟨fun h => ⟨hdown, h.2⟩, fun h => ⟨hups, h.2⟩⟩
  · rw [hp, legalPart_append hups]
  · rw [walk_ups hdots hp hnames, legalPart_append hdown]

theorem onWay_iff {p : String} : OnWay dir (walk dir p) ↔ ∃ rest, ".." ∉ rest ∧
    (Leads dir (legalPart (climb p)) rest ∨ Leads dir (legalPart (climb p) ++ rest) []) := by
  obtain ⟨k, names, hnames, -, hclimb, hwalk⟩ := exists_legalParts hdots hlegal p
  rw [OnWay, hwalk]
  constructor
  · rintro (⟨rest, heq⟩ | ⟨rest, heq⟩)
    · have hleads := (climbs_iff hdots hclimb hnames).2 heq.symm
      exact ⟨rest, hleads.1, Or.inl hleads⟩
    · have hrest : ".." ∉ rest := fun h => hdots (heq ▸ List.mem_append_right _ h)
      have hnames' : ".." ∉ names ++ rest := by simp [hnames, hrest]
      have hclimb' : legalPart (climb p) ++ rest = List.replicate k ".." ++ (names ++ rest) := by
        rw [hclimb, List.append_assoc]
      refine ⟨rest, hrest, Or.inr ((climbs_iff hdots hclimb' hnames').2 ?_)⟩
      rw [List.append_nil, ← List.append_assoc, heq]
  · rintro ⟨rest, hrest, h | h⟩
    · exact Or.inl ⟨rest, ((climbs_iff hdots hclimb hnames).1 h).symm⟩
    · have hnames' : ".." ∉ names ++ rest := by simp [hnames, hrest]
      have hclimb' : legalPart (climb p) ++ rest = List.replicate k ".." ++ (names ++ rest) := by
        rw [hclimb, List.append_assoc]
      have heq := (climbs_iff hdots hclimb' hnames').1 h
      exact Or.inr ⟨rest, by rw [List.append_assoc, heq, List.append_nil]⟩

theorem inward_iff {text : String} : Inward dir text ↔ ∀ p, Url.readPath text = some p →
    Fits dir (walk dir p) ∧ (Legal (walk dir p) →
      ∃ again, Url.readPath p = some again ∧ walk dir again = walk dir p) := by
  have hsame : ∀ p, Legal (climb p) ↔ Legal (walk dir p) := by
    intro p
    obtain ⟨k, names, -, h, -, -⟩ := exists_legalParts hdots hlegal p
    exact h
  constructor
  · intro h p hp
    refine ⟨⟨fun hfile => ?_, fun hzero => ?_⟩, fun hfile => ?_⟩
    · obtain ⟨rest, -, hne, hleads, -, -⟩ := h.file hp ((hsame p).2 hfile)
      rw [(leads_climb hdots).1 hleads]
      exact ⟨List.prefix_append _ _, by simpa using hne⟩
    · exact (onWay_iff hdots hlegal).2 (h.zero hp fun hfile => hzero ((hsame p).1 hfile))
    · obtain ⟨rest, again, -, hleads, hagain, hback⟩ := h.file hp ((hsame p).2 hfile)
      exact ⟨again, hagain, ((leads_climb hdots).1 hback).trans ((leads_climb hdots).1 hleads).symm⟩
  · intro h
    refine ⟨fun {p} hp hfile => ?_, fun {p} hp hzero => ?_⟩
    · obtain ⟨hfits, hdecoded⟩ := h p hp
      obtain ⟨⟨rest, hrest⟩, hne⟩ := hfits.below ((hsame p).1 hfile)
      obtain ⟨again, hagain, heq⟩ := hdecoded ((hsame p).1 hfile)
      refine ⟨rest, again, ?_, (leads_climb hdots).2 hrest.symm, hagain, (leads_climb hdots).2 ?_⟩
      · rintro rfl
        exact hne (by rw [← hrest, List.append_nil])
      · rw [heq, hrest]
    · exact (onWay_iff hdots hlegal).1 ((h p hp).1.way fun hfile => hzero ((hsame p).2 hfile))

omit hdots hlegal in
/-- Nothing encoded, and no dots. -/
theorem inward_of_plain {text : String} (hread : Url.readPath text = some text) (hne : climb text ≠ [])
    (hplain : ∀ name ∈ climb text, legalName name = true ∧ name ≠ "..") : Inward dir text := by
  have hdots : ".." ∉ climb text := fun h => (hplain _ h).2 rfl
  have hleads : Leads dir (climb text) (climb text) := ⟨hdots, 0, by simp⟩
  have hlegal : Legal (climb text) := fun name hname => (hplain name hname).1
  constructor
  · intro p hp _
    obtain rfl : text = p := Option.some.inj (hread.symm.trans hp)
    exact ⟨_, text, hne, hleads, hread, hleads⟩
  · intro p hp hzero
    obtain rfl : text = p := Option.some.inj (hread.symm.trans hp)
    exact absurd hlegal hzero

end Inward

section Assets

variable {s : Matchbox} {cwd : Place} {host text : String}

theorem contained_iff (hs : s.Served cwd) (hhost : Url.Address host) (hne : host ≠ s.httpHost) :
    s.Contained cwd ("https" ++ "://" ++ host ++ "/" ++ text) ↔ Inward (s.assetsPlace cwd) text := by
  have hparse {u : Url} : Url.parse ("https" ++ "://" ++ host ++ "/" ++ text) = .ok u ↔ _ :=
    Url.parse_address (Or.inr rfl) hhost
  cases htext : Url.readPath text with
  | none =>
    rw [htext] at hparse
    refine iff_of_true (Or.inl (mirror_local fun u hu => ?_)) ?_
    · obtain ⟨p, hp, -⟩ := hparse.1 hu.parsed
      cases hp
    · rw [inward_iff hs.noDots hs.legal, htext]
      simp
  | some p =>
    have hremote : s.Remote ("https" ++ "://" ++ host ++ "/" ++ text) ⟨"https", host, "/" ++ p⟩ :=
      ⟨by simp, hparse.2 ⟨p, htext, rfl⟩, Or.inr rfl, hne⟩
    rw [contained_remote_iff hremote, resolve_assetPath, trimLeading_append, designates_iff hs,
      inward_iff hs.noDots hs.legal, htext]
    simp

theorem contained_of_local (hhost : Url.Address s.httpHost) :
    s.Contained cwd ("https" ++ "://" ++ s.httpHost ++ "/" ++ text) := by
  refine Or.inl (mirror_local fun u hu => ?_)
  obtain ⟨p, -, rfl⟩ := (Url.parse_address (Or.inr rfl) hhost).1 hu.parsed
  exact hu.foreign rfl

theorem bootAssets_eq (host schematicID version arch : String) :
    (bootAssets host schematicID version arch).1 :: (bootAssets host schematicID version arch).2 =
      (assetNames arch).map fun file => "https" ++ "://" ++ factoryOr host ++ "/" ++
        ("image/" ++ schematicID ++ "/" ++ version ++ "/" ++ file) := by
  simp only [bootAssets, assetNames, List.map_cons, List.map_nil]
  rw [show "https://" = "https" ++ "://" from rfl, show "/image/" = "/" ++ "image/" from rfl,
    show "/kernel-" = "/" ++ "kernel-" from rfl, show "/initramfs-" = "/" ++ "initramfs-" from rfl]
  simp only [String.append_assoc]

end Assets

end Matchbox

namespace AssetPaths

open BootAssets

theorem server_served : server.Served [] where
  url := ⟨"http", "", Or.inl rfl, by decide, by decide, by decide, by decide, by decide⟩
  host := ⟨by simp [server, Url.isControl], by decide⟩
  legal := by decide +kernel
  noDots := by decide +kernel

theorem factory_address : Url.Address (factoryOr "") :=
  ⟨by simp [factoryOr, defaultFactoryHost, Url.isControl], by decide +kernel⟩

end AssetPaths

namespace AssetPaths

/-- From the directory of a schematic to the one of the groups. -/
def upwards : String := "../../../groups"

/-- A client asks for that version of the cluster. -/
def asked : List Lbl × State :=
  runScript Script.settings (Script.armed ++ Script.request (.setClusterVersions "c" (some upwards) none 0))
    State.initial

end AssetPaths

end Medea
