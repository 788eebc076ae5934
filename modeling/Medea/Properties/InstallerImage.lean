import Mathlib.Data.List.SplitBy
import Medea.Rollout.Reconciler

/-!
# The installer image of an upgrade

`DeriveInstallerImage` replaces what follows the last colon of a reference. `ImageRef` is a reference as
the grammar has it, `[host[:port]/]path[:tag][@digest]`, and `ImageRef.render` its text.
`derive_preserves_iff`: the derived text is that of a valid reference with the same registry and path, the
new tag and no digest, if and only if the reference has no digest. With a digest the last colon is the
one inside it, so the tag stays and the new version ends up as the digest (`digest_not_dropped`).
-/

set_option autoImplicit false

namespace Medea

/-! ## The grammar -/

inductive ImageHost where
  | domain (components : List String)
  | ipv6 (address : String)
  deriving DecidableEq

structure ImageRef where
  registry : Option (ImageHost × Option String)
  path : List String
  tag : Option String
  /-- The algorithm and the hexadecimal digits. -/
  digest : Option (String × String)
  deriving DecidableEq

namespace ImageRef

def lowerAlnum (c : Char) : Bool := c.isLower || c.isDigit

/-- What may stand between two alphanumeric runs of a path component. -/
def validSeparator (run : List Char) : Bool :=
  run == ['.'] || run == ['_'] || run == ['_', '_'] || run.all (· == '-')

def validComponent (s : String) : Bool :=
  s.toList.head?.any lowerAlnum && s.toList.getLast?.any lowerAlnum &&
    (s.toList.splitBy fun a b => lowerAlnum a == lowerAlnum b).all fun run =>
      run.all lowerAlnum || validSeparator run

def validDomainComponent (s : String) : Bool :=
  s.toList.head?.any Char.isAlphanum && s.toList.getLast?.any Char.isAlphanum &&
    s.toList.all fun c => c.isAlphanum || c == '-'

def hexDigit (c : Char) : Bool :=
  c.isDigit || ('a' ≤ c && c ≤ 'f') || ('A' ≤ c && c ≤ 'F')

def validHost : ImageHost → Bool
  | .domain components => !components.isEmpty && components.all validDomainComponent
  | .ipv6 address => address != "" && address.toList.all fun c => hexDigit c || c == ':'

def validPort (s : String) : Bool := s != "" && s.toList.all Char.isDigit

def wordChar (c : Char) : Bool := c.isAlphanum || c == '_'

def validTag (s : String) : Bool :=
  s.toList.head?.any wordChar && s.length ≤ 128 &&
    s.toList.all fun c => wordChar c || c == '.' || c == '-'

def validAlgorithm (s : String) : Bool :=
  (s.toList.splitOnP fun c => c == '+' || c == '.' || c == '-' || c == '_').all fun part =>
    part.head?.any Char.isAlpha && part.all Char.isAlphanum

def validHex (s : String) : Bool := 32 ≤ s.length && s.toList.all hexDigit

/-- The parts of the reference are what the grammar allows. -/
structure Valid (r : ImageRef) : Prop where
  host : ∀ h p, r.registry = some (h, p) → validHost h = true
  port : ∀ h p, r.registry = some (h, some p) → validPort p = true
  nonempty : r.path ≠ []
  path : ∀ s ∈ r.path, validComponent s = true
  tag : ∀ t, r.tag = some t → validTag t = true
  digest : ∀ d, r.digest = some d → validAlgorithm d.1 = true ∧ validHex d.2 = true

def renderHost : ImageHost → String
  | .domain components => String.intercalate "." components
  | .ipv6 address => "[" ++ address ++ "]"

def renderRegistry : Option (ImageHost × Option String) → String
  | none => ""
  | some (h, none) => renderHost h ++ "/"
  | some (h, some p) => renderHost h ++ ":" ++ p ++ "/"

def name (r : ImageRef) : String := renderRegistry r.registry ++ String.intercalate "/" r.path

def render (r : ImageRef) : String :=
  r.name ++ (match r.tag with | none => "" | some t => ":" ++ t) ++
    match r.digest with | none => "" | some d => "@" ++ d.1 ++ ":" ++ d.2

/-- The text is a valid reference to the same repository, with the tag and without a digest. -/
def Preserved (r : ImageRef) (v text : String) : Prop :=
  ∃ r' : ImageRef, r'.Valid ∧ r'.render = text ∧ r'.registry = r.registry ∧ r'.path = r.path ∧
    r'.tag = some v ∧ r'.digest = none

end ImageRef

/-! ## Characters -/

namespace ImageRef

theorem mem_intercalate {sep : String} {ps : List String} {c : Char}
    (h : c ∈ (String.intercalate sep ps).toList) : c ∈ sep.toList ∨ ∃ p ∈ ps, c ∈ p.toList := by
  induction ps with
  | nil => simp at h
  | cons p ps ih =>
    cases ps with
    | nil => exact Or.inr ⟨p, List.mem_cons_self, by simpa using h⟩
    | cons q qs =>
      rw [String.intercalate_cons_cons, String.toList_append, String.toList_append,
        List.mem_append, List.mem_append] at h
      rcases h with (hp | hsep) | hrest
      · exact Or.inr ⟨p, List.mem_cons_self, hp⟩
      · exact Or.inl hsep
      · rcases ih hrest with hsep | ⟨s, hs, hc⟩
        · exact Or.inl hsep
        · exact Or.inr ⟨s, List.mem_cons_of_mem _ hs, hc⟩

theorem not_mem_of_all {p : Char → Bool} {s : String} (h : s.toList.all p = true) {c : Char}
    (hc : p c = false) : c ∉ s.toList := by
  intro hmem
  have := List.all_eq_true.1 h c hmem
  rw [hc] at this
  cases this

/-- The characters of a path component. -/
theorem mem_component {s : String} (h : validComponent s = true) {c : Char} (hc : c ∈ s.toList) :
    lowerAlnum c = true ∨ c = '.' ∨ c = '_' ∨ c = '-' := by
  rw [validComponent, Bool.and_eq_true] at h
  rw [← List.flatten_splitBy (fun a b => lowerAlnum a == lowerAlnum b) s.toList, List.mem_flatten] at hc
  obtain ⟨run, hrun, hc⟩ := hc
  have hall := List.all_eq_true.1 h.2 run hrun
  rw [Bool.or_eq_true] at hall
  rcases hall with halnum | hsep
  · exact Or.inl (List.all_eq_true.1 halnum c hc)
  · simp only [validSeparator, Bool.or_eq_true, beq_iff_eq, List.all_eq_true] at hsep
    rcases hsep with ((rfl | rfl) | rfl) | hdash
    · simp at hc
      simp [hc]
    · simp at hc
      simp [hc]
    · simp at hc
      simp [hc]
    · simp [hdash c hc]

theorem component_not_mem {s : String} (h : validComponent s = true) :
    ':' ∉ s.toList ∧ '@' ∉ s.toList ∧ '/' ∉ s.toList := by
  refine ⟨?_, ?_, ?_⟩
  · intro hc
    exact absurd (mem_component h hc) (by decide)
  · intro hc
    exact absurd (mem_component h hc) (by decide)
  · intro hc
    exact absurd (mem_component h hc) (by decide)

theorem tag_not_mem {s : String} (h : validTag s = true) :
    ':' ∉ s.toList ∧ '@' ∉ s.toList ∧ '/' ∉ s.toList := by
  rw [validTag, Bool.and_eq_true] at h
  exact ⟨not_mem_of_all h.2 (by decide), not_mem_of_all h.2 (by decide), not_mem_of_all h.2 (by decide)⟩

theorem hex_not_mem {s : String} (h : validHex s = true) : ':' ∉ s.toList ∧ '/' ∉ s.toList := by
  rw [validHex, Bool.and_eq_true] at h
  exact ⟨not_mem_of_all h.2 (by decide), not_mem_of_all h.2 (by decide)⟩

theorem host_not_mem {h : ImageHost} (hv : validHost h = true) : '@' ∉ (renderHost h).toList := by
  intro hc
  cases h with
  | domain components =>
    rw [validHost, Bool.and_eq_true, List.all_eq_true] at hv
    rcases mem_intercalate hc with hdot | ⟨s, hs, hc⟩
    · exact absurd hdot (by decide)
    · have hcomp := hv.2 s hs
      rw [validDomainComponent, Bool.and_eq_true] at hcomp
      exact not_mem_of_all hcomp.2 (by decide) hc
  | ipv6 address =>
    rw [validHost, Bool.and_eq_true] at hv
    simp only [renderHost, String.toList_append, List.mem_append] at hc
    rcases hc with (hc | hc) | hc
    · exact absurd hc (by decide)
    · exact not_mem_of_all hv.2 (by decide) hc
    · exact absurd hc (by decide)

variable {r : ImageRef}

theorem Valid.path_not_mem (hr : r.Valid) :
    ':' ∉ (String.intercalate "/" r.path).toList ∧ '@' ∉ (String.intercalate "/" r.path).toList := by
  constructor
  · intro hc
    rcases mem_intercalate hc with hslash | ⟨s, hs, hc⟩
    · exact absurd hslash (by decide)
    · exact (component_not_mem (hr.path s hs)).1 hc
  · intro hc
    rcases mem_intercalate hc with hslash | ⟨s, hs, hc⟩
    · exact absurd hslash (by decide)
    · exact (component_not_mem (hr.path s hs)).2.1 hc

theorem Valid.name_not_mem (hr : r.Valid) : '@' ∉ r.name.toList := by
  rw [name, String.toList_append, List.mem_append, not_or]
  refine ⟨?_, hr.path_not_mem.2⟩
  intro hc
  rcases hreg : r.registry with _ | ⟨h, _ | p⟩
  · rw [hreg] at hc
    simp [renderRegistry] at hc
  · rw [hreg] at hc
    simp only [renderRegistry, String.toList_append, List.mem_append] at hc
    rcases hc with hc | hc
    · exact host_not_mem (hr.host h none hreg) hc
    · exact absurd hc (by decide)
  · have hport := hr.port h p hreg
    rw [validPort, Bool.and_eq_true] at hport
    rw [hreg] at hc
    simp only [renderRegistry, String.toList_append, List.mem_append] at hc
    rcases hc with ((hc | hc) | hc) | hc
    · exact host_not_mem (hr.host h _ hreg) hc
    · exact absurd hc (by decide)
    · exact not_mem_of_all hport.2 (by decide) hc
    · exact absurd hc (by decide)

theorem Valid.name_ne_empty (hr : r.Valid) : r.name ≠ "" := by
  obtain ⟨s, rest, hpath⟩ := List.exists_cons_of_ne_nil hr.nonempty
  have hs := hr.path s (by rw [hpath]; exact List.mem_cons_self)
  intro hempty
  have hparts := congrArg String.toList hempty
  rw [name, String.toList_append, hpath] at hparts
  have hpart : (String.intercalate "/" (s :: rest)).toList = [] := (List.append_eq_nil_iff.1 hparts).2
  have hnil : s.toList = [] := by
    cases rest with
    | nil => simpa using hpart
    | cons q qs =>
      rw [String.intercalate_cons_cons, String.toList_append] at hpart
      simp at hpart
  rw [validComponent, hnil] at hs
  cases hs

/-- A reference without a digest has no `@`. -/
theorem Valid.render_not_mem (hr : r.Valid) (hd : r.digest = none) : '@' ∉ r.render.toList := by
  rw [render, hd]
  simp only [String.toList_append, List.mem_append, not_or]
  refine ⟨⟨hr.name_not_mem, ?_⟩, by decide⟩
  cases ht : r.tag with
  | none => decide
  | some t =>
    rw [String.toList_append, List.mem_append, not_or]
    exact ⟨by decide, (tag_not_mem (hr.tag t ht)).2.1⟩

end ImageRef

/-! ## The split -/

/-- After a colon that a slash follows, there is a slash. -/
theorem splitLastColon_slash {before after : List Char} (h : ':' ∉ after) {b a : List Char}
    (hs : splitLastColon (before ++ '/' :: after) = some (b, a)) : '/' ∈ a := by
  induction before generalizing b with
  | nil =>
    rw [List.nil_append, splitLastColon_eq_none] at hs
    · cases hs
    · simp [h]
  | cons c before ih =>
    rw [List.cons_append, splitLastColon] at hs
    cases hrest : splitLastColon (before ++ '/' :: after) with
    | some p =>
      rw [hrest] at hs
      cases hs
      exact ih hrest
    | none =>
      rw [hrest] at hs
      by_cases hc : c = ':'
      · rw [if_pos hc] at hs
        cases hs
        simp
      · rw [if_neg hc] at hs
        cases hs

theorem derive_append {current version : String} (hne : current ≠ "")
    (h : ∀ b a, splitLastColon current.toList = some (b, a) → '/' ∈ a) :
    deriveInstallerImage current version = current ++ ":" ++ version := by
  rw [deriveInstallerImage, if_neg hne]
  cases hs : splitLastColon current.toList with
  | none => rfl
  | some p => exact if_pos (h p.1 p.2 hs)

theorem derive_replace {base last version : String} (hcolon : ':' ∉ last.toList)
    (hslash : '/' ∉ last.toList) :
    deriveInstallerImage (base ++ ":" ++ last) version = base ++ ":" ++ version := by
  have hlist : (base ++ ":" ++ last).toList = base.toList ++ ':' :: last.toList := by
    simp [String.toList_append]
  have hne : base ++ ":" ++ last ≠ "" := by
    intro h
    rw [← String.toList_inj, hlist] at h
    simp at h
  rw [deriveInstallerImage, if_neg hne, hlist, splitLastColon_append hcolon]
  simp only [hslash, if_false]
  rw [String.ofList_toList]

namespace ImageRef

variable {r : ImageRef} {v : String}

/-- The name of a reference gets a tag at its end, also after a port. -/
theorem Valid.derive_name (hr : r.Valid) : deriveInstallerImage r.name v = r.name ++ ":" ++ v := by
  refine derive_append hr.name_ne_empty ?_
  intro b a hs
  have hpath := hr.path_not_mem.1
  rw [name, String.toList_append] at hs
  rcases hreg : r.registry with _ | ⟨h, p⟩
  · rw [hreg] at hs
    rw [show (renderRegistry none).toList = [] from rfl, List.nil_append,
      splitLastColon_eq_none hpath] at hs
    cases hs
  · have hslash : ∃ host : List Char, (renderRegistry (some (h, p))).toList = host ++ ['/'] := by
      cases p with
      | none => exact ⟨(renderHost h).toList, by simp [renderRegistry]⟩
      | some p => exact ⟨(renderHost h ++ ":" ++ p).toList, by simp [renderRegistry]⟩
    obtain ⟨host, hhost⟩ := hslash
    rw [hreg, hhost, List.append_assoc, List.singleton_append] at hs
    exact splitLastColon_slash hpath hs

theorem Valid.derive_of_digest_none (hr : r.Valid) (hd : r.digest = none) :
    deriveInstallerImage r.render v = { r with tag := some v, digest := none }.render := by
  have hresult : { r with tag := some v, digest := none }.render = r.name ++ ":" ++ v := by
    simp [render, name, String.append_assoc]
  rw [hresult, render, hd]
  cases ht : r.tag with
  | none =>
    simp only [String.append_empty]
    exact hr.derive_name
  | some t =>
    obtain ⟨hcolon, -, hslash⟩ := tag_not_mem (hr.tag t ht)
    simp only [String.append_empty, ← String.append_assoc]
    exact derive_replace hcolon hslash

/-- With a digest, its digits are what is replaced. -/
theorem Valid.derive_of_digest (hr : r.Valid) {d : String × String} (hd : r.digest = some d) :
    deriveInstallerImage r.render v = { r with digest := some (d.1, v) }.render := by
  obtain ⟨hcolon, hslash⟩ := hex_not_mem (hr.digest d hd).2
  simp only [render, hd, ← String.append_assoc]
  exact derive_replace hcolon hslash

end ImageRef

/-- The derived image is the same image with the new tag and without a digest, if and only if the current
one has no digest. -/
theorem derive_preserves_iff {r : ImageRef} (hr : r.Valid) {v : String}
    (hv : ImageRef.validTag v = true) :
    r.Preserved v (deriveInstallerImage r.render v) ↔ r.digest = none := by
  constructor
  · rintro ⟨r', hr', htext, -, -, -, hdigest⟩
    -- a digest that was there leaves its `@`
    rcases hd : r.digest with _ | d
    · rfl
    · have hnone := hr'.render_not_mem hdigest
      rw [htext, hr.derive_of_digest hd] at hnone
      simp [ImageRef.render] at hnone
  · intro hd
    refine ⟨{ r with tag := some v, digest := none }, ?_, (hr.derive_of_digest_none hd).symm, rfl, rfl,
      rfl, rfl⟩
    refine ⟨hr.host, hr.port, hr.nonempty, hr.path, ?_, nofun⟩
    rintro t ⟨⟩
    exact hv

namespace ImageRef

/-- A schematic of an Image Factory on a port of its own. -/
def schematic : ImageRef where
  registry := some (.domain ["factory", "talos", "dev"], some "5000")
  path := ["installer", "abc123def"]
  tag := some "v1.13.5"
  digest := none

/-- The same image, pinned. -/
def pinned : ImageRef :=
  { schematic with digest := some ("sha256", "0123456789abcdef0123456789abcdef") }

theorem pinned_valid : pinned.Valid where
  host := by
    rintro h p ⟨⟩
    decide
  port := by
    rintro h p ⟨⟩
    decide
  nonempty := by simp [pinned, schematic]
  path := by decide
  tag := by
    rintro t ⟨⟩
    decide
  digest := by
    rintro d ⟨⟩
    decide

theorem schematic_valid : schematic.Valid :=
  ⟨pinned_valid.host, pinned_valid.port, pinned_valid.nonempty, pinned_valid.path, pinned_valid.tag, nofun⟩

end ImageRef

theorem schematic_preserved :
    ImageRef.schematic.render = "factory.talos.dev:5000/installer/abc123def:v1.13.5" ∧
      ImageRef.schematic.Preserved "v1.13.6"
        (deriveInstallerImage ImageRef.schematic.render "v1.13.6") :=
  ⟨by decide, (derive_preserves_iff ImageRef.schematic_valid (by decide)).2 rfl⟩

/-- The tag stays, and the version is in the place of the digest. -/
theorem digest_not_dropped :
    ImageRef.pinned.Valid ∧ ImageRef.validTag "v1.13.6" = true ∧
      ImageRef.pinned.render =
        "factory.talos.dev:5000/installer/abc123def:v1.13.5@sha256:0123456789abcdef0123456789abcdef" ∧
      deriveInstallerImage ImageRef.pinned.render "v1.13.6" =
        "factory.talos.dev:5000/installer/abc123def:v1.13.5@sha256:v1.13.6" ∧
      ¬ImageRef.pinned.Preserved "v1.13.6" (deriveInstallerImage ImageRef.pinned.render "v1.13.6") := by
  refine ⟨ImageRef.pinned_valid, by decide, by decide, by decide +kernel, ?_⟩
  rintro ⟨r', hr', htext, -, -, -, hdigest⟩
  have hnone := hr'.render_not_mem hdigest
  rw [htext] at hnone
  exact hnone (by decide +kernel)

/-! ## Derivations one after the other -/

/-- The image before the tag that a derivation writes. -/
def imageBase (current : String) : String :=
  if current = "" then defaultInstaller
  else
    match splitLastColon current.toList with
    | some (before, after) => if '/' ∈ after then current else String.ofList before
    | none => current

theorem derive_eq_base (current version : String) :
    deriveInstallerImage current version = imageBase current ++ ":" ++ version := by
  rw [deriveInstallerImage, imageBase]
  split_ifs with hempty
  · rfl
  · cases hs : splitLastColon current.toList with
    | none => rfl
    | some p =>
      dsimp only
      split_ifs
      · rfl
      · rfl

/-- A chain of upgrades ends at the image of a direct one. -/
theorem derive_absorbs (current : String) {v₁ : String} (hcolon : ':' ∉ v₁.toList)
    (hslash : '/' ∉ v₁.toList) (v₂ : String) :
    deriveInstallerImage (deriveInstallerImage current v₁) v₂ = deriveInstallerImage current v₂ := by
  rw [derive_eq_base current v₁, derive_replace hcolon hslash, derive_eq_base current v₂]

/-- By way of another version, from an untagged image behind a port. -/
theorem derive_absorbs_port :
    deriveInstallerImage "r:5000/installer" "v1.13.6" = "r:5000/installer:v1.13.6" ∧
      deriveInstallerImage (deriveInstallerImage "r:5000/installer" "v1.13.5") "v1.13.6" =
        deriveInstallerImage "r:5000/installer" "v1.13.6" :=
  ⟨by decide +kernel, derive_absorbs "r:5000/installer" (by decide) (by decide) "v1.13.6"⟩

end Medea
