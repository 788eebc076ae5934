import Medea.Inventory.Text

/-!
# Where a path leads

The operating system follows a path component by component, from the root or from the working directory.
`resolve` is the place where it ends: the list of names from the root. There are no symbolic links, so
`..` leads to the directory that the last name was looked up in.

`filepath.Clean` rewrites a path without following it; `resolve_cleanPath` says that the rewritten path
leads to the same place. A path that was joined from a directory and a name therefore leads to the place
that the name leads to from the directory (`resolve_joinPath`): below the directory for a plain name
(`walk_plain`), and anywhere at all for others. How far it goes up, and which way it then goes down, can be
read off the path (`walk_ups`).
-/

set_option autoImplicit false

namespace Medea.Files

variable {ps kept here : List String} {dir part path : String} {b : Bool}

/-- The names from the root to a place. -/
abbrev Place := List String

/-- The components of a path. -/
def parts (path : String) : List String := (components path.toList).map String.ofList

/-- The path starts at the root. -/
def rooted (path : String) : Bool := path.toList.head? == some '/'

/-- Follow the components, from a place with its names in reverse. -/
def follow (here ps : List String) : List String := ps.foldl (cleanStep true) here

/-- Where a path leads from a place that is taken for its start. -/
def walk (start : Place) (path : String) : Place := (follow start.reverse (parts path)).reverse

/-- Where a path leads, for a process with the given working directory. -/
def resolve (cwd : Place) (path : String) : Place := walk (if rooted path then [] else cwd) path

/-- A component that is a name: it leads down. -/
structure Plain (part : String) : Prop where
  nonempty : part ≠ ""
  noDot : part ≠ "."
  noDots : part ≠ ".."
  noSlash : '/' ∉ part.toList

theorem not_concat_isPrefix (p : Place) (a : String) : ¬p ++ [a] <+: p := by
  intro h
  have hlen := h.length_le
  rw [List.length_append, List.length_singleton] at hlen
  omega

/-! ## Components -/

theorem components_eq_splitOn (cs : List Char) : components cs = cs.splitOn '/' := by
  induction cs with
  | nil => simp [components]
  | cons c cs ih =>
    rw [components, ih, List.splitOn_cons_eq_if_modifyHead]
    cases hs : cs.splitOn '/' with
    | nil => exact absurd hs (List.splitOn_ne_nil _ _)
    | cons part rest =>
      by_cases hc : c = '/'
      · simp [hc]
      · simp [hc]

theorem components_noSlash (cs : List Char) : ∀ part ∈ components cs, '/' ∉ part := by
  induction cs with
  | nil => simp [components]
  | cons c cs ih =>
    rw [components]
    cases hs : components cs with
    | nil =>
      rw [components_eq_splitOn] at hs
      exact absurd hs (List.splitOn_ne_nil _ _)
    | cons part rest =>
      rw [hs] at ih
      have hpart := ih part List.mem_cons_self
      have hrest : ∀ q ∈ rest, '/' ∉ q := fun q hq => ih q (List.mem_cons_of_mem _ hq)
      by_cases hc : c = '/'
      · simp only [hc, if_true, List.mem_cons, forall_eq_or_imp]
        exact ⟨by simp, hpart, hrest⟩
      · simp only [hc, if_false, List.mem_cons, forall_eq_or_imp]
        refine ⟨?_, hrest⟩
        simp only [not_or]
        exact ⟨fun h => hc h.symm, hpart⟩

theorem parts_append (p q : String) : parts (p ++ "/" ++ q) = parts p ++ parts q := by
  simp [parts, components_eq_splitOn, List.splitOn_append_cons_self]

theorem parts_noSlash {p : String} (h : part ∈ parts p) : '/' ∉ part.toList := by
  obtain ⟨cs, hcs, rfl⟩ := List.mem_map.1 h
  rw [String.toList_ofList]
  exact components_noSlash _ cs hcs

theorem parts_of_noSlash {p : String} (h : '/' ∉ p.toList) : parts p = [p] := by
  simp [parts, components_eq_splitOn, List.splitOn_eq_singleton h]

theorem parts_intercalate (hne : ps ≠ []) (h : ∀ p ∈ ps, '/' ∉ p.toList) :
    parts (String.intercalate "/" ps) = ps := by
  have hsplit : (['/'].intercalate (ps.map String.toList)).splitOn '/' = ps.map String.toList := by
    apply List.splitOn_intercalate
    · simpa using h
    · simpa using hne
  have hslash : "/".toList = ['/'] := rfl
  rw [parts, components_eq_splitOn, String.toList_intercalate, hslash, hsplit]
  simp [Function.comp_def]

theorem rooted_iff : rooted path = true ↔ ∃ q qs, parts path = "" :: q :: qs := by
  rw [rooted, parts]
  cases path.toList with
  | nil => simp [components]
  | cons c cs =>
    rw [components]
    cases hs : components cs with
    | nil =>
      rw [components_eq_splitOn] at hs
      exact absurd hs (List.splitOn_ne_nil _ _)
    | cons part rest => by_cases hc : c = '/' <;> simp [hc]

/-- Text without a separator is added to the last component. -/
theorem parts_extend {text : String} (ht : '/' ∉ text.toList) (path : String) :
    ∃ init last, parts path = init ++ [last] ∧ parts (path ++ text) = init ++ [last ++ text] := by
  have hchars : ∀ cs : List Char, ∃ init last, components cs = init ++ [last] ∧
      components (cs ++ text.toList) = init ++ [last ++ text.toList] := by
    intro cs
    induction cs with
    | nil => exact ⟨[], [], rfl, by simp [components_eq_splitOn, List.splitOn_eq_singleton ht]⟩
    | cons c cs ih =>
      obtain ⟨init, last, hcs, hext⟩ := ih
      rw [List.cons_append, components, components, hcs, hext]
      cases init with
      | nil =>
        by_cases hc : c = '/'
        · exact ⟨[[]], last, by simp [hc]⟩
        · exact ⟨[], c :: last, by simp [hc]⟩
      | cons part init =>
        by_cases hc : c = '/'
        · exact ⟨[] :: part :: init, last, by simp [hc]⟩
        · exact ⟨(c :: part) :: init, last, by simp [hc]⟩
  obtain ⟨init, last, hpath, hext⟩ := hchars path.toList
  exact ⟨init.map String.ofList, String.ofList last, by simp [parts, hpath],
    by simp [parts, hext]⟩

/-! ## Following -/

/-- Something long enough after a name makes a name of it. -/
theorem plain_append {name text : String} (hname : '/' ∉ name.toList) (hlong : 2 < text.length)
    (ht : '/' ∉ text.toList) : Plain (name ++ text) := by
  have hlen : ∀ s : String, s.length ≤ 2 → name ++ text ≠ s := by
    rintro s hs rfl
    rw [String.length_append] at hs
    omega
  refine ⟨hlen _ (by decide), hlen _ (by decide), hlen _ (by decide), ?_⟩
  rw [String.toList_append, List.mem_append, not_or]
  exact ⟨hname, ht⟩

theorem cleanStep_plain (h : Plain part) : cleanStep b kept part = part :: kept := by
  simp [cleanStep, h.nonempty, h.noDot, h.noDots]

theorem follow_append (here ps qs : List String) :
    follow here (ps ++ qs) = follow (follow here ps) qs := List.foldl_append ..

theorem follow_plain (h : Plain part) : follow here [part] = part :: here := cleanStep_plain h

theorem walk_plain {start : Place} {name : String} (h : Plain name) :
    walk start name = start ++ [name] := by
  rw [walk, parts_of_noSlash h.noSlash, follow_plain h]
  simp

/-- A name leads to a place in the directory, to the directory itself, or to the one above. -/
theorem walk_name {here : Place} {name : String} (hdir : dir ≠ "..") (hslash : '/' ∉ name.toList)
    (hne : name ≠ "") :
    walk (here ++ [dir]) name =
      if name = "." then here ++ [dir] else if name = ".." then here else here ++ [dir, name] := by
  rw [walk, parts_of_noSlash hslash]
  by_cases hdot : name = "."
  · simp [follow, cleanStep, hdot]
  by_cases hdots : name = ".."
  · simp [follow, cleanStep, hdots, hdir]
  · simp [follow, cleanStep, hne, hdot, hdots]

/-- Different names in a directory lead to different places. -/
theorem walk_name_inj {here : Place} {a b : String} (hdir : dir ≠ "..") (ha : '/' ∉ a.toList)
    (ha' : a ≠ "") (hb : '/' ∉ b.toList) (hb' : b ≠ "")
    (h : walk (here ++ [dir]) a = walk (here ++ [dir]) b) : a = b := by
  rw [walk_name hdir ha ha', walk_name hdir hb hb'] at h
  split_ifs at h with ha1 hb1 hb2 ha2 hb1 hb2 hb1 hb2
  · rw [ha1, hb1]
  · simp at h
  · simp at h
  · simp at h
  · rw [ha2, hb2]
  · simp at h
  · simp at h
  · simp at h
  · simpa using h

/-- Plain names lead to different places from different directories. -/
theorem walk_plain_ne {here : Place} {dir' a b : String} (hne : dir ≠ dir') (ha : Plain a)
    (hdir : dir' ≠ "..") (hb : '/' ∉ b.toList) (hb' : b ≠ "") :
    walk (here ++ [dir]) a ≠ walk (here ++ [dir']) b := by
  rw [walk_plain ha, walk_name hdir hb hb']
  intro h
  split_ifs at h
  · simp at h
  · simp at h
  · simp [hne] at h

/-! ## Cleaning -/

/-- The components of a cleaned path. -/
def Tidy (ps : List String) : Prop := ∀ p ∈ ps, p = ".." ∨ Plain p

theorem Tidy.noSlash (h : Tidy ps) : ∀ p ∈ ps, '/' ∉ p.toList := by
  intro p hp
  rcases h p hp with rfl | hplain
  · decide
  · exact hplain.noSlash

theorem Tidy.nonempty (h : Tidy ps) : "" ∉ ps := by
  intro hp
  rcases h "" hp with hdots | hplain
  · exact absurd hdots (by decide)
  · exact hplain.nonempty rfl

theorem cleanStep_tidy (hkept : Tidy kept) (hpart : '/' ∉ part.toList) :
    Tidy (cleanStep b kept part) := by
  unfold cleanStep
  split
  · exact hkept
  next hskip =>
    rw [not_or] at hskip
    split
    next =>
      cases kept with
      | nil => cases b <;> simp [Tidy]
      | cons last rest =>
        dsimp only
        split
        · simpa [Tidy] using hkept
        · exact fun p hp => hkept p (List.mem_cons_of_mem _ hp)
    next hdots =>
      intro p hp
      rcases List.mem_cons.1 hp with rfl | hp
      · exact Or.inr ⟨hskip.1, hskip.2, hdots, hpart⟩
      · exact hkept p hp

/-- Cleaning one component and following the rest is following both. The root is its own parent. -/
theorem follow_cleanStep (hroot : b = true → here = []) (hkept : Tidy kept) :
    follow here (cleanStep b kept part).reverse = cleanStep true (follow here kept.reverse) part := by
  by_cases hskip : part = "" ∨ part = "."
  · simp [cleanStep, hskip]
  by_cases hdots : part = ".."
  · subst hdots
    cases kept with
    | nil =>
      cases b with
      | true => simp [hroot rfl, cleanStep, follow]
      | false => simp [cleanStep, follow]
    | cons last rest =>
      by_cases hlast : last = ".."
      · simp [cleanStep, hlast, follow]
      · -- a name is dropped with the step back
        have hplain := (hkept last List.mem_cons_self).resolve_left hlast
        have hfollow : follow here (last :: rest).reverse = last :: follow here rest.reverse := by
          rw [List.reverse_cons, follow_append, follow_plain hplain]
        rw [hfollow]
        simp [cleanStep, hlast]
  · simp [cleanStep, hskip, hdots, follow]

theorem follow_clean (hroot : b = true → here = []) (hps : ∀ p ∈ ps, '/' ∉ p.toList)
    (hkept : Tidy kept) :
    follow here (ps.foldl (cleanStep b) kept).reverse = follow (follow here kept.reverse) ps := by
  induction ps generalizing kept with
  | nil => rfl
  | cons part ps ih =>
    have hpart := hps part List.mem_cons_self
    rw [List.foldl_cons, ih (fun p hp => hps p (List.mem_cons_of_mem _ hp))
      (cleanStep_tidy hkept hpart), follow_cleanStep hroot hkept]
    rfl

theorem clean_tidy (hps : ∀ p ∈ ps, '/' ∉ p.toList) (hkept : Tidy kept) :
    Tidy (ps.foldl (cleanStep b) kept) := by
  induction ps generalizing kept with
  | nil => exact hkept
  | cons part ps ih =>
    exact ih (fun p hp => hps p (List.mem_cons_of_mem _ hp))
      (cleanStep_tidy hkept (hps part List.mem_cons_self))

theorem parts_rooted (h : rooted path = true) : "" ∈ parts path := by
  obtain ⟨q, qs, hparts⟩ := rooted_iff.1 h
  rw [hparts]
  exact List.mem_cons_self

/-- The components that cleaning keeps. -/
def cleaned (path : String) : List String :=
  ((parts path).foldl (cleanStep (rooted path)) []).reverse

theorem cleaned_tidy (path : String) : Tidy (cleaned path) := by
  have h : Tidy ((parts path).foldl (cleanStep (rooted path)) []) :=
    clean_tidy (fun p hp => parts_noSlash hp) (by simp [Tidy])
  intro p hp
  exact h p (List.mem_reverse.1 hp)

theorem cleanPath_eq (path : String) : cleanPath path =
    if rooted path then "/" ++ String.intercalate "/" (cleaned path)
    else if String.intercalate "/" (cleaned path) = "" then "."
    else String.intercalate "/" (cleaned path) := rfl

theorem follow_cleaned (hroot : rooted path = true → here = []) :
    follow here (cleaned path) = follow here (parts path) :=
  follow_clean hroot (fun _ hp => parts_noSlash hp) (by simp [Tidy])

/-- The components of a cleaned path, glued and taken apart again. -/
theorem follow_intercalate (h : Tidy ps) :
    follow here (parts (String.intercalate "/" ps)) = follow here ps := by
  cases ps with
  | nil => rfl
  | cons p ps => rw [parts_intercalate (List.cons_ne_nil _ _) h.noSlash]

theorem intercalate_relative (h : Tidy ps) : rooted (String.intercalate "/" ps) = false := by
  cases hr : rooted (String.intercalate "/" ps) with
  | false => rfl
  | true =>
    cases ps with
    | nil => cases hr
    | cons p ps =>
      have hmem := parts_rooted hr
      rw [parts_intercalate (List.cons_ne_nil _ _) h.noSlash] at hmem
      exact absurd hmem h.nonempty

/-- A cleaned path leads to the same place. -/
theorem resolve_cleanPath (cwd : Place) (path : String) :
    resolve cwd (cleanPath path) = resolve cwd path := by
  have htidy := cleaned_tidy path
  rw [cleanPath_eq]
  cases hroot : rooted path with
  | true =>
    have hlead : rooted ("/" ++ String.intercalate "/" (cleaned path)) = true := by simp [rooted]
    have hparts : parts ("/" ++ String.intercalate "/" (cleaned path)) =
        parts "" ++ parts (String.intercalate "/" (cleaned path)) := parts_append "" _
    rw [if_pos rfl, resolve, hlead, if_pos rfl, walk, hparts, follow_append]
    rw [show follow (List.reverse []) (parts "") = [] from rfl, follow_intercalate htidy,
      follow_cleaned (fun _ => rfl), resolve, hroot]
    rfl
  | false =>
    have hfollow : follow cwd.reverse (cleaned path) = follow cwd.reverse (parts path) :=
      follow_cleaned fun h => by rw [hroot] at h; cases h
    rw [if_neg Bool.false_ne_true, resolve, resolve, hroot]
    split
    next hempty =>
      have hdot : follow cwd.reverse (parts ".") = cwd.reverse := rfl
      have hnone : follow cwd.reverse (cleaned path) = cwd.reverse := by
        rw [← follow_intercalate htidy, hempty]
        rfl
      rw [show rooted "." = false from rfl, walk, walk]
      simp only [Bool.false_eq_true, if_false]
      rw [hdot, ← hfollow, hnone]
    next =>
      rw [intercalate_relative htidy, walk, walk]
      simp only [Bool.false_eq_true, if_false]
      rw [follow_intercalate htidy, hfollow]

theorem cleanPath_ne_empty (path : String) : cleanPath path ≠ "" := by
  rw [cleanPath_eq]
  split
  · intro h
    have := congrArg String.toList h
    simp at this
  split
  · decide
  · assumption

/-! ## Joining -/

/-- `filepath.Join`: the first elements that are empty are left out. -/
def joinPaths (elems : List String) : String :=
  match elems.dropWhile (· == "") with
  | [] => ""
  | es => cleanPath (String.intercalate "/" es)

/-- `filepath.Dir`: everything up to the last separator, cleaned. -/
def dirPath (path : String) : String :=
  cleanPath (String.intercalate "/" ((parts path).dropLast ++ [""]))

theorem resolve_append {cwd : Place} (hdir : dir ≠ "") (name : String) :
    resolve cwd (dir ++ "/" ++ name) = walk (resolve cwd dir) name := by
  have hroot : rooted (dir ++ "/" ++ name) = rooted dir := by
    have hne : dir.toList ≠ [] := by simpa using hdir
    obtain ⟨c, cs, hcs⟩ := List.exists_cons_of_ne_nil hne
    simp [rooted, hcs]
  rw [resolve, hroot, walk, parts_append, follow_append, walk, resolve, walk, List.reverse_reverse]

theorem resolve_joinPath {cwd : Place} (hdir : dir ≠ "") (name : String) :
    resolve cwd (joinPath dir name) = walk (resolve cwd dir) name := by
  rw [joinPath, if_neg hdir]
  split
  next hname =>
    subst hname
    rw [resolve_cleanPath]
    simp [walk, show parts "" = [""] from rfl, follow, cleanStep]
  next => rw [resolve_cleanPath, resolve_append hdir]

theorem joinPath_ne_empty (hdir : dir ≠ "") (name : String) : joinPath dir name ≠ "" := by
  rw [joinPath, if_neg hdir]
  split
  · exact cleanPath_ne_empty _
  · exact cleanPath_ne_empty _

theorem resolve_joinPaths {cwd : Place} (hdir : dir ≠ "") (middle name : String) :
    resolve cwd (joinPaths [dir, middle, name]) = walk (walk (resolve cwd dir) middle) name := by
  have hjoin : joinPaths [dir, middle, name] = cleanPath (dir ++ "/" ++ middle ++ "/" ++ name) := by
    simp [joinPaths, hdir, String.intercalate_cons_cons, String.append_assoc]
  have hne : dir ++ "/" ++ middle ≠ "" := by
    intro h
    have := congrArg String.toList h
    simp at this
  rw [hjoin, resolve_cleanPath, resolve_append hne, resolve_append hdir]

/-! ## Below a directory -/

/-- The place is in a directory, at whatever depth. -/
def Below (dir q : Place) : Prop := dir <+: q ∧ dir ≠ q

/-- Paths that differ in the last component are followed to the same place before it. -/
theorem resolve_siblings {last : String} {init : List String} (cwd : Place)
    (h : parts path = init ++ [last]) :
    ∃ here, ∀ sibling name, parts sibling = init ++ [name] →
      resolve cwd sibling = (cleanStep true here name).reverse := by
  refine ⟨follow (if rooted path then [] else cwd).reverse init, fun sibling name hs => ?_⟩
  have hroot : rooted sibling = rooted path := by
    rw [Bool.eq_iff_iff, rooted_iff, rooted_iff, h, hs]
    cases init with
    | nil => simp
    | cons part init => cases init <;> simp
  rw [resolve, hroot, walk, hs, follow_append]
  rfl

/-- A step leads nowhere, back, or down. -/
theorem cleanStep_cases (here : List String) (part : String) :
    (cleanStep true here part).reverse = here.reverse ∨
      (∃ name, here.reverse = (cleanStep true here part).reverse ++ [name]) ∨
      ∃ name, (cleanStep true here part).reverse = here.reverse ++ [name] ∧
        (name = part ∨ name = "..") := by
  unfold cleanStep
  split
  · exact Or.inl rfl
  split
  · cases here with
    | nil => exact Or.inl rfl
    | cons last rest =>
      dsimp only
      split
      · exact Or.inr (Or.inr ⟨"..", List.reverse_cons, Or.inr rfl⟩)
      · exact Or.inr (Or.inl ⟨last, List.reverse_cons⟩)
  · exact Or.inr (Or.inr ⟨part, List.reverse_cons, Or.inl rfl⟩)

/-- The last component of a path, the directory that it is looked up in, and what is beside it under a
longer name. -/
theorem exists_last {text : String} (hlong : 2 < text.length) (ht : '/' ∉ text.toList) (cwd : Place)
    (path : String) : ∃ here last, resolve cwd path = (cleanStep true here last).reverse ∧
      resolve cwd (dirPath path) = here.reverse ∧
      resolve cwd (path ++ text) = here.reverse ++ [last ++ text] := by
  obtain ⟨init, last, hpath, hext⟩ := parts_extend ht path
  obtain ⟨here, hhere⟩ := resolve_siblings cwd hpath
  refine ⟨here, last, hhere path last hpath, ?_, ?_⟩
  · have hslash : ∀ part ∈ init ++ [""], '/' ∉ part.toList := by
      intro part hpart
      rcases List.mem_append.1 hpart with hpart | hpart
      · exact parts_noSlash (hpath ▸ List.mem_append_left _ hpart)
      · rw [List.mem_singleton.1 hpart]
        decide
    have hdir : parts (String.intercalate "/" (init ++ [""])) = init ++ [""] :=
      parts_intercalate (by simp) hslash
    rw [dirPath, hpath, List.dropLast_concat, resolve_cleanPath, hhere _ _ hdir]
    simp [cleanStep]
  · have hlast : '/' ∉ last.toList := parts_noSlash (p := path) (hpath ▸ by simp)
    rw [hhere _ _ hext, cleanStep_plain (plain_append hlast hlong ht), List.reverse_cons]

/-! ## Up and down -/

/-- What is left of the components of a path that is followed from some directory. -/
def climb (path : String) : List String := ((parts path).foldl (cleanStep false) []).reverse

/-- Up from a directory by some levels and down again the same way, and from there to `rest`. -/
def Leads (dir : Place) (ps : List String) (rest : Place) : Prop :=
  ".." ∉ rest ∧ ∃ k, ps = List.replicate k ".." ++ (dir.drop (dir.length - k) ++ rest)

/-- The steps up come first. -/
theorem exists_ups (path : String) :
    ∃ k names, climb path = List.replicate k ".." ++ names ∧ ".." ∉ names := by
  have hstep : ∀ ps kept : List String, (∃ k names, kept = names ++ List.replicate k ".." ∧ ".." ∉ names) →
      ∃ k names, ps.foldl (cleanStep false) kept = names ++ List.replicate k ".." ∧ ".." ∉ names := by
    intro ps
    induction ps with
    | nil => exact fun _ h => h
    | cons part ps ih =>
      rintro kept ⟨k, names, rfl, hnames⟩
      refine ih _ ?_
      unfold cleanStep
      split
      · exact ⟨k, names, rfl, hnames⟩
      split
      · cases names with
        | nil =>
          cases k with
          | zero => exact ⟨1, [], rfl, hnames⟩
          | succ k => exact ⟨k + 2, [], rfl, hnames⟩
        | cons name names =>
          rw [List.mem_cons, not_or] at hnames
          simp only [List.cons_append, if_neg (Ne.symm hnames.1)]
          exact ⟨k, names, rfl, hnames.2⟩
      next hdots => exact ⟨k, part :: names, rfl, by simpa [Ne.symm hdots] using hnames⟩
  obtain ⟨k, names, heq, hnames⟩ := hstep (parts path) [] ⟨0, [], rfl, List.not_mem_nil⟩
  exact ⟨k, names.reverse, by simp [climb, heq], by simpa using hnames⟩

theorem follow_ups (h : ".." ∉ here) (k : Nat) : follow here (List.replicate k "..") = here.drop k := by
  induction k generalizing here with
  | zero => rfl
  | succ k ih =>
    rw [List.replicate_succ, ← List.singleton_append, follow_append]
    cases here with
    | nil => exact (ih h).trans List.drop_nil
    | cons last rest =>
      rw [List.mem_cons, not_or] at h
      have hback : follow (last :: rest) [".."] = rest := by simp [follow, cleanStep, Ne.symm h.1]
      rw [hback, ih h.2, List.drop_succ_cons]

theorem follow_names (h : ∀ name ∈ ps, Plain name) : follow here ps = ps.reverse ++ here := by
  induction ps generalizing here with
  | nil => rfl
  | cons name ps ih =>
    rw [← List.singleton_append, follow_append, follow_plain (h name List.mem_cons_self),
      ih fun p hp => h p (List.mem_cons_of_mem _ hp)]
    simp

theorem walk_ups {dir : Place} {k : Nat} {names : List String} (hdir : ".." ∉ dir)
    (h : climb path = List.replicate k ".." ++ names) (hnames : ".." ∉ names) :
    walk dir path = dir.take (dir.length - k) ++ names := by
  have htidy : Tidy ((parts path).foldl (cleanStep false) []) :=
    clean_tidy (fun p hp => parts_noSlash hp) (by simp [Tidy])
  have hplain : ∀ name ∈ names, Plain name := by
    intro name hname
    have hmem : name ∈ climb path := h ▸ List.mem_append_right _ hname
    exact (htidy name (List.mem_reverse.1 hmem)).resolve_left fun heq => hnames (heq ▸ hname)
  have hfollow : follow dir.reverse (climb path) = follow dir.reverse (parts path) :=
    follow_clean (by simp) (fun p hp => parts_noSlash hp) (by simp [Tidy])
  rw [walk, ← hfollow, h, follow_append, follow_ups (by simpa using hdir), follow_names hplain]
  simp [List.reverse_drop]

theorem ups_inj {k k' : Nat} {names names' : List String} (hnames : ".." ∉ names) (hnames' : ".." ∉ names')
    (h : List.replicate k ".." ++ names = List.replicate k' ".." ++ names') : k = k' ∧ names = names' := by
  have hcount := congrArg (List.count "..") h
  simp only [List.count_append, List.count_replicate_self, List.count_eq_zero.2 hnames,
    List.count_eq_zero.2 hnames', Nat.add_zero] at hcount
  subst hcount
  exact ⟨rfl, List.append_cancel_left h⟩

theorem climbs_iff {dir rest : Place} {k : Nat} {names : List String} (hdir : ".." ∉ dir)
    (hps : ps = List.replicate k ".." ++ names) (hnames : ".." ∉ names) :
    Leads dir ps rest ↔ dir.take (dir.length - k) ++ names = dir ++ rest := by
  have hsplit : dir ++ rest = dir.take (dir.length - k) ++ (dir.drop (dir.length - k) ++ rest) := by
    rw [← List.append_assoc, List.take_append_drop]
  rw [hsplit, List.append_cancel_left_eq]
  constructor
  · rintro ⟨hrest, k', heq⟩
    have hdown : ".." ∉ dir.drop (dir.length - k') ++ rest := by
      rw [List.mem_append, not_or]
      exact ⟨fun h => hdir (List.mem_of_mem_drop h), hrest⟩
    obtain ⟨rfl, rfl⟩ := ups_inj hnames hdown (hps.symm.trans heq)
    rfl
  · rintro rfl
    exact ⟨fun h => hnames (List.mem_append_right _ h), k, hps⟩

end Medea.Files
