import Mathlib.Data.List.Induction
import Mathlib.Data.List.Infix
import Mathlib.Data.List.TakeWhile
import Medea.Files.Path
import Medea.Interaction.Rely

/-!
# A tree of files

A file system without links: directories, and files with a content. `Tree` carries that everything lies
in a directory. `FileOp` are the calls of a program on it, by their paths, and `Tree.handles` says how
they may be answered. A call that fails may have done a part of its work: some of the directories are
made, the file is truncated or written in part, some of the entries are removed. No name has a zero byte:
a call on a path with such a name fails, and only `MkdirAll` has made the directories above it by then.

What a read returns depends on the entry itself and on the files above it (`Tree.readFile_congr`).
-/

set_option autoImplicit false

namespace Medea.Files

open Medea.Interaction

inductive Node (β : Type) where
  | dir
  | file (content : β)
  deriving DecidableEq

/-- Everything lies in a directory. -/
structure Tree (β : Type) where
  node : Place → Option (Node β)
  root : node [] = some .dir
  parent : ∀ {p a}, node (p ++ [a]) ≠ none → node p = some .dir

inductive Errno where
  | notExist
  | notDir
  | isDir
  | invalid
  deriving DecidableEq

def Errno.text : Errno → String
  | .notExist => "no such file or directory"
  | .notDir => "not a directory"
  | .isDir => "is a directory"
  | .invalid => "invalid argument"

theorem Errno.text_inj {e e' : Errno} (h : e.text = e'.text) : e = e' := by
  revert h
  cases e <;> cases e' <;> decide

/-- A name that a file can have. -/
def legalName (a : String) : Bool := !a.toList.contains '\x00'

def Legal (p : Place) : Prop := ∀ a ∈ p, legalName a = true

instance (p : Place) : Decidable (Legal p) := inferInstanceAs (Decidable (∀ _ ∈ _, _))

/-- The directories on the way to a place that can be made. -/
def legalPart (p : Place) : Place := p.takeWhile legalName

theorem legalPart_of_legal {p : Place} (h : Legal p) : legalPart p = p :=
  List.takeWhile_eq_self_iff.2 h

theorem legalPart_isPrefix (p : Place) : legalPart p <+: p := List.takeWhile_prefix _

theorem legal_legalPart (p : Place) : Legal (legalPart p) := fun _ ha => List.mem_takeWhile_imp ha

theorem Legal.of_isPrefix {p q : Place} (h : Legal q) (hp : p <+: q) : Legal p :=
  fun a ha => h a (hp.subset ha)

theorem legalPart_append {p : Place} (h : Legal p) (q : Place) :
    legalPart (p ++ q) = p ++ legalPart q :=
  List.takeWhile_append_of_pos h

theorem legalPart_append_of_not {p : Place} (h : ¬Legal p) (q : Place) :
    legalPart (p ++ q) = legalPart p := by
  rw [legalPart, List.takeWhile_append, if_neg]
  · rfl
  · intro hlen
    exact h (List.takeWhile_eq_self_iff.1 ((List.takeWhile_prefix _).eq_of_length hlen))

theorem legal_append {p q : Place} : Legal (p ++ q) ↔ Legal p ∧ Legal q := by
  simp [Legal, or_imp, forall_and]

theorem legal_concat {p : Place} {a : String} :
    Legal (p ++ [a]) ↔ Legal p ∧ legalName a = true := by
  simp [Legal, or_imp, forall_and]

namespace Tree

variable {β : Type} {t t' : Tree β} {p q : Place}

def isFile (t : Tree β) (p : Place) : Bool :=
  match t.node p with
  | some (.file _) => true
  | _ => false

/-- What reading the file says. -/
def readFile (t : Tree β) (p : Place) : Except Errno β :=
  match t.node p with
  | some (.file b) => .ok b
  | some .dir => .error .isDir
  | none => if p.inits.any t.isFile then .error .notDir else .error .notExist

/-- What `os.ReadFile` says of the place. -/
def read (t : Tree β) (p : Place) : Except Errno β :=
  if Legal p then t.readFile p else .error .invalid

/-- Whatever lies above an entry is a directory. -/
theorem dir_of_isPrefix (h : t.node q ≠ none) (hp : p <+: q) (hne : p ≠ q) : t.node p = some .dir := by
  obtain ⟨r, rfl⟩ := hp
  induction r using List.reverseRecOn with
  | nil => simp at hne
  | append_singleton r a ih =>
    rw [← List.append_assoc] at h
    have hr := t.parent h
    cases r with
    | nil => simpa using hr
    | cons b r =>
      apply ih
      · rw [hr]
        simp
      · simp

theorem readFile_congr (hp : t'.node p = t.node p) (habove : ∀ q, q <+: p → t'.isFile q = t.isFile q) :
    t'.readFile p = t.readFile p := by
  have hany : p.inits.any t'.isFile = p.inits.any t.isFile := by
    rw [Bool.eq_iff_iff, List.any_eq_true, List.any_eq_true]
    constructor
    · rintro ⟨q, hq, hfile⟩
      exact ⟨q, hq, by rw [← habove q ((List.mem_inits _ _).1 hq), hfile]⟩
    · rintro ⟨q, hq, hfile⟩
      exact ⟨q, hq, by rw [habove q ((List.mem_inits _ _).1 hq), hfile]⟩
  rw [readFile, readFile, hp, hany]

/-! ## What calls do -/

/-- Some of the directories down to `p` are made. -/
def Grows (t : Tree β) (p : Place) (t' : Tree β) : Prop :=
  ∀ q, t'.node q = t.node q ∨ (q <+: p ∧ t.node q = none ∧ t'.node q = some .dir)

/-- A file is written at `p`, perhaps in part. -/
structure Rewrites (t : Tree β) (p : Place) (t' : Tree β) : Prop where
  rest : ∀ q, q ≠ p → t'.node q = t.node q
  here : t'.node p = t.node p ∨ (t.node p ≠ some .dir ∧ ∃ b, t'.node p = some (.file b))

/-- Some of what lies at `p` and below is removed. -/
def Shrinks (t : Tree β) (p : Place) (t' : Tree β) : Prop :=
  ∀ q, t'.node q = t.node q ∨ (p <+: q ∧ t'.node q = none)

end Tree

/-- The calls on the file system. -/
inductive FileOp (β : Type) where
  | mkdirAll (path : String)
  | writeFile (path : String) (data : β)
  | removeAll (path : String)
  | readFile (path : String)

@[reducible] def FileOp.Value {β : Type} : FileOp β → Type
  | .readFile _ => β
  | _ => Unit

def endsWithDot (path : String) : Bool := path == "." || path.toList.reverse.take 2 == ['.', '/']

/-- Errors are texts. -/
def fileSig (β : Type) : Signature where
  Op := FileOp β
  Reply op := Except String op.Value

namespace Tree

variable {β : Type} {t t' : Tree β} {p q : Place}

/-- How a call on a path without superfluous parts may be answered, for a process with the given working
directory. `RemoveAll` refuses a path that ends in a dot. -/
def handles (cwd : Place) (t : Tree β) : Event (fileSig β) → Tree β → Prop
  | ⟨.mkdirAll path, rep⟩, t' => t.Grows (legalPart (resolve cwd path)) t' ∧
      (rep = .ok () → Legal (resolve cwd path) ∧ ∀ q, q <+: resolve cwd path → t'.node q = some .dir)
  | ⟨.writeFile path data, rep⟩, t' =>
    if Legal (resolve cwd path) then t.Rewrites (resolve cwd path) t' ∧
      (rep = .ok () → t'.node (resolve cwd path) = some (.file data))
    else t' = t ∧ rep ≠ .ok ()
  | ⟨.removeAll path, rep⟩, t' =>
    if Legal (resolve cwd path) ∧ endsWithDot path = false then t.Shrinks (resolve cwd path) t' ∧
      (rep = .ok () → ∀ q, resolve cwd path <+: q → t'.node q = none)
    else t' = t ∧ (rep = .ok () → endsWithDot path = false ∧ ∀ b, t.node (resolve cwd path) ≠ some b)
  | ⟨.readFile path, rep⟩, t' => t' = t ∧ ∀ b, rep = .ok b → t.read (resolve cwd path) = .ok b

/-! ## Calls that succeed -/

section Success

variable (t p)

/-- There are directories down to `p`. -/
def made : Tree β where
  node q := if q <+: p then some .dir else t.node q
  root := by simp
  parent {q a} hq := by
    by_cases hqp : q <+: p
    · rw [if_pos hqp]
    · have hqa : ¬q ++ [a] <+: p := fun h => hqp ((List.prefix_append ..).trans h)
      rw [if_neg hqa] at hq
      rw [if_neg hqp]
      exact t.parent hq

/-- The content of the file `a` in `p`. -/
def written (a : String) (data : β) (hp : t.node p = some .dir)
    (ha : t.node (p ++ [a]) ≠ some .dir) : Tree β where
  node q := if q = p ++ [a] then some (.file data) else t.node q
  root := by
    rw [if_neg (by simp)]
    exact t.root
  parent {q b} hq := by
    have hqb : q ≠ p ++ [a] := by
      rintro rfl
      rw [if_neg (by simp)] at hq
      exact ha (t.parent hq)
    rw [if_neg hqb]
    by_cases hb : q ++ [b] = p ++ [a]
    · obtain ⟨rfl, -⟩ := List.append_inj' hb rfl
      exact hp
    · rw [if_neg hb] at hq
      exact t.parent hq

/-- Nothing is left at `p` and below; the root cannot be removed. -/
def removed : Tree β where
  node q := if p <+: q ∧ q ≠ [] then none else t.node q
  root := by
    rw [if_neg (by simp)]
    exact t.root
  parent {q a} hq := by
    have hqa : ¬(p <+: q ++ [a] ∧ q ++ [a] ≠ []) := by
      intro h
      rw [if_pos h] at hq
      exact hq rfl
    have hpq : ¬(p <+: q ∧ q ≠ []) := by
      rintro ⟨h, -⟩
      exact hqa ⟨h.trans (List.prefix_append ..), by simp⟩
    rw [if_neg hqa] at hq
    rw [if_neg hpq]
    exact t.parent hq

variable {t p} {cwd : Place}

theorem node_made : (t.made p).node q = if q <+: p then some .dir else t.node q := rfl

theorem node_written {a : String} {data : β} {hp : t.node p = some .dir}
    {ha : t.node (p ++ [a]) ≠ some .dir} :
    (t.written p a data hp ha).node q = if q = p ++ [a] then some (.file data) else t.node q := rfl

theorem node_removed : (t.removed p).node q = if p <+: q ∧ q ≠ [] then none else t.node q := rfl

theorem made_grows (h : ∀ q, q <+: p → t.isFile q = false) : t.Grows p (t.made p) := by
  intro q
  by_cases hq : q <+: p
  · have hnode : (t.made p).node q = some .dir := if_pos hq
    cases hn : t.node q with
    | none => exact Or.inr ⟨hq, rfl, hnode⟩
    | some n =>
      cases n with
      | dir => exact Or.inl hnode
      | file b =>
        have hfile := h q hq
        rw [isFile, hn] at hfile
        cases hfile
  · exact Or.inl (if_neg hq)

theorem written_rewrites {a : String} {data : β} (hp : t.node p = some .dir)
    (ha : t.node (p ++ [a]) ≠ some .dir) : t.Rewrites (p ++ [a]) (t.written p a data hp ha) where
  rest _ hq := if_neg hq
  here := Or.inr ⟨ha, data, if_pos rfl⟩

theorem removed_shrinks : t.Shrinks p (t.removed p) := by
  intro q
  by_cases hq : p <+: q ∧ q ≠ []
  · exact Or.inr ⟨hq.1, if_pos hq⟩
  · exact Or.inl (if_neg hq)

/-- The directories are made that can be made. -/
theorem handles_made (cwd : Place) (path : String) (h : ∀ q, t.isFile q = false) :
    ∃ rep, t.handles cwd ⟨.mkdirAll path, rep⟩ (t.made (legalPart (resolve cwd path))) := by
  by_cases hlegal : Legal (resolve cwd path)
  · refine ⟨.ok (), made_grows fun q _ => h q, fun _ => ⟨hlegal, fun q hq => if_pos ?_⟩⟩
    rwa [legalPart_of_legal hlegal]
  · exact ⟨.error (Errno.text .invalid), made_grows fun q _ => h q, nofun⟩

/-- The directories are there already. -/
theorem handles_there {path : String} (hlegal : Legal (resolve cwd path))
    (hdir : t.node (resolve cwd path) = some .dir) : t.handles cwd ⟨.mkdirAll path, .ok ()⟩ t := by
  refine ⟨fun q => Or.inl rfl, fun _ => ⟨hlegal, fun q hq => ?_⟩⟩
  by_cases hne : q = resolve cwd path
  · rw [hne, hdir]
  · exact dir_of_isPrefix (by rw [hdir]; simp) hq hne

theorem handles_written {path a : String} {data : β} (hpath : resolve cwd path = p ++ [a])
    (hlegal : Legal (p ++ [a])) (hp : t.node p = some .dir) (ha : t.node (p ++ [a]) ≠ some .dir) :
    t.handles cwd ⟨.writeFile path data, .ok ()⟩ (t.written p a data hp ha) := by
  refine (if_pos (by rwa [hpath])).mpr ⟨?_, fun _ => ?_⟩
  · rw [hpath]
    exact written_rewrites hp ha
  · rw [hpath]
    exact if_pos rfl

theorem handles_removed (t : Tree β) {path : String} (hlegal : Legal (resolve cwd path))
    (hdot : endsWithDot path = false) :
    ∃ rep, t.handles cwd ⟨.removeAll path, rep⟩ (t.removed (resolve cwd path)) := by
  by_cases hroot : resolve cwd path = []
  · exact ⟨.error "device or resource busy", (if_pos ⟨hlegal, hdot⟩).mpr ⟨removed_shrinks, nofun⟩⟩
  · refine ⟨.ok (), (if_pos ⟨hlegal, hdot⟩).mpr ⟨removed_shrinks, fun _ q hq => if_pos ⟨hq, ?_⟩⟩⟩
    rintro rfl
    exact hroot (List.prefix_nil.1 hq)

end Success

/-- A file on the way shows in what a read says. -/
theorem readFile_ne_notExist (h : t.isFile q = true) (hq : q <+: p) :
    t.readFile p ≠ .error .notExist := by
  have hany : p.inits.any t.isFile = true := List.any_eq_true.2 ⟨q, (List.mem_inits _ _).2 hq, h⟩
  rw [readFile, hany]
  cases t.node p with
  | none => simp
  | some n => cases n <;> simp

/-- A read tells an entry from none. -/
theorem readFile_ne (h : t.node p ≠ none) (h' : t'.node p = none) : t.readFile p ≠ t'.readFile p := by
  rw [readFile, readFile, h']
  cases hn : t.node p with
  | none => exact absurd hn h
  | some n =>
    cases n with
    | dir | file =>
      dsimp only
      split <;> simp

end Tree

end Medea.Files
