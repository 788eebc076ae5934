import Mathlib.Logic.Function.Basic
import Medea.Files.Tree

/-!
# A disk with open files

A name leads to a file, and a program that has opened the file goes on writing to it whatever becomes of
the name. So files have numbers: `Disk.tree` says which file is where and `Disk.data` what is in it, and
`Disk` carries that no file has two names and that the numbers in use are below the next one.

`DiskOp` are the calls of a program. An open file keeps its position with the program, which passes it
to every write; a write behind the end of the file fills the gap. `Disk.handles` says how the calls may
be answered. A call that fails may have done a part of its work.

`Disk.same_of_spares` is the frame rule: what is at a place stays, number and content, under every call
that spares the place.
-/

set_option autoImplicit false

namespace Medea.Files

open Medea.Interaction

/-- Which file is where, and what is in it. -/
structure Disk (β : Type) where
  tree : Tree Nat
  data : Nat → List β
  /-- The number of the next new file. -/
  next : Nat
  single : ∀ {p q n}, tree.node p = some (.file n) → tree.node q = some (.file n) → p = q
  old : ∀ {p n}, tree.node p = some (.file n) → n < next

/-- The calls on a disk. -/
inductive DiskOp (β : Type) where
  | stat (path : String)
  | mkdirAll (path : String)
  | writeFile (path : String) (data : List β)
  | create (path : String)
  | write (file offset : Nat) (chunk : List β)
  | close (file : Nat)
  | remove (path : String)
  | rename (old new : String)

/-- The size of a file, the number of an opened one. -/
@[reducible] def DiskOp.Value {β : Type} : DiskOp β → Type
  | .stat _ | .create _ => Nat
  | _ => Unit

structure FileError where
  missing : Bool
  text : String
  deriving DecidableEq

def diskSig (β : Type) : Signature where
  Op := DiskOp β
  Reply op := Except FileError op.Value

/-- A file after a write at a position. -/
def splice {β : Type} [Inhabited β] (old : List β) (offset : Nat) (chunk : List β) : List β :=
  old.take offset ++ List.replicate (offset - old.length) default ++ chunk ++
    old.drop (offset + chunk.length)

theorem splice_end {β : Type} [Inhabited β] (old chunk : List β) :
    splice old old.length chunk = old ++ chunk := by
  simp [splice]

namespace Disk

variable {β : Type} {d d' d'' : Disk β} {p q : Place} {n : Nat}

/-- The number of the file at a place. -/
def number (d : Disk β) (p : Place) : Option Nat :=
  match d.tree.node p with
  | some (.file n) => some n
  | _ => none

/-- The content of the file at a place. -/
def content (d : Disk β) (p : Place) : Option (List β) := (d.number p).map d.data

@[simp] theorem number_eq_some : d.number p = some n ↔ d.tree.node p = some (.file n) := by
  rw [number]
  cases hn : d.tree.node p with
  | none => simp
  | some node => cases node <;> simp

theorem number_congr (h : d'.tree.node q = d.tree.node q) : d'.number q = d.number q := by
  rw [number, number, h]

theorem number_inj (hp : d.number p = some n) (hq : d.number q = some n) : p = q :=
  d.single (number_eq_some.1 hp) (number_eq_some.1 hq)

theorem number_lt (hp : d.number p = some n) : n < d.next := d.old (number_eq_some.1 hp)

/-- Nothing lies below a file. -/
theorem none_below (hp : d.number p = some n) (hq : p <+: q) (hne : p ≠ q) : d.tree.node q = none := by
  by_contra hnode
  have hdir := d.tree.dir_of_isPrefix hnode hq hne
  rw [number_eq_some.1 hp] at hdir
  cases hdir

/-! ## What calls do -/

/-- The same file is at a place, with the same content. -/
structure Same (d d' : Disk β) (q : Place) : Prop where
  number : d'.number q = d.number q
  data : ∀ n, d.number q = some n → d'.data n = d.data n

theorem Same.refl (d : Disk β) (q : Place) : d.Same d q := ⟨rfl, fun _ _ => rfl⟩

theorem Same.trans (h : d.Same d' q) (h' : d'.Same d'' q) : d.Same d'' q where
  number := h'.number.trans h.number
  data n hn := (h'.data n (by rw [h.number, hn])).trans (h.data n hn)

theorem Same.content (h : d.Same d' q) : d'.content q = d.content q := by
  rw [Disk.content, Disk.content, h.number]
  cases hn : d.number q with
  | none => rfl
  | some n => exact congrArg some (h.data n hn)

/-- The file at `p` was there or is a new one; only its content changes. -/
structure Put (d : Disk β) (p : Place) (n : Nat) (d' : Disk β) : Prop where
  here : d'.tree.node p = some (.file n)
  rest : ∀ q, q ≠ p → d'.tree.node q = d.tree.node q
  origin : d.tree.node p = some (.file n) ∨ (d.tree.node p = none ∧ d.next ≤ n)
  data : ∀ m, m ≠ n → d'.data m = d.data m
  next : d.next ≤ d'.next

/-- Only the content of a file changes. -/
structure Altered (d : Disk β) (n : Nat) (d' : Disk β) : Prop where
  tree : d'.tree = d.tree
  data : ∀ m, m ≠ n → d'.data m = d.data m
  next : d'.next = d.next

/-- A file, or a directory with nothing in it, is gone. -/
structure Unlinked (d : Disk β) (p : Place) (d' : Disk β) : Prop where
  empty : ∀ q, p <+: q → q ≠ p → d.tree.node q = none
  here : d'.tree.node p = none
  rest : ∀ q, q ≠ p → d'.tree.node q = d.tree.node q
  data : d'.data = d.data
  next : d'.next = d.next

/-- What was at `p` and below is at `q` and below. A file takes the place of a file, a directory that of
a directory with nothing in it. -/
structure Moved (d : Disk β) (p q : Place) (d' : Disk β) : Prop where
  apart : ¬p <+: q
  empty : ∀ r, r ≠ [] → d.tree.node (q ++ r) = none
  file : ∀ n, d.tree.node p = some (.file n) → d.tree.node q ≠ some .dir
  there : ∀ r, d'.tree.node (q ++ r) = d.tree.node (p ++ r)
  gone : ∀ r, p <+: r → ¬q <+: r → d'.tree.node r = none
  rest : ∀ r, ¬p <+: r → ¬q <+: r → d'.tree.node r = d.tree.node r
  data : d'.data = d.data
  next : d'.next = d.next

/-- How a call may be answered, for a process with the given working directory. -/
def handles [Inhabited β] (cwd : Place) (d : Disk β) : Event (diskSig β) → Disk β → Prop
  | ⟨.stat path, rep⟩, d' => d' = d ∧
      ∀ size, rep = .ok size → ∀ b, d.content (resolve cwd path) = some b → size = b.length
  | ⟨.mkdirAll path, rep⟩, d' =>
    d.tree.Grows (resolve cwd path) d'.tree ∧ d'.data = d.data ∧ d'.next = d.next ∧
      (rep = .ok () → ∀ q, q <+: resolve cwd path → d'.tree.node q = some .dir)
  | ⟨.writeFile path data, rep⟩, d' => (d' = d ∨ ∃ n, d.Put (resolve cwd path) n d') ∧
      (rep = .ok () → d'.content (resolve cwd path) = some data)
  | ⟨.create path, rep⟩, d' => (d' = d ∨ ∃ n, d.Put (resolve cwd path) n d') ∧
      ∀ n, rep = .ok n → d'.number (resolve cwd path) = some n ∧ d'.data n = []
  | ⟨.write n offset chunk, rep⟩, d' => d.Altered n d' ∧
      (rep = .ok () → d'.data n = splice (d.data n) offset chunk)
  | ⟨.close _, _⟩, d' => d' = d
  | ⟨.remove path, rep⟩, d' => (d' = d ∨ d.Unlinked (resolve cwd path) d') ∧
      (rep = .ok () → d'.tree.node (resolve cwd path) = none)
  | ⟨.rename old new, rep⟩, d' => (d' = d ∨ d.Moved (resolve cwd old) (resolve cwd new) d') ∧
      (rep = .ok () → resolve cwd old = resolve cwd new ∨
        d.Moved (resolve cwd old) (resolve cwd new) d')

/-! ## The frame rule -/

theorem Put.same (h : d.Put p n d') (hq : q ≠ p) : d.Same d' q where
  number := number_congr (h.rest q hq)
  data m hm := by
    apply h.data
    rintro rfl
    rcases h.origin with hp | ⟨-, hnew⟩
    · exact hq (d.single (number_eq_some.1 hm) hp)
    · exact absurd (number_lt hm) (Nat.not_lt.2 hnew)

theorem Altered.same (h : d.Altered n d') (hq : d.number q ≠ some n) : d.Same d' q where
  number := number_congr (by rw [h.tree])
  data m hm := by
    apply h.data
    rintro rfl
    exact hq hm

theorem Unlinked.same (h : d.Unlinked p d') (hq : q ≠ p) : d.Same d' q where
  number := number_congr (h.rest q hq)
  data _ _ := congrFun h.data _

theorem Moved.same_apart {r : Place} (h : d.Moved p q d') (hp : ¬p <+: r) (hq : ¬q <+: r) :
    d.Same d' r where
  number := number_congr (h.rest r hp hq)
  data _ _ := congrFun h.data _

/-- Nothing lies below a file, neither before it is moved nor after. -/
theorem Moved.same_file {r : Place} (h : d.Moved p q d') (hn : d.number p = some n) (hp : p ≠ r)
    (hq : q ≠ r) : d.Same d' r where
  number := by
    have hnode : d'.tree.node r = d.tree.node r := by
      by_cases hqr : q <+: r
      · obtain ⟨s, rfl⟩ := hqr
        have hs : s ≠ [] := by
          rintro rfl
          exact hq (List.append_nil q).symm
        rw [h.there, h.empty s hs]
        exact none_below hn (List.prefix_append ..) (by simpa using hs)
      by_cases hpr : p <+: r
      · rw [h.gone r hpr hqr, none_below hn hpr hp]
      · exact h.rest r hpr hqr
    exact number_congr hnode
  data _ _ := congrFun h.data _

/-- Where a file is moved to. -/
theorem Moved.number_target (h : d.Moved p q d') (hn : d.number p = some n) :
    d'.number q = some n := by
  have hthere := h.there []
  rw [List.append_nil, List.append_nil] at hthere
  rw [number_eq_some, hthere]
  exact number_eq_some.1 hn

theorem grown_same (h : d.tree.Grows p d'.tree) (hdata : d'.data = d.data) (q : Place) :
    d.Same d' q where
  number := by
    rcases h q with hq | ⟨-, hq, hq'⟩
    · exact number_congr hq
    · rw [number, number, hq, hq']
  data _ _ := congrFun hdata _

end Disk

/-- The call neither writes to the file at a place nor changes what is there. -/
def DiskOp.Spares {β : Type} (cwd : Place) (d : Disk β) (q : Place) : DiskOp β → Prop
  | .stat _ | .mkdirAll _ | .close _ => True
  | .writeFile path _ | .create path | .remove path => resolve cwd path ≠ q
  | .write n _ _ => d.number q ≠ some n
  | .rename old new =>
    (¬resolve cwd old <+: q ∧ ¬resolve cwd new <+: q) ∨
      (d.number (resolve cwd old) ≠ none ∧ resolve cwd old ≠ q ∧ resolve cwd new ≠ q)

namespace Disk

variable {β : Type} [Inhabited β] {d d' : Disk β} {q : Place} {cwd : Place}

theorem same_of_spares {e : Event (diskSig β)} (h : d.handles cwd e d')
    (hs : DiskOp.Spares cwd d q e.op) : d.Same d' q := by
  obtain ⟨op, rep⟩ := e
  cases op with
  | stat path =>
    obtain ⟨rfl, -⟩ := h
    exact .refl _ q
  | mkdirAll path =>
    obtain ⟨hgrows, hdata, -, -⟩ := h
    exact grown_same hgrows hdata q
  | writeFile | create =>
    obtain ⟨rfl | ⟨n, hput⟩, -⟩ := h
    · exact .refl _ q
    · exact hput.same (Ne.symm hs)
  | write n offset chunk =>
    obtain ⟨halt, -⟩ := h
    exact halt.same hs
  | close n =>
    cases h
    exact .refl _ q
  | remove path =>
    obtain ⟨rfl | hgone, -⟩ := h
    · exact .refl _ q
    · exact hgone.same (Ne.symm hs)
  | rename old new =>
    obtain ⟨rfl | hmoved, -⟩ := h
    · exact .refl _ q
    rcases hs with ⟨hold, hnew⟩ | ⟨hfile, hold, hnew⟩
    · exact hmoved.same_apart hold hnew
    · obtain ⟨n, hn⟩ := Option.ne_none_iff_exists'.1 hfile
      exact hmoved.same_file hn hold hnew

end Disk

/-! ## A disk that does what it is asked -/

namespace Disk

section Success

variable {β : Type} (d : Disk β) (p : Place)

/-- The file that is written at a place: the one that is there, or a new one. -/
def target : Nat := (d.number p).getD d.next

/-- A name for a file that has no other one. -/
def linked (a : String) (n : Nat) (hp : d.tree.node p = some .dir)
    (ha : d.tree.node (p ++ [a]) ≠ some .dir)
    (hn : ∀ q, d.tree.node q = some (.file n) → q = p ++ [a]) : Disk β where
  tree := d.tree.written p a n hp ha
  data := d.data
  next := max d.next (n + 1)
  single {q r m} hq hr := by
    rw [Tree.node_written] at hq hr
    by_cases hqa : q = p ++ [a]
    · rw [if_pos hqa] at hq
      cases hq
      by_cases hra : r = p ++ [a]
      · rw [hqa, hra]
      · rw [if_neg hra] at hr
        exact absurd (hn r hr) hra
    · rw [if_neg hqa] at hq
      by_cases hra : r = p ++ [a]
      · rw [if_pos hra] at hr
        cases hr
        exact absurd (hn q hq) hqa
      · rw [if_neg hra] at hr
        exact d.single hq hr
  old {q m} hq := by
    rw [Tree.node_written] at hq
    by_cases hqa : q = p ++ [a]
    · rw [if_pos hqa] at hq
      cases hq
      omega
    · rw [if_neg hqa] at hq
      have := d.old hq
      omega

/-- There are directories down to `p`. -/
def grown : Disk β where
  tree := d.tree.made p
  data := d.data
  next := d.next
  single {q r n} hq hr := by
    rw [Tree.node_made] at hq hr
    split at hq
    · cases hq
    · split at hr
      · cases hr
      · exact d.single hq hr
  old {q n} hq := by
    rw [Tree.node_made] at hq
    split at hq
    · cases hq
    · exact d.old hq

/-- What is at `p` is gone. -/
def unlinked : Disk β where
  tree := d.tree.removed p
  data := d.data
  next := d.next
  single {q r n} hq hr := by
    rw [Tree.node_removed] at hq hr
    split at hq
    · cases hq
    · split at hr
      · cases hr
      · exact d.single hq hr
  old {q n} hq := by
    rw [Tree.node_removed] at hq
    split at hq
    · cases hq
    · exact d.old hq

variable {d p} {q : Place} {a : String} {n : Nat}

theorem target_single (hq : d.tree.node q = some (.file (d.target p))) : q = p := by
  rw [target] at hq
  cases hn : d.number p with
  | none =>
    rw [hn, Option.getD_none] at hq
    exact absurd (d.old hq) (Nat.lt_irrefl _)
  | some m =>
    rw [hn, Option.getD_some] at hq
    exact d.single hq (number_eq_some.1 hn)

theorem place_ne_nil (hn : d.number p = some n) : p ≠ [] := by
  rintro rfl
  rw [number_eq_some, d.tree.root] at hn
  cases hn

/-- A file that is gone has no name. -/
theorem unlinked_ne_file (hn : d.number p = some n) : (d.unlinked p).tree.node q ≠ some (.file n) := by
  intro hq
  have hnode : (d.tree.removed p).node q = some (.file n) := hq
  rw [Tree.node_removed] at hnode
  split at hnode
  · cases hnode
  next hpq =>
    obtain rfl := d.single hnode (number_eq_some.1 hn)
    exact hpq ⟨List.prefix_refl q, place_ne_nil hn⟩

/-- A file with the given content. -/
def opened (d : Disk β) (p : Place) (a : String) (data : List β) (hp : d.tree.node p = some .dir)
    (ha : d.tree.node (p ++ [a]) ≠ some .dir) : Disk β :=
  { d.linked p a (d.target (p ++ [a])) hp ha (fun _ hq => target_single hq) with
    data := Function.update d.data (d.target (p ++ [a])) data }

/-- A file under another name. -/
def moved (d : Disk β) (p q : Place) (a : String) (n : Nat) (hn : d.number p = some n)
    (hq : (d.unlinked p).tree.node q = some .dir)
    (ha : (d.unlinked p).tree.node (q ++ [a]) ≠ some .dir) : Disk β :=
  (d.unlinked p).linked q a n hq ha fun _ hr => absurd hr (unlinked_ne_file hn)

theorem opened_put {data : List β} (hp : d.tree.node p = some .dir)
    (ha : d.tree.node (p ++ [a]) ≠ some .dir) :
    d.Put (p ++ [a]) (d.target (p ++ [a])) (d.opened p a data hp ha) where
  here := if_pos rfl
  rest _ hq := if_neg hq
  origin := by
    rw [target]
    cases hn : d.number (p ++ [a]) with
    | some m => exact Or.inl (number_eq_some.1 hn)
    | none =>
      refine Or.inr ⟨?_, Nat.le_refl _⟩
      rw [number] at hn
      cases hnode : d.tree.node (p ++ [a]) with
      | none => rfl
      | some node =>
        rw [hnode] at hn ha
        cases node with
        | dir => exact absurd rfl ha
        | file m => cases hn
  data _ hm := Function.update_of_ne hm ..
  next := Nat.le_max_left ..

theorem unlinked_file (hn : d.number p = some n) : d.Unlinked p (d.unlinked p) where
  empty q hq hne := none_below hn hq (Ne.symm hne)
  here := if_pos ⟨List.prefix_refl p, place_ne_nil hn⟩
  rest q hq := by
    by_cases hpq : p <+: q ∧ q ≠ []
    · rw [none_below hn hpq.1 (Ne.symm hq)]
      exact if_pos hpq
    · exact if_neg hpq
  data := rfl
  next := rfl

theorem moved_file (hn : d.number p = some n) (hq : (d.unlinked p).tree.node q = some .dir)
    (ha : (d.unlinked p).tree.node (q ++ [a]) ≠ some .dir) (hp : ¬p <+: q ++ [a]) :
    d.Moved p (q ++ [a]) (d.moved p q a n hn hq ha) := by
  have hgone := unlinked_file hn
  have hrest : ∀ r, r ≠ q ++ [a] → (d.moved p q a n hn hq ha).tree.node r =
      (d.unlinked p).tree.node r := fun r hr => if_neg hr
  have hhere : (d.moved p q a n hn hq ha).number (q ++ [a]) = some n := number_eq_some.2 (if_pos rfl)
  have hsame : (d.unlinked p).tree.node (q ++ [a]) = d.tree.node (q ++ [a]) := by
    apply hgone.rest
    intro h
    exact hp (h ▸ List.prefix_refl _)
  refine ⟨hp, ?_, ?_, ?_, ?_, ?_, rfl, ?_⟩
  · intro r hr
    by_contra hnode
    have hdir := d.tree.dir_of_isPrefix hnode (List.prefix_append ..) (by simpa using hr)
    rw [hsame] at ha
    exact ha hdir
  · intro m _
    rw [← hsame]
    exact ha
  · intro r
    by_cases hr : r = []
    · rw [hr, List.append_nil, List.append_nil, number_eq_some.1 hn]
      exact number_eq_some.1 hhere
    · rw [none_below hn (List.prefix_append ..) (by simpa using hr)]
      exact none_below hhere (List.prefix_append ..) (by simpa using hr)
  · intro r hpr hqr
    rw [hrest r (fun h => hqr (h ▸ List.prefix_refl _))]
    by_cases hr : r = p
    · rw [hr]
      exact hgone.here
    · rw [hgone.rest r hr, none_below hn hpr (Ne.symm hr)]
  · intro r hpr hqr
    rw [hrest r (fun h => hqr (h ▸ List.prefix_refl _)),
      hgone.rest r (fun h => hpr (h ▸ List.prefix_refl _))]
  · exact Nat.max_eq_left (show n + 1 ≤ d.next from number_lt hn)

end Success

/-- A new disk. -/
def blank (β : Type) : Disk β where
  tree := {
    node := fun p => if p = [] then some .dir else none
    root := if_pos rfl
    parent := fun {p a} h => absurd (if_neg (by simp)) h }
  data _ := []
  next := 0
  single {p q n} hp _ := by
    dsimp only at hp
    split at hp <;> cases hp
  old {p n} hp := by
    dsimp only at hp
    split at hp <;> cases hp

/-! ## Answers -/

section Answers

variable {β : Type} (d : Disk β)

/-- Open the file at a place with the given content, if it is in a directory and not one itself. -/
def openAt (p : Place) (data : List β) : Option (Nat × Disk β) :=
  match p.getLast? with
  | none => none
  | some a =>
    if h : d.tree.node p.dropLast = some .dir ∧ d.tree.node (p.dropLast ++ [a]) ≠ some .dir then
      some (d.target (p.dropLast ++ [a]), d.opened p.dropLast a data h.1 h.2)
    else none

/-- Move a file, if there is one and its new place is in a directory and not one itself. -/
def moveTo (p q : Place) : Option (Disk β) :=
  match hn : d.number p, q.getLast? with
  | some n, some a =>
    if h : (d.unlinked p).tree.node q.dropLast = some .dir ∧
        (d.unlinked p).tree.node (q.dropLast ++ [a]) ≠ some .dir ∧ ¬p <+: q.dropLast ++ [a] then
      some (d.moved p q.dropLast a n hn h.1 h.2.1)
    else none
  | _, _ => none

variable {d} {p q : Place} {n : Nat} {data : List β} {d' : Disk β}

theorem openAt_put (h : d.openAt p data = some (n, d')) : d.Put p n d' ∧ d'.data n = data := by
  rcases p.eq_nil_or_concat' with rfl | ⟨q, a, rfl⟩
  · cases h
  · simp only [openAt, List.getLast?_concat, List.dropLast_concat] at h
    split at h
    next hok =>
      cases h
      exact ⟨opened_put hok.1 hok.2, Function.update_self ..⟩
    next => cases h

theorem moveTo_moved (h : d.moveTo p q = some d') : d.Moved p q d' := by
  rcases q.eq_nil_or_concat' with rfl | ⟨r, a, rfl⟩
  · rw [moveTo] at h
    split at h
    next hlast => cases hlast
    next => cases h
  · rw [moveTo] at h
    split at h
    next n b hn hlast =>
      rw [List.getLast?_concat, Option.some.injEq] at hlast
      subst hlast
      simp only [List.dropLast_concat] at h
      split at h
      next hok =>
        cases h
        exact moved_file hn hok.1 hok.2.1 hok.2.2
      next => cases h
    next => cases h

variable [Inhabited β] (cwd : Place) (d)

/-- An error of a call that does nothing. -/
def refused {op : DiskOp β} : Except FileError op.Value × Disk β :=
  (.error ⟨false, "operation not permitted"⟩, d)

/-- The answer to a call; what a call does not find or cannot do it reports. -/
def answer : (op : DiskOp β) → Except FileError op.Value × Disk β
  | .stat path =>
    match d.content (resolve cwd path) with
    | some b => (.ok b.length, d)
    | none => (.error ⟨true, "no such file or directory"⟩, d)
  | .mkdirAll path =>
    if (resolve cwd path).inits.any d.tree.isFile then d.refused else
      (.ok (), d.grown (resolve cwd path))
  | .writeFile path data =>
    match d.openAt (resolve cwd path) data with
    | some (_, d') => (.ok (), d')
    | none => d.refused
  | .create path =>
    match d.openAt (resolve cwd path) [] with
    | some (n, d') => (.ok n, d')
    | none => d.refused
  | .write n offset chunk =>
    (.ok (), { d with data := Function.update d.data n (splice (d.data n) offset chunk) })
  | .close _ => (.ok (), d)
  | .remove path =>
    match d.number (resolve cwd path) with
    | some _ => (.ok (), d.unlinked (resolve cwd path))
    | none => (.error ⟨true, "no such file or directory"⟩, d)
  | .rename old new =>
    match d.moveTo (resolve cwd old) (resolve cwd new) with
    | some d' => (.ok (), d')
    | none => d.refused

variable {cwd d}

theorem answer_handles (op : DiskOp β) :
    d.handles cwd ⟨op, (d.answer cwd op).1⟩ (d.answer cwd op).2 := by
  cases op with
  | stat path =>
    rw [answer]
    split
    next b hb =>
      refine ⟨rfl, fun size hsize b' hb' => ?_⟩
      rw [hb] at hb'
      cases hb'
      exact (Except.ok.inj hsize).symm
    next => exact ⟨rfl, nofun⟩
  | mkdirAll path =>
    rw [answer]
    split
    · exact ⟨fun _ => Or.inl rfl, rfl, rfl, nofun⟩
    next hfile =>
      refine ⟨Tree.made_grows fun q hq => ?_, rfl, rfl, fun _ q hq => if_pos hq⟩
      rw [Bool.not_eq_true, List.any_eq_false] at hfile
      exact Bool.not_eq_true _ ▸ hfile q ((List.mem_inits _ _).2 hq)
  | writeFile path data =>
    rw [answer]
    split
    next n d' hopen =>
      obtain ⟨hput, hdata⟩ := openAt_put hopen
      refine ⟨Or.inr ⟨n, hput⟩, fun _ => ?_⟩
      rw [content, number_eq_some.2 hput.here, Option.map_some, hdata]
    next => exact ⟨Or.inl rfl, nofun⟩
  | create path =>
    rw [answer]
    split
    next n d' hopen =>
      obtain ⟨hput, hdata⟩ := openAt_put hopen
      refine ⟨Or.inr ⟨n, hput⟩, fun m hm => ?_⟩
      cases hm
      exact ⟨number_eq_some.2 hput.here, hdata⟩
    next => exact ⟨Or.inl rfl, nofun⟩
  | write n offset chunk =>
    refine ⟨⟨rfl, fun m hm => Function.update_of_ne hm .., rfl⟩, fun _ => ?_⟩
    exact Function.update_self ..
  | close n => rfl
  | remove path =>
    rw [answer]
    split
    next n hn =>
      have hgone := unlinked_file hn
      exact ⟨Or.inr hgone, fun _ => hgone.here⟩
    next => exact ⟨Or.inl rfl, nofun⟩
  | rename old new =>
    rw [answer]
    split
    next d' hmove =>
      have hmoved := moveTo_moved hmove
      exact ⟨Or.inr hmoved, fun _ => Or.inr hmoved⟩
    next => exact ⟨Or.inl rfl, nofun⟩

end Answers

end Disk

end Medea.Files
