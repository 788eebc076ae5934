import Medea.Interaction.Contract
import Mathlib.Logic.Function.Basic

/-!
# Systems: programs running side by side over a shared world

A system runs one program per process. A process that is idle may start a task; a process that is
running issues its next operation, which the world answers; a crash discards every running program
and restarts the world. A run is a list of labels, so the events of the processes are interleaved
one operation at a time and a crash may fall between any two of them.

`Supervision` is the rule for proving properties of all runs: one contract per process over a
common ghost state, with the obligations that the world answers as admitted and that an allowed
event of one process is a permitted drift for the others. `Supervision.along_run` carries them,
with an invariant of the world and a history of the run, through runs of any length.
-/

set_option autoImplicit false

namespace Medea.Interaction

variable {S : Signature} {σ ι τ : Type}

/-- Tasks, the processes that may run them, and the world they run in. -/
structure System (S : Signature) (σ ι τ : Type) where
  task : τ → Program S Unit
  may : ι → τ → Prop
  /-- `handle w e w'`: in the world `w` the operation of `e` can get the reply of `e`, leaving
  the world in `w'`. -/
  handle : σ → Event S → σ → Prop
  /-- The world after a crash. -/
  restart : σ → σ

/-- The world and what is left of the program of each process. -/
structure Config (S : Signature) (σ ι : Type) where
  world : σ
  proc : ι → Program S Unit

/-- Every process is idle. -/
def Config.idle (S : Signature) (ι : Type) (w : σ) : Config S σ ι := ⟨w, fun _ => .done ()⟩

/-- What one step of a system does. -/
inductive Label (S : Signature) (ι τ : Type) where
  | start (i : ι) (t : τ)
  | act (i : ι) (e : Event S)
  | crash

variable [DecidableEq ι]

namespace System

/-- One step of a system. -/
inductive Step (A : System S σ ι τ) : Config S σ ι → Label S ι τ → Config S σ ι → Prop
  | start {c : Config S σ ι} {i : ι} {t : τ} : c.proc i = .done () → A.may i t →
      Step A c (.start i t) ⟨c.world, Function.update c.proc i (A.task t)⟩
  | act {c : Config S σ ι} {i : ι} {op : S.Op} {next : S.Reply op → Program S Unit}
      {r : S.Reply op} {w : σ} : c.proc i = .request op next → A.handle c.world ⟨op, r⟩ w →
      Step A c (.act i ⟨op, r⟩) ⟨w, Function.update c.proc i (next r)⟩
  | crash {c : Config S σ ι} : Step A c .crash ⟨A.restart c.world, fun _ => .done ()⟩

/-- A run: the steps of a list of labels, one after the other. -/
def Runs (A : System S σ ι τ) : Config S σ ι → List (Label S ι τ) → Config S σ ι → Prop
  | c, [], c' => c = c'
  | c, l :: ls, c' => ∃ d, A.Step c l d ∧ A.Runs d ls c'

variable {A : System S σ ι τ} {c c' : Config S σ ι} {ls ms : List (Label S ι τ)}

theorem runs_append :
    A.Runs c (ls ++ ms) c' ↔ ∃ d, A.Runs c ls d ∧ A.Runs d ms c' := by
  induction ls generalizing c with
  | nil => simp [Runs]
  | cons l ls ih =>
    simp only [List.cons_append, Runs, ih]
    constructor
    · rintro ⟨d, hs, e, h1, h2⟩
      exact ⟨e, ⟨d, hs, h1⟩, h2⟩
    · rintro ⟨e, ⟨d, hs, h1⟩, h2⟩
      exact ⟨d, hs, e, h1, h2⟩

theorem Runs.trans {d : Config S σ ι} (h1 : A.Runs c ls d) (h2 : A.Runs d ms c') :
    A.Runs c (ls ++ ms) c' := runs_append.2 ⟨d, h1, h2⟩

end System

/-! ## Supervision -/

/-- One contract per process over a common ghost state, and what makes them fit together.
`mark` moves the ghost state when a task starts or the system crashes; `assumes` is a condition
on the labels of the runs considered. -/
structure Supervision (A : System S σ ι τ) (M : Type) where
  contract : ι → Contract S M
  mark : M → Label S ι τ → M
  assumes : M → Label S ι τ → Prop
  /-- The relation between the world and the ghost state. -/
  rel : σ → M → Prop
  /-- The ghost states in which a process may be idle. -/
  idle : ι → M → Prop
  idle_drift : ∀ {i m m'}, idle i m → (contract i).drift m m' → idle i m'
  admits : ∀ {i e w w' m}, assumes m (.act i e) → rel w m → A.handle w e w' →
    (contract i).admits m e
  act : ∀ {i e w w' m}, assumes m (.act i e) → rel w m → A.handle w e w' →
    (contract i).allows m e → rel w' ((contract i).next m e) ∧
      ∀ j, j ≠ i → (contract j).drift m ((contract i).next m e)
  start : ∀ {i t w m}, A.may i t → assumes m (.start i t) → rel w m → idle i m →
    rel w (mark m (.start i t)) ∧
      (A.task t).Keeps (contract i) (fun _ => idle i) (mark m (.start i t)) ∧
      ∀ j, j ≠ i → (contract j).drift m (mark m (.start i t))
  crash : ∀ {w m}, assumes m .crash → rel w m →
    rel (A.restart w) (mark m .crash) ∧ ∀ i, idle i (mark m .crash)

namespace Supervision

variable {A : System S σ ι τ} {M : Type} (V : Supervision A M) {c c' : Config S σ ι}
  {ls : List (Label S ι τ)} {m : M}

/-- The ghost state after a label. -/
def track (m : M) : Label S ι τ → M
  | .act i e => (V.contract i).next m e
  | l => V.mark m l

/-- The world agrees with the ghost state and what is left of every program keeps its contract. -/
def Inv (c : Config S σ ι) (m : M) : Prop :=
  V.rel c.world m ∧ ∀ i, (c.proc i).Keeps (V.contract i) (fun _ => V.idle i) m

/-- An event of a process is one its contract allows. -/
def Obeys (m : M) : Label S ι τ → Prop
  | .act i e => (V.contract i).allows m e
  | _ => True

omit [DecidableEq ι] in
/-- An idle configuration satisfies the invariant. -/
theorem inv_idle {w : σ} (hr : V.rel w m) (hi : ∀ i, V.idle i m) :
    V.Inv (Config.idle S ι w) m := ⟨hr, fun i _ hm => V.idle_drift (hi i) hm⟩

theorem step_inv {l : Label S ι τ} (hi : V.Inv c m) (ha : V.assumes m l) (hs : A.Step c l c') :
    V.Obeys m l ∧ V.Inv c' (V.track m l) := by
  obtain ⟨hrel, hkeeps⟩ := hi
  cases hs with
  | @start i t hdone hmay =>
    have hidle : V.idle i m := by
      have h := hkeeps i
      rw [hdone] at h
      exact h.of_done
    obtain ⟨h1, h2, h3⟩ := V.start hmay ha hrel hidle
    exact ⟨trivial, h1, (Function.forall_update_iff c.proc fun j p => p.Keeps (V.contract j) _ _).2
      ⟨h2, fun j hj => (hkeeps j).drift (h3 j hj)⟩⟩
  | @act i op next r w hreq hw =>
    have h := hkeeps i
    rw [hreq] at h
    obtain ⟨hall, hnext⟩ := h m ((V.contract i).drift_refl m) r (V.admits ha hrel hw)
    obtain ⟨h1, h2⟩ := V.act ha hrel hw hall
    exact ⟨hall, h1, (Function.forall_update_iff c.proc fun j p => p.Keeps (V.contract j) _ _).2
      ⟨hnext, fun j hj => (hkeeps j).drift (h2 j hj)⟩⟩
  | crash =>
    obtain ⟨h1, h2⟩ := V.crash ha hrel
    exact ⟨trivial, h1, fun i _ hm => V.idle_drift (h2 i) hm⟩

/-- The invariant along a run whose labels meet the assumptions, with the ghost state computed from the
labels. -/
theorem runs_inv {next : M → Label S ι τ → M} (hnext : ∀ m l, V.track m l = next m l)
    (hr : A.Runs c ls c') (hi : V.Inv c m) (ha : Along next V.assumes m ls) :
    V.Inv c' (ls.foldl next m) := by
  induction ls generalizing c m with
  | nil =>
    cases hr
    exact hi
  | cons l ls ih =>
    obtain ⟨d, hs, hr⟩ := hr
    have hd := (V.step_inv hi ha.1 hs).2
    rw [hnext] at hd
    exact ih hr hd ha.2

/-- The events of such a run are allowed. -/
theorem runs_obeys {next : M → Label S ι τ → M} (hnext : ∀ m l, V.track m l = next m l)
    (hr : A.Runs c ls c') (hi : V.Inv c m) (ha : Along next V.assumes m ls) :
    Along next V.Obeys m ls := by
  induction ls generalizing c m with
  | nil => trivial
  | cons l ls ih =>
    obtain ⟨d, hs, hr⟩ := hr
    obtain ⟨hob, hd⟩ := V.step_inv hi ha.1 hs
    rw [hnext] at hd
    exact ⟨hob, ih hr hd ha.2⟩

omit [DecidableEq ι] in
variable (A) in
/-- What a step does to the world; a task is started only by a process that may run it. -/
def Moves (w : σ) : Label S ι τ → σ → Prop
  | .start i t, w' => A.may i t ∧ w' = w
  | .act _ e, w' => A.handle w e w'
  | .crash, w' => w' = A.restart w

theorem step_moves {l : Label S ι τ} (hs : A.Step c l c') :
    Moves A c.world l c'.world := by
  cases hs with
  | start _ hmay => exact ⟨hmay, rfl⟩
  | act _ hw => exact hw
  | crash => rfl

/-- Rule for properties of runs: an invariant `I` of the world, the supervised state and a history
`g` computed from the labels. Each step may use that its process obeys its contract. -/
theorem along_run {G : Type} {upd : G → Label S ι τ → G} {assume ok : G → Label S ι τ → Prop}
    {I : σ → M → G → Prop} (hassume : ∀ {w m g l}, I w m g → assume g l → V.assumes m l)
    (hstep : ∀ {w m g l w'}, I w m g → V.rel w m → assume g l → V.Obeys m l → Moves A w l w' →
      ok g l ∧ I w' (V.track m l) (upd g l)) {g : G} (hr : A.Runs c ls c')
    (hi : V.Inv c m) (hI : I c.world m g) (ha : Along upd assume g ls) :
    Along upd ok g ls ∧ ∃ m', V.Inv c' m' ∧ I c'.world m' (ls.foldl upd g) := by
  induction ls generalizing c m g with
  | nil =>
    cases hr
    exact ⟨trivial, m, hi, hI⟩
  | cons l ls ih =>
    obtain ⟨d, hs, hr⟩ := hr
    obtain ⟨hob, hi'⟩ := V.step_inv hi (hassume hI ha.1) hs
    obtain ⟨hok, hI'⟩ := hstep hI hi.1 ha.1 hob (step_moves hs)
    obtain ⟨h1, h2⟩ := ih hr hi' hI' ha.2
    exact ⟨⟨hok, h1⟩, h2⟩

end Supervision

end Medea.Interaction
