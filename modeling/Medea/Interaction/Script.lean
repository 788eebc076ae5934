import Medea.Interaction.Rely

/-!
# Scripts

Concrete runs of a system are computed from a script: a list of cues that start a task, let a process
issue its next operation, or crash the system. A `Player` answers the operations, and `Player.play_runs`
says that what it computes is a run. A cue that is not possible is passed over, so a process can be
given more steps than its task has. A condition on the steps is checked along the way
(`Player.play_runsWith`).
-/

set_option autoImplicit false

namespace Medea.Interaction

variable {S : Signature} {σ ι τ O : Type}

/-- A line of a script; `O` says what the world answers. -/
inductive Cue (ι τ O : Type) where
  | start (i : ι) (t : τ)
  | step (i : ι) (oracle : O)
  | crash

/-- A task, and up to `n` of its operations. -/
def Cue.task (i : ι) (t : τ) (n : Nat) (oracle : O) : List (Cue ι τ O) :=
  .start i t :: List.replicate n (.step i oracle)

/-- One way to answer the operations of a system. -/
structure Player (A : System S σ ι τ) (O : Type) where
  allowed : ι → τ → Bool
  answer : σ → O → (op : S.Op) → S.Reply op × σ
  may : ∀ {i t}, allowed i t = true → A.may i t
  handles : ∀ w o op, A.handle w ⟨op, (answer w o op).1⟩ (answer w o op).2

namespace Player

variable [DecidableEq ι] {A : System S σ ι τ} (P : Player A O)

/-- One cue. -/
def cue (c : Config S σ ι) : Cue ι τ O → List (Label S ι τ) × Config S σ ι
  | .start i t =>
    match c.proc i with
    | .done () =>
      if P.allowed i t then ([.start i t], ⟨c.world, Function.update c.proc i (A.task t)⟩)
      else ([], c)
    | .request _ _ => ([], c)
  | .step i oracle =>
    match c.proc i with
    | .done () => ([], c)
    | .request op next =>
      ([.act i ⟨op, (P.answer c.world oracle op).1⟩],
        ⟨(P.answer c.world oracle op).2,
          Function.update c.proc i (next (P.answer c.world oracle op).1)⟩)
  | .crash => ([.crash], ⟨A.restart c.world, fun _ => .done ()⟩)

/-- A whole script: the labels of the run and its end. -/
def play : List (Cue ι τ O) → Config S σ ι → List (Label S ι τ) × Config S σ ι
  | [], c => ([], c)
  | q :: qs, c => ((P.cue c q).1 ++ (play qs (P.cue c q).2).1, (play qs (P.cue c q).2).2)

theorem cue_runs (c : Config S σ ι) (q : Cue ι τ O) : A.Runs c (P.cue c q).1 (P.cue c q).2 := by
  cases q with
  | start i t =>
    rw [cue]
    split
    next h =>
      split
      next hmay => exact ⟨_, .start h (P.may hmay), rfl⟩
      next => rfl
    next => rfl
  | step i oracle =>
    rw [cue]
    split
    next => rfl
    next op next h => exact ⟨_, .act h (P.handles _ _ _), rfl⟩
  | crash => exact ⟨_, .crash, rfl⟩

/-- What a script computes is a run. -/
theorem play_runs (qs : List (Cue ι τ O)) (c : Config S σ ι) :
    A.Runs c (P.play qs c).1 (P.play qs c).2 := by
  induction qs generalizing c with
  | nil => rfl
  | cons q qs ih => exact (P.cue_runs c q).trans (ih _)

/-- Every step of a script meets a condition on the worlds before and after. -/
def meets (check : σ → Label S ι τ → σ → Bool) : List (Cue ι τ O) → Config S σ ι → Bool
  | [], _ => true
  | q :: qs, c => (P.cue c q).1.all (fun l => check c.world l (P.cue c q).2.world) &&
      meets check qs (P.cue c q).2

variable {check : σ → Label S ι τ → σ → Bool} {C : σ → Label S ι τ → σ → Prop}

/-- A cue makes one step at most. -/
theorem cue_runsWith (hC : ∀ w l w', check w l w' = true → C w l w') (c : Config S σ ι) (q : Cue ι τ O)
    (h : (P.cue c q).1.all (fun l => check c.world l (P.cue c q).2.world) = true) :
    A.RunsWith C c (P.cue c q).1 (P.cue c q).2 := by
  have hrun := P.cue_runs c q
  have hone : (P.cue c q).1 = [] ∨ ∃ l, (P.cue c q).1 = [l] := by
    cases q with
    | start i t =>
      rw [cue]
      split
      · split
        · exact Or.inr ⟨_, rfl⟩
        · exact Or.inl rfl
      · exact Or.inl rfl
    | step i oracle =>
      rw [cue]
      split
      · exact Or.inl rfl
      · exact Or.inr ⟨_, rfl⟩
    | crash => exact Or.inr ⟨_, rfl⟩
  rcases hone with hnil | ⟨l, hl⟩
  · rw [hnil] at hrun ⊢
    exact hrun
  · rw [hl] at h hrun ⊢
    obtain ⟨d, hs, rfl⟩ := hrun
    exact ⟨_, hs, hC _ _ _ (List.all_eq_true.1 h l List.mem_cons_self), rfl⟩

/-- A script that passes the check is a run under the condition. -/
theorem play_runsWith (hC : ∀ w l w', check w l w' = true → C w l w') (qs : List (Cue ι τ O))
    (c : Config S σ ι) (h : P.meets check qs c = true) :
    A.RunsWith C c (P.play qs c).1 (P.play qs c).2 := by
  induction qs generalizing c with
  | nil => rfl
  | cons q qs ih =>
    rw [meets, Bool.and_eq_true] at h
    exact System.runsWith_append.2 ⟨_, P.cue_runsWith hC c q h.1, ih _ h.2⟩

end Player

end Medea.Interaction
