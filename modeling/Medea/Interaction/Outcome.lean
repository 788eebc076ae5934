import Medea.Interaction.Program

/-!
# Outcomes in a world

A world answers operations and changes with them; `handles w e w'` says that in the world `w` the
event `e` can occur and leads to `w'`. `Program.Ensures` is total correctness for a program that
runs alone in such a world: it is never left without an answer, and every execution ends in the
postcondition. A program is a finite tree, so there is no question of termination beyond that.

`Ensures.bind` composes, `ensures_untilSome` is the rule for loops with early exit, and
`Ensures.meet` says that two postconditions ensured from the same world have a common outcome, which
refutes one of them if they exclude each other.

`Program.Yields` is one execution from its beginning to its end, and `Ensures.yields` says that it ends
in the postcondition. `runAlone` computes such an execution, and `runFor` one that is cut off.

`Program.Stays` adds what holds on the way, whenever an operation is issued: `Stays.steps` says that it is
also a property of every execution that is cut off.
-/

set_option autoImplicit false

namespace Medea.Interaction

namespace Program

variable {S : Signature} {W α β : Type} {handles : W → Event S → W → Prop} {p : Program S α}
  {Q : α → W → Prop} {w w' : W} {answer : W → (op : S.Op) → S.Reply op × W}

/-- Run alone from the world `w`, the program gets an answer to every operation and ends with
`Q`. -/
def Ensures (handles : W → Event S → W → Prop) (Q : α → W → Prop) : Program S α → W → Prop
  | .done a, w => Q a w
  | .request op next, w =>
    (∃ r w', handles w ⟨op, r⟩ w') ∧
      ∀ r w', handles w ⟨op, r⟩ w' → (next r).Ensures handles Q w'

@[simp] theorem ensures_done {a : α} {w : W} :
    (Program.done a : Program S α).Ensures handles Q w ↔ Q a w := Iff.rfl

theorem Ensures.mono {Q R : α → W → Prop} (h : ∀ a w, Q a w → R a w) {w : W}
    (hp : p.Ensures handles Q w) : p.Ensures handles R w := by
  induction p generalizing w with
  | done a => exact h a w hp
  | request op next ih =>
    obtain ⟨hanswered, hnext⟩ := hp
    refine ⟨hanswered, ?_⟩
    intro r w' hw
    exact ih r (hnext r w' hw)

/-- Sequential composition: the second part starts where the first ends. -/
theorem Ensures.bind {Q : β → W → Prop} {R : α → W → Prop} {f : α → Program S β}
    {p : Program S α} {w : W} (hp : p.Ensures handles R w)
    (hf : ∀ a w, R a w → (f a).Ensures handles Q w) : (p >>= f).Ensures handles Q w := by
  induction p generalizing w with
  | done a => exact hf a w hp
  | request op next ih =>
    obtain ⟨hanswered, hnext⟩ := hp
    refine ⟨hanswered, ?_⟩
    intro r w' hw
    exact ih r (hnext r w' hw)

/-- An operation with one possible answer. -/
theorem ensures_perform {op : S.Op} {next : S.Reply op → Program S α} {r : S.Reply op}
    (honly : ∀ r' w'', handles w ⟨op, r'⟩ w'' ↔ r' = r ∧ w'' = w') (h : (next r).Ensures handles Q w') :
    (perform op >>= next).Ensures handles Q w := by
  refine ⟨⟨r, w', (honly r w').2 ⟨rfl, rfl⟩⟩, ?_⟩
  intro r' w'' hw
  obtain ⟨rfl, rfl⟩ := (honly r' w'').1 hw
  exact h

/-- Rule for a loop with early exit: `I` relates the elements still to come to the world. -/
theorem ensures_untilSome {I : List α → W → Prop} {Q : Option β → W → Prop}
    {body : α → Program S (Option β)} {as : List α} {w : W}
    (hbody : ∀ a ∈ as, ∀ rest w, I (a :: rest) w → (body a).Ensures handles
      (fun b w' => match b with | some b => Q (some b) w' | none => I rest w') w)
    (hend : ∀ w, I [] w → Q none w) (h : I as w) : (untilSome body as).Ensures handles Q w := by
  induction as generalizing w with
  | nil => exact hend w h
  | cons a as ih =>
    refine (hbody a List.mem_cons_self as w h).bind ?_
    intro b w' hb
    cases b with
    | some b => exact hb
    | none => exact ih (fun a ha => hbody a (List.mem_cons_of_mem _ ha)) hb

/-- Where every operation is answered every program comes to an end. -/
theorem ensures_of_answers (h : ∀ w op, ∃ r w', handles w ⟨op, r⟩ w') (p : Program S α) (w : W) :
    p.Ensures handles (fun _ _ => True) w := by
  induction p generalizing w with
  | done a => trivial
  | request op next ih => exact ⟨h w op, fun r w' _ => ih r w'⟩

/-- Two postconditions ensured from one world have a common outcome. -/
theorem Ensures.meet {Q R : α → W → Prop} {p : Program S α} {w : W}
    (hQ : p.Ensures handles Q w) (hR : p.Ensures handles R w) : ∃ a w', Q a w' ∧ R a w' := by
  induction p generalizing w with
  | done a => exact ⟨a, w, hQ, hR⟩
  | request op next ih =>
    obtain ⟨⟨r, w', hw⟩, hQ⟩ := hQ
    exact ih r (hQ r w' hw) (hR.2 r w' hw)

/-- Run alone from the world `w`, the program can end with `a` in the world `w'`. -/
def Yields (handles : W → Event S → W → Prop) (p : Program S α) (w : W) (a : α) (w' : W) : Prop :=
  ∃ tr, p.Steps tr (.done a) ∧ Answered handles w tr w'

theorem Ensures.yields {a : α} (h : p.Ensures handles Q w) (hy : p.Yields handles w a w') :
    Q a w' := by
  obtain ⟨tr, hs, ha⟩ := hy
  induction p generalizing w tr with
  | done b =>
    obtain ⟨rfl, hb⟩ := hs.of_done
    cases hb
    cases ha
    exact h
  | request op next ih =>
    obtain ⟨r, rest, rfl, hrest⟩ := hs.request_done
    obtain ⟨v, hv, ha⟩ := ha
    exact ih r (h.2 r v hv) rest hrest ha

/-- A world that answers in more ways. -/
theorem Yields.mono {handles' : W → Event S → W → Prop}
    (hmono : ∀ {w e w'}, handles w e w' → handles' w e w') {a : α} (h : p.Yields handles w a w') :
    p.Yields handles' w a w' := by
  obtain ⟨tr, hs, ha⟩ := h
  exact ⟨tr, hs, ha.mono hmono⟩

/-- The execution in a world with one answer to every operation. -/
def runAlone (answer : W → (op : S.Op) → S.Reply op × W) : Program S α → W → α × W
  | .done a, w => (a, w)
  | .request op next, w => (next (answer w op).1).runAlone answer (answer w op).2

theorem runAlone_bind (p : Program S α) (f : α → Program S β) (w : W) : (p >>= f).runAlone answer w =
      (f (p.runAlone answer w).1).runAlone answer (p.runAlone answer w).2 := by
  induction p generalizing w with
  | done a => rfl
  | request op next ih => exact ih (answer w op).1 (answer w op).2

theorem runAlone_yields (h : ∀ w op, handles w ⟨op, (answer w op).1⟩ (answer w op).2) (p : Program S α)
    (w : W) :
    p.Yields handles w (p.runAlone answer w).1 (p.runAlone answer w).2 := by
  induction p generalizing w with
  | done a => exact ⟨[], .refl _, rfl⟩
  | request op next ih =>
    obtain ⟨tr, hs, ha⟩ := ih (answer w op).1 (answer w op).2
    exact ⟨⟨op, (answer w op).1⟩ :: tr, .head _ hs, (answer w op).2, h w op, ha⟩

/-- The execution cut off after `n` operations: what is left of the program, and the world then. -/
def runFor (answer : W → (op : S.Op) → S.Reply op × W) : Nat → Program S α → W → Program S α × W
  | 0, p, w => (p, w)
  | _ + 1, .done a, w => (.done a, w)
  | n + 1, .request op next, w => runFor answer n (next (answer w op).1) (answer w op).2

theorem runFor_steps (h : ∀ w op, handles w ⟨op, (answer w op).1⟩ (answer w op).2) (n : Nat)
    (p : Program S α) (w : W) :
    ∃ tr, p.Steps tr (runFor answer n p w).1 ∧ Answered handles w tr (runFor answer n p w).2 := by
  induction n generalizing p w with
  | zero => exact ⟨[], .refl _, rfl⟩
  | succ n ih =>
    cases p with
    | done a => exact ⟨[], .refl _, rfl⟩
    | request op next =>
      obtain ⟨tr, hs, ha⟩ := ih (next (answer w op).1) (answer w op).2
      exact ⟨⟨op, (answer w op).1⟩ :: tr, .head _ hs, (answer w op).2, h w op, ha⟩

/-- There is an operation to come. -/
def pending : Program S α → Bool
  | .done _ => false
  | .request _ _ => true

theorem ne_done_of_pending (h : p.pending = true) (a : α) : p ≠ .done a := by
  rintro rfl
  cases h

/-! ## On the way -/

/-- Run alone from the world `w`, the program gets an answer to every operation, `I` holds whenever one is
issued, and it ends with `Q`. -/
def Stays (handles : W → Event S → W → Prop) (I : W → Prop) (Q : α → W → Prop) :
    Program S α → W → Prop
  | .done a, w => Q a w
  | .request op next, w =>
    I w ∧ (∃ r w', handles w ⟨op, r⟩ w') ∧
      ∀ r w', handles w ⟨op, r⟩ w' → (next r).Stays handles I Q w'

section Stays

variable {I : W → Prop} {Q : α → W → Prop} {p : Program S α} {w : W}

theorem Stays.ensures (h : p.Stays handles I Q w) : p.Ensures handles Q w := by
  induction p generalizing w with
  | done a => exact h
  | request op next ih => exact ⟨h.2.1, fun r w' hw => ih r (h.2.2 r w' hw)⟩

theorem Stays.mono {J : W → Prop} {R : α → W → Prop} (hI : ∀ w, I w → J w)
    (hQ : ∀ a w, Q a w → R a w) (h : p.Stays handles I Q w) : p.Stays handles J R w := by
  induction p generalizing w with
  | done a => exact hQ a w h
  | request op next ih => exact ⟨hI w h.1, h.2.1, fun r w' hw => ih r (h.2.2 r w' hw)⟩

/-- Sequential composition. -/
theorem Stays.bind {R : β → W → Prop} {f : α → Program S β} (h : p.Stays handles I Q w)
    (hf : ∀ a w, Q a w → (f a).Stays handles I R w) : (p >>= f).Stays handles I R w := by
  induction p generalizing w with
  | done a => exact hf a w h
  | request op next ih => exact ⟨h.1, h.2.1, fun r w' hw => ih r (h.2.2 r w' hw)⟩

/-- What holds wherever an execution is cut off. -/
theorem stays_of_steps (hanswers : ∀ w op, ∃ r w', handles w ⟨op, r⟩ w')
    (h : ∀ tr q w', p.Steps tr q → Answered handles w tr w' → I w') :
    p.Stays handles I (fun _ => I) w := by
  induction p generalizing w with
  | done a => exact h [] _ w (.refl _) rfl
  | request op next ih =>
    refine ⟨h [] _ w (.refl _) rfl, hanswers w op, fun r v hv => ih r fun tr q w' hs ha => ?_⟩
    exact h (⟨op, r⟩ :: tr) q w' (.head r hs) ⟨v, hv, ha⟩

theorem Stays.here (h : p.Stays handles I (fun _ => I) w) : I w := by
  cases p with
  | done a => exact h
  | request op next => exact h.1

/-- What is left of an execution that was cut off. -/
theorem Stays.steps {q : Program S α} {tr : Trace S} {w' : W} (h : p.Stays handles I Q w)
    (hs : p.Steps tr q) (ha : Answered handles w tr w') : q.Stays handles I Q w' := by
  induction hs generalizing w with
  | refl p =>
    cases ha
    exact h
  | head r _ ih =>
    obtain ⟨v, hv, ha⟩ := ha
    exact ih (h.2.2 r v hv) ha

end Stays

end Program

end Medea.Interaction
