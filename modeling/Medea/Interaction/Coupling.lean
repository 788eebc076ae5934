import Medea.Interaction.Program

/-!
# Two runs of a program

`Program.Coupled O E Q p p'` relates two programs that are run side by side: their operations are
related by `O` as long as their events are related by `E`, they finish together, and the values they
return are related by `Q`. A program that is coupled with itself, for a relation `E` that forgets a
part of the answers, does not let that part through.

`Coupled.bind` composes, and `coupled_untilSome` is the rule for loops with early exit.
-/

set_option autoImplicit false

namespace Medea.Interaction

namespace Program

variable {S : Signature} {α β α' β' : Type}

/-- Side by side, with related answers, two programs issue related operations and return related
values. -/
inductive Coupled (O : S.Op → S.Op → Prop) (E : Event S → Event S → Prop) (Q : α → β → Prop) :
    Program S α → Program S β → Prop
  | done {a : α} {b : β} : Q a b → Coupled O E Q (.done a) (.done b)
  | request {op op' : S.Op} {next : S.Reply op → Program S α} {next' : S.Reply op' → Program S β} :
      O op op' → (∀ r r', E ⟨op, r⟩ ⟨op', r'⟩ → Coupled O E Q (next r) (next' r')) →
      Coupled O E Q (.request op next) (.request op' next')

section Coupled

variable {O : S.Op → S.Op → Prop} {E : Event S → Event S → Prop} {Q : α → β → Prop}
  {R : α' → β' → Prop}

theorem Coupled.bind {p : Program S α} {p' : Program S β} {f : α → Program S α'}
    {f' : β → Program S β'} (hp : Coupled O E Q p p')
    (hf : ∀ a b, Q a b → Coupled O E R (f a) (f' b)) : Coupled O E R (p >>= f) (p' >>= f') := by
  induction hp with
  | done hab => exact hf _ _ hab
  | request hop _ ih => exact .request hop ih

theorem Coupled.mono {Q' : α → β → Prop} {p : Program S α} {p' : Program S β}
    (hp : Coupled O E Q p p') (hQ : ∀ a b, Q a b → Q' a b) : Coupled O E Q' p p' := by
  induction hp with
  | done hab => exact .done (hQ _ _ hab)
  | request hop _ ih => exact .request hop ih

/-- One operation on each side. -/
theorem coupled_perform {op op' : S.Op} {Q : S.Reply op → S.Reply op' → Prop} (hop : O op op')
    (hQ : ∀ r r', E ⟨op, r⟩ ⟨op', r'⟩ → Q r r') :
    Coupled O E Q (perform op) (perform op') :=
  .request hop fun r r' hr => .done (hQ r r' hr)

/-- A loop with early exit. -/
theorem coupled_untilSome {body : α → Program S (Option β)} {as : List α}
    (hbody : ∀ a ∈ as, Coupled O E Eq (body a) (body a)) :
    Coupled O E Eq (untilSome body as) (untilSome body as) := by
  induction as with
  | nil => exact .done rfl
  | cons a as ih =>
    refine (hbody a List.mem_cons_self).bind ?_
    rintro b b' rfl
    cases b with
    | some b => exact .done rfl
    | none => exact ih fun a ha => hbody a (List.mem_cons_of_mem _ ha)

end Coupled

end Program

end Medea.Interaction
