import Mathlib.Data.List.Basic

/-!
# Programs as trees of operations

A program over a signature is either finished with a value or issues one operation and continues
with its reply. The tree keeps every operation and every possible reply, so the operations of a
program can be interleaved with those of other programs, cut off by a crash, or run to the end.

`Program.Steps` is the trace semantics: it relates a program to what is left of it after a list of
events, with no constraint on the replies. `Program.Within` bounds the operations a program can ever
issue, given what the replies satisfy.
-/

set_option autoImplicit false

namespace Medea.Interaction

/-- The operations a program may issue, with the type of the reply to each of them. -/
structure Signature where
  Op : Type
  Reply : Op → Type

/-- One issued operation together with the reply it got. -/
structure Event (S : Signature) where
  op : S.Op
  reply : S.Reply op

/-- A list of events, the oldest first. -/
abbrev Trace (S : Signature) := List (Event S)

/-- A finished program, or an operation followed by a continuation for each reply. -/
inductive Program (S : Signature) (α : Type) where
  | done (value : α) : Program S α
  | request (op : S.Op) (next : S.Reply op → Program S α) : Program S α

namespace Program

variable {S : Signature} {α β γ : Type}

/-- Sequential composition. -/
def bind (p : Program S α) (f : α → Program S β) : Program S β :=
  match p with
  | .done a => f a
  | .request op next => .request op fun r => (next r).bind f

instance : Monad (Program S) where
  pure := .done
  bind := bind

/-- The program that issues one operation and returns its reply. -/
def perform (op : S.Op) : Program S (S.Reply op) := .request op .done

@[simp] theorem pure_eq_done (a : α) : (pure a : Program S α) = .done a := rfl

/-- A loop with early exit: the body runs on each element until it returns a value. -/
def untilSome (body : α → Program S (Option β)) : List α → Program S (Option β)
  | [] => .done none
  | a :: as => do
      match ← body a with
      | some b => return some b
      | none => untilSome body as

/-- A loop over all elements. -/
def forEach (body : α → Program S Unit) : List α → Program S Unit
  | [] => .done ()
  | a :: as => do
      body a
      forEach body as

theorem bind_done (p : Program S α) : (p >>= Program.done) = p := by
  induction p with
  | done a => rfl
  | request op next ih =>
    show Program.request op (fun r => next r >>= Program.done) = .request op next
    congr 1
    funext r
    exact ih r

theorem bind_bind (p : Program S α) (f : α → Program S β) (g : β → Program S γ) :
    (p >>= f >>= g) = p >>= fun a => f a >>= g := by
  induction p with
  | done a => rfl
  | request op next ih =>
    show Program.request op (fun r => next r >>= f >>= g) =
      .request op fun r => next r >>= fun a => f a >>= g
    congr 1
    funext r
    exact ih r

/-! ## The operations of a program -/

/-- With answers satisfying `reads`, every operation `p` issues satisfies `allows` and the value it
returns satisfies `Q`. -/
def Within (reads : Event S → Prop) (allows : S.Op → Prop) (Q : α → Prop) : Program S α → Prop
  | .done a => Q a
  | .request op next => allows op ∧ ∀ r, reads ⟨op, r⟩ → (next r).Within reads allows Q

section Within

variable {reads : Event S → Prop} {allows : S.Op → Prop} {Q : α → Prop} {R : β → Prop}

/-- Sequential composition. -/
theorem Within.bind {p : Program S α} {f : α → Program S β} (hp : p.Within reads allows Q)
    (hf : ∀ a, Q a → (f a).Within reads allows R) : (p >>= f).Within reads allows R := by
  induction p with
  | done a => exact hf a hp
  | request op next ih => exact ⟨hp.1, fun r hr => ih r (hp.2 r hr)⟩

/-- A loop with early exit. -/
theorem within_untilSome {body : α → Program S (Option β)} {as : List α}
    (h : ∀ a ∈ as, (body a).Within reads allows fun _ => True) :
    (untilSome body as).Within reads allows fun _ => True := by
  induction as with
  | nil => trivial
  | cons a as ih =>
    refine (h a List.mem_cons_self).bind fun b _ => ?_
    cases b with
    | some b => trivial
    | none => exact ih fun a' ha' => h a' (List.mem_cons_of_mem _ ha')

/-- A loop over all elements. -/
theorem within_forEach {body : α → Program S Unit} {as : List α}
    (h : ∀ a ∈ as, (body a).Within reads allows fun _ => True) :
    (forEach body as).Within reads allows fun _ => True := by
  induction as with
  | nil => trivial
  | cons a as ih =>
    exact (h a List.mem_cons_self).bind fun _ _ =>
      ih fun a' ha' => h a' (List.mem_cons_of_mem _ ha')

end Within

/-! ## Traces -/

/-- `p.Steps t q`: issuing the operations of `t` and getting its replies, `p` becomes `q`. -/
inductive Steps : Program S α → Trace S → Program S α → Prop
  | refl (p : Program S α) : Steps p [] p
  | head {op : S.Op} {next : S.Reply op → Program S α} (r : S.Reply op) {t : Trace S}
      {q : Program S α} : Steps (next r) t q → Steps (.request op next) (⟨op, r⟩ :: t) q

namespace Steps

variable {p q : Program S α} {t : Trace S}

theorem trans {q' : Program S α} {t' : Trace S} (h : p.Steps t q) (h' : q.Steps t' q') :
    p.Steps (t ++ t') q' := by
  induction h with
  | refl p => exact h'
  | head r _ ih => exact .head r (ih h')

theorem tail {op : S.Op} {next : S.Reply op → Program S α}
    (h : p.Steps t (.request op next)) (r : S.Reply op) : p.Steps (t ++ [⟨op, r⟩]) (next r) :=
  h.trans (.head r (.refl _))

theorem of_nil (h : p.Steps [] q) : q = p := by
  cases h
  rfl

/-- The events determine what is left of a program. -/
theorem unique {q' : Program S α} (h : p.Steps t q) (h' : p.Steps t q') : q = q' := by
  induction h with
  | refl p =>
    cases h'
    rfl
  | head r _ ih =>
    cases h' with
    | head _ h' => exact ih h'

/-- A bound on the operations of a program is one for what is left of it. -/
theorem within {reads : Event S → Prop} {allows : S.Op → Prop} {Q : α → Prop} (h : p.Steps t q)
    (hp : p.Within reads allows Q) (ht : ∀ e ∈ t, reads e) : q.Within reads allows Q := by
  induction h with
  | refl p => exact hp
  | head r _ ih =>
    refine ih (hp.2 r (ht _ List.mem_cons_self)) ?_
    exact fun e he => ht e (List.mem_cons_of_mem _ he)

/-- The last event of a trace is the operation the program had come to. -/
theorem snoc_inv {e : Event S} (h : p.Steps (t ++ [e]) q) :
    ∃ next : S.Reply e.op → Program S α, p.Steps t (.request e.op next) ∧ q = next e.reply := by
  induction t generalizing p with
  | nil =>
    cases h with
    | @head op next r _ _ h => exact ⟨next, .refl _, h.of_nil⟩
  | cons f t ih =>
    cases h with
    | head r h =>
      obtain ⟨next, hs, hq⟩ := ih h
      exact ⟨next, .head r hs, hq⟩

/-- A finished program issues nothing. -/
theorem of_done {a : α} (h : (Program.done a).Steps t q) : t = [] ∧ q = .done a := by
  cases h
  exact ⟨rfl, rfl⟩

end Steps

/-- A program that comes to its end has its first operation answered. -/
theorem Steps.request_done {op : S.Op} {next : S.Reply op → Program S α} {t : Trace S} {a : α}
    (h : (Program.request op next).Steps t (.done a)) :
    ∃ r t', t = ⟨op, r⟩ :: t' ∧ (next r).Steps t' (.done a) := by
  cases h with
  | head r h => exact ⟨r, _, rfl, h⟩

/-- The execution with given answers, for at most `n` operations. -/
def replay (answers : (op : S.Op) → S.Reply op) : Nat → Program S α → Trace S × Program S α
  | 0, p => ([], p)
  | _ + 1, .done a => ([], .done a)
  | n + 1, .request op next =>
    (⟨op, answers op⟩ :: (replay answers n (next (answers op))).1,
      (replay answers n (next (answers op))).2)

theorem replay_steps (answers : (op : S.Op) → S.Reply op) (n : Nat) (p : Program S α) :
    p.Steps (p.replay answers n).1 (p.replay answers n).2 := by
  induction n generalizing p with
  | zero => exact .refl p
  | succ n ih =>
    cases p with
    | done a => exact .refl _
    | request op next => exact .head _ (ih _)

theorem forall_mem_replay {answers : (op : S.Op) → S.Reply op} {P : Event S → Prop}
    (h : ∀ op, P ⟨op, answers op⟩) (n : Nat) (p : Program S α) :
    ∀ e ∈ (p.replay answers n).1, P e := by
  induction n generalizing p with
  | zero => exact fun e he => absurd he List.not_mem_nil
  | succ n ih =>
    cases p with
    | done a => exact fun e he => absurd he List.not_mem_nil
    | request op next =>
      intro e he
      rcases List.mem_cons.1 he with rfl | he
      · exact h op
      · exact ih _ e he

end Program

/-! ## A world that answers -/

section Answered

variable {S : Signature} {σ : Type} {handle : σ → Event S → σ → Prop}

/-- The world answers the operations of a trace, one after the other. -/
def Answered (handle : σ → Event S → σ → Prop) : σ → Trace S → σ → Prop
  | w, [], w' => w = w'
  | w, e :: es, w' => ∃ v, handle w e v ∧ Answered handle v es w'

/-- A world that answers in more ways. -/
theorem Answered.mono {handle' : σ → Event S → σ → Prop}
    (hmono : ∀ {w e w'}, handle w e w' → handle' w e w') {es : Trace S} {w w' : σ}
    (h : Answered handle w es w') : Answered handle' w es w' := by
  induction es generalizing w with
  | nil => exact h
  | cons e es ih =>
    obtain ⟨v, hv, h⟩ := h
    exact ⟨v, hmono hv, ih h⟩

end Answered

end Medea.Interaction
