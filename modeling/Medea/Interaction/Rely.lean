import Medea.Interaction.System

/-!
# Rely and guarantee over worlds

A contract follows a run with a ghost state that is computed from the events. Where an event does not
determine what it has done (a write that reports an error may have happened or not) there is no such
ghost state, and assertions are made about the world itself. `Program.Sustains` is the corresponding
notion of correctness: between two operations the world moves as the program relies on, each operation
moves it as the program guarantees, and the result comes with a postcondition.

`System.RunsWith` are the runs whose steps all meet a condition on the worlds before and after them, and
`Accord` is the rule for them: one rely and one guarantee per process, such that what one process
guarantees is what the others rely on.
-/

set_option autoImplicit false

namespace Medea.Interaction

variable {S : Signature} {σ ι τ α β : Type}

/-- The moves of the world, what a program relies on and what it guarantees. -/
structure Protocol (S : Signature) (σ : Type) where
  handle : σ → Event S → σ → Prop
  /-- What the others may do to the world between two operations. -/
  rely : σ → σ → Prop
  /-- What an operation of the program does to the world. -/
  guarantee : σ → Event S → σ → Prop
  rely_refl : ∀ w, rely w w
  rely_trans : ∀ {a b c}, rely a b → rely b c → rely a c

namespace Program

/-- Started in the world `w`, the program moves the world as it guarantees and ends with `Q`. -/
def Sustains (P : Protocol S σ) (Q : α → σ → Prop) : Program S α → σ → Prop
  | .done a, w => ∀ w', P.rely w w' → Q a w'
  | .request op next, w => ∀ w₁, P.rely w w₁ → ∀ r w₂, P.handle w₁ ⟨op, r⟩ w₂ →
      P.guarantee w₁ ⟨op, r⟩ w₂ ∧ (next r).Sustains P Q w₂

variable {P : Protocol S σ} {Q : α → σ → Prop} {w : σ} {p : Program S α}

theorem Sustains.of_done {a : α} (h : (Program.done a : Program S α).Sustains P Q w) : Q a w :=
  h w (P.rely_refl w)

theorem Sustains.mono {R : α → σ → Prop} (hQR : ∀ a w, Q a w → R a w) (h : p.Sustains P Q w) :
    p.Sustains P R w := by
  induction p generalizing w with
  | done a => exact fun w' hw => hQR a w' (h w' hw)
  | request op next ih =>
    intro w1 hw r w2 hr
    obtain ⟨hg, hn⟩ := h w1 hw r w2 hr
    exact ⟨hg, ih r hn⟩

/-- What the others do before the first operation is harmless. -/
theorem Sustains.rely {w' : σ} (h : p.Sustains P Q w) (hw : P.rely w w') :
    p.Sustains P Q w' := by
  cases p with
  | done | request => exact fun w'' hw' => h w'' (P.rely_trans hw hw')

/-- Sequential composition. -/
theorem Sustains.bind {R : β → σ → Prop} {f : α → Program S β} {p : Program S α}
    (h : p.Sustains P Q w) (hf : ∀ a w, Q a w → (f a).Sustains P R w) :
    (p >>= f).Sustains P R w := by
  induction p generalizing w with
  | done a => exact hf a w h.of_done
  | request op next ih =>
    intro w1 hw r w2 hr
    obtain ⟨hg, hn⟩ := h w1 hw r w2 hr
    exact ⟨hg, ih r hn⟩

/-- One operation: an assertion that the others keep, and what follows from it. -/
theorem sustains_perform {J : σ → Prop} {op : S.Op} {next : S.Reply op → Program S α}
    (hJ : ∀ {w w'}, J w → P.rely w w' → J w') (hw : J w)
    (hnext : ∀ w1 r w2, J w1 → P.handle w1 ⟨op, r⟩ w2 →
      P.guarantee w1 ⟨op, r⟩ w2 ∧ (next r).Sustains P Q w2) :
    (perform op >>= next).Sustains P Q w :=
  fun w1 hw1 r w2 hr => hnext w1 r w2 (hJ hw hw1) hr

/-- A bound on the operations of a program, and an assertion that the others keep and that every
operation within the bound keeps as well. -/
theorem Within.sustains {allows : S.Op → Prop} {T : α → Prop} {J : σ → Prop}
    (hJ : ∀ {w w'}, J w → P.rely w w' → J w')
    (hstep : ∀ {w w'} {e : Event S}, J w → allows e.op → P.handle w e w' →
      P.guarantee w e w' ∧ J w') (hp : p.Within (fun _ => True) allows T) (hw : J w) :
    p.Sustains P (fun a w => T a ∧ J w) w := by
  induction p generalizing w with
  | done a => exact fun w' h => ⟨hp, hJ hw h⟩
  | request op next ih =>
    intro w1 h r w2 hr
    obtain ⟨hg, hw2⟩ := hstep (hJ hw h) hp.1 hr
    exact ⟨hg, ih r (hp.2 r trivial) hw2⟩

/-- A program of which nothing is asked. -/
theorem sustains_free (hg : ∀ w e w', P.guarantee w e w') (p : Program S α) :
    p.Sustains P (fun _ _ => True) w := by
  induction p generalizing w with
  | done a => exact fun _ _ => trivial
  | request op next ih => exact fun _ _ r _ _ => ⟨hg _ _ _, ih r⟩

end Program

variable [DecidableEq ι]

/-! ## Runs under a condition -/

namespace System

/-- A run whose steps all meet a condition on the label and on the worlds before and after. -/
def RunsWith (A : System S σ ι τ) (C : σ → Label S ι τ → σ → Prop) :
    Config S σ ι → List (Label S ι τ) → Config S σ ι → Prop
  | c, [], c' => c = c'
  | c, l :: ls, c' => ∃ d, A.Step c l d ∧ C c.world l d.world ∧ A.RunsWith C d ls c'

variable {A : System S σ ι τ} {C : σ → Label S ι τ → σ → Prop} {c c' : Config S σ ι}

theorem runsWith_append {ls ms : List (Label S ι τ)} :
    A.RunsWith C c (ls ++ ms) c' ↔ ∃ d, A.RunsWith C c ls d ∧ A.RunsWith C d ms c' := by
  induction ls generalizing c with
  | nil => simp [RunsWith]
  | cons l ls ih =>
    simp only [List.cons_append, RunsWith, ih]
    constructor
    · rintro ⟨d, hs, hC, e, h1, h2⟩
      exact ⟨e, ⟨d, hs, hC, h1⟩, h2⟩
    · rintro ⟨e, ⟨d, hs, hC, h1⟩, h2⟩
      exact ⟨d, hs, hC, e, h1, h2⟩

/-- What a program does when it is alone, event by event. -/
def Moves (handle : σ → Event S → σ → Prop) :
    Program S Unit → σ → Trace S → Program S Unit → σ → Prop
  | p, w, [], q, w' => p = q ∧ w = w'
  | p, w, e :: es, q, w' => ∃ next v, p = .request e.op next ∧ handle w e v ∧
      Moves handle (next e.reply) v es q w'

theorem Moves.runsWith {i : ι} (hC : ∀ w e w', C w (.act i e) w') {q : Program S Unit} {t : Trace S}
    {w : σ} (h : Moves A.handle (c.proc i) c.world t q w) :
    A.RunsWith C c (t.map (.act i)) ⟨w, Function.update c.proc i q⟩ := by
  induction t generalizing c with
  | nil =>
    obtain ⟨rfl, rfl⟩ := h
    rw [Function.update_eq_self]
    rfl
  | cons e t ih =>
    obtain ⟨next, v, hp, hv, hrest⟩ := h
    refine ⟨_, .act hp hv, hC _ _ _, ?_⟩
    have hproc : Moves A.handle (Function.update c.proc i (next e.reply) i) v t q w := by
      rwa [Function.update_self]
    have hrun := ih (c := ⟨v, Function.update c.proc i (next e.reply)⟩) hproc
    rwa [Function.update_idem] at hrun

/-- A task, run by one process while the others are idle. -/
theorem runsWith_task {i : ι} {t : τ} {w : σ} (hmay : A.may i t) (hstart : C w (.start i t) w)
    (hC : ∀ w e w', C w (.act i e) w') {q : Program S Unit} {tr : Trace S} {w' : σ}
    (h : Moves A.handle (A.task t) w tr q w') :
    ∃ c', A.RunsWith C (Config.idle S ι w) (.start i t :: tr.map (.act i)) c' ∧ c'.world = w' := by
  have hproc : Moves A.handle
      (Function.update (Config.idle S ι w).proc i (A.task t) i) w tr q w' := by
    rwa [Function.update_self]
  exact ⟨_, ⟨_, .start rfl hmay, hstart,
    Moves.runsWith hC (c := ⟨w, Function.update (Config.idle S ι w).proc i (A.task t)⟩) hproc⟩, rfl⟩

end System

/-! ## Accords -/

/-- What is assumed of the steps of a run, and what the processes rely on and guarantee. -/
structure Terms (S : Signature) (σ ι τ : Type) where
  inv : σ → Prop
  assumes : σ → Label S ι τ → σ → Prop
  rely : ι → σ → σ → Prop
  guarantee : ι → σ → Event S → σ → Prop
  /-- The worlds in which a process may be idle. -/
  idle : ι → σ → Prop
  rely_refl : ∀ i w, rely i w w
  rely_trans : ∀ {i a b c}, rely i a b → rely i b c → rely i a c

/-- The protocol of a process; it may use the invariant and what is assumed of its steps. -/
def Terms.protocol (V : Terms S σ ι τ) (handle : σ → Event S → σ → Prop) (i : ι) :
    Protocol S σ where
  handle w e w' := V.inv w ∧ V.assumes w (.act i e) w' ∧ handle w e w'
  rely := V.rely i
  guarantee := V.guarantee i
  rely_refl := V.rely_refl i
  rely_trans := V.rely_trans

/-- Terms on which the processes of a system get along. -/
structure Accord (A : System S σ ι τ) extends Terms S σ ι τ where
  idle_rely : ∀ {i w w'}, idle i w → rely i w w' → idle i w'
  act : ∀ {i e w w'}, inv w → assumes w (.act i e) w' → A.handle w e w' → guarantee i w e w' →
    inv w' ∧ ∀ j, j ≠ i → rely j w w'
  start : ∀ {i t w}, A.may i t → inv w → assumes w (.start i t) w → idle i w →
    (A.task t).Sustains (toTerms.protocol A.handle i) (fun _ => idle i) w
  crash : ∀ {w}, inv w → assumes w .crash (A.restart w) →
    inv (A.restart w) ∧ ∀ i, idle i (A.restart w)

namespace Accord

variable {A : System S σ ι τ} (V : Accord A)

/-- The invariant holds and every process sustains what is left of its program. -/
def Inv (c : Config S σ ι) : Prop :=
  V.inv c.world ∧
    ∀ i, (c.proc i).Sustains (V.protocol A.handle i) (fun _ => V.idle i) c.world

/-- What is known of a step. -/
def Obeys (w : σ) : Label S ι τ → σ → Prop
  | .start i t, w' => w' = w ∧ V.inv w ∧ V.assumes w (.start i t) w'
  | .act i e, w' => V.inv w ∧ V.assumes w (.act i e) w' ∧ A.handle w e w' ∧ V.guarantee i w e w'
  | .crash, w' => w' = A.restart w ∧ V.inv w ∧ V.assumes w .crash w'

omit [DecidableEq ι] in
theorem inv_idle {w : σ} (hinv : V.inv w) (hidle : ∀ i, V.idle i w) :
    V.Inv (Config.idle S ι w) :=
  ⟨hinv, fun i _ hw => V.idle_rely (hidle i) hw⟩

theorem step_inv {c c' : Config S σ ι} {l : Label S ι τ} (hi : V.Inv c) (hs : A.Step c l c')
    (ha : V.assumes c.world l c'.world) : V.Obeys c.world l c'.world ∧ V.Inv c' := by
  obtain ⟨hinv, hsus⟩ := hi
  cases hs with
  | @start i t hdone hmay =>
    have hidle : V.idle i c.world := by
      have h := hsus i
      rw [hdone] at h
      exact h.of_done
    have htask := V.start hmay hinv ha hidle
    exact ⟨⟨rfl, hinv, ha⟩, hinv, (Function.forall_update_iff c.proc fun j p =>
      p.Sustains (V.protocol A.handle j) _ _).2 ⟨htask, fun j _ => hsus j⟩⟩
  | @act i op next r w hreq hw =>
    have h := hsus i
    rw [hreq] at h
    obtain ⟨hg, hnext⟩ := h c.world (V.rely_refl i _) r w ⟨hinv, ha, hw⟩
    obtain ⟨hinv', hrely⟩ := V.act hinv ha hw hg
    exact ⟨⟨hinv, ha, hw, hg⟩, hinv', (Function.forall_update_iff c.proc fun j p =>
      p.Sustains (V.protocol A.handle j) _ _).2 ⟨hnext, fun j hj => (hsus j).rely (hrely j hj)⟩⟩
  | crash =>
    obtain ⟨hinv', hidle⟩ := V.crash hinv ha
    exact ⟨⟨rfl, hinv, ha⟩, hinv', fun i _ hw => V.idle_rely (hidle i) hw⟩

/-- Along a run under the assumptions the invariant holds, and a relation on worlds that every step
keeps, and that composes, relates its start to its end. -/
theorem runs_inv {R : σ → σ → Prop} (hrefl : ∀ w, R w w) (htrans : ∀ {a b c}, R a b → R b c → R a c)
    (hstep : ∀ {w l w'}, V.Obeys w l w' → R w w') {c c' : Config S σ ι} {ls : List (Label S ι τ)}
    (hr : A.RunsWith V.assumes c ls c') (hi : V.Inv c) : V.Inv c' ∧ R c.world c'.world := by
  induction ls generalizing c with
  | nil =>
    cases hr
    exact ⟨hi, hrefl _⟩
  | cons l ls ih =>
    obtain ⟨d, hs, ha, hr⟩ := hr
    obtain ⟨hob, hd⟩ := V.step_inv hi hs ha
    obtain ⟨hc', hR⟩ := ih hr hd
    exact ⟨hc', htrans (hstep hob) hR⟩

end Accord

end Medea.Interaction
