import Medea.ControlPlane.Provisioning

/-!
# Contracts for passes among free clients

The rule for properties of the provisioning executor when nothing is asked of the programs that the
clients run, but only of the events of a run: a ghost state that holds the store, an outline of a pass
over it, an invariant, and a condition on the labels. What has to be checked is that the condition makes
the events of a pass admissible, that the events of the clients are a drift for the pass, and that a
crash leaves a place to start from. `Oversight.runs_inv` and `Oversight.runs_allowed` say what then
holds at the end of a run and at its events.
-/

set_option autoImplicit false

namespace Medea

open Medea.Interaction

/-- An outline of a pass, with what is assumed of runs and what holds in between. -/
structure Oversight (M : Type) where
  pass : Contract medeaSig M
  outline : Outline pass
  store : M → Store
  next : M → Act → M
  assumes : M → Act → Prop
  Inv : M → Prop
  next_start : ∀ {m i a}, next m (.start i a) = m
  next_pass : ∀ {m e}, pass.next m e = next m (.act .executor e)
  store_next : ∀ {m l}, store (next m l) = Act.after (store m) l
  admits : ∀ {m e}, assumes m (.act .executor e) → (store m).Reachable → Ev.Fits (store m) e →
    pass.admits m e
  allowed : ∀ {m e}, pass.allows m e → Inv (next m (.act .executor e))
  client : ∀ {m n e}, assumes m (.act (.client n) e) → Inv m →
    Inv (next m (.act (.client n) e)) ∧ pass.drift m (next m (.act (.client n) e))
  crash : ∀ {m}, assumes m .crash → Inv m →
    Inv (next m .crash) ∧ outline.holds .rest (next m .crash)

namespace Oversight

variable {M : Type} (V : Oversight M) (cfg : Settings)

def supervision : Supervision (provisioningPlane cfg) M where
  contract
    | .executor => V.pass
    | .client n => .free fun m e => V.next m (.act (.client n) e)
  mark := V.next
  assumes := V.assumes
  rel w m := w.store = V.store m ∧ (V.store m).Reachable ∧ V.Inv m
  idle
    | .executor, m => V.outline.holds .rest m
    | .client _, _ => True
  idle_drift {i m m'} h hd := by
    cases i with
    | executor => exact V.outline.drift h hd
    | client n => trivial
  admits {i e w w' m} hass hrel hw := by
    obtain ⟨hfit, -⟩ := World.handles_event hw
    rw [hrel.1] at hfit
    cases i with
    | executor => exact V.admits hass hrel.2.1 hfit
    | client n => trivial
  act {i e w w' m} hass hrel hw hall := by
    obtain ⟨hfit, hstore⟩ := World.handles_event hw
    rw [hrel.1] at hfit hstore
    have hafter : ∀ {j}, V.store (V.next m (.act j e)) = Ev.after (V.store m) e := V.store_next
    have hreach := hrel.2.1.after hfit
    cases i with
    | executor =>
      rw [V.next_pass, hafter]
      refine ⟨⟨hstore, hreach, V.allowed hall⟩, ?_⟩
      rintro (_ | k) hne
      · exact absurd rfl hne
      · trivial
    | client n =>
      obtain ⟨hinv, hdrift⟩ := V.client hass hrel.2.2
      refine ⟨?_, ?_⟩
      · show _ = V.store (V.next m _) ∧ (V.store (V.next m _)).Reachable ∧ _
        rw [hafter]
        exact ⟨hstore, hreach, hinv⟩
      · rintro (_ | k) -
        · exact hdrift
        · trivial
  start {i a w m} hmay _ hrel hidle := by
    rw [V.next_start]
    refine ⟨hrel, ?_, ?_⟩
    · cases i with
      | executor =>
        cases a with
        | pass =>
          exact (V.outline.runOnce_keeps cfg.provisioning hidle).bind fun _ _ h =>
            V.outline.stop h
        | _ => cases hmay
      | client n => exact Program.keeps_free _ _
    · rintro (_ | k) -
      · exact V.pass.drift_refl m
      · trivial
  crash {w m} hass hrel := by
    obtain ⟨hinv, hrest⟩ := V.crash hass hrel.2.2
    have hafter : V.store (V.next m .crash) = (V.store m).open := V.store_next
    rw [hafter]
    refine ⟨⟨congrArg Store.open hrel.1, hrel.2.1.reopen, hinv⟩, ?_⟩
    rintro (_ | n)
    · exact hrest
    · trivial

variable {cfg}

theorem track_eq (m : M) (l : Act) : (V.supervision cfg).track m l = V.next m l := by
  rcases l with ⟨i, a⟩ | ⟨_ | n, e⟩ | _
  · rfl
  · exact V.next_pass
  · rfl
  · rfl

section Runs

variable {m : M} {ls : List Act} {c : Scene}
  (hr : (provisioningPlane cfg).Runs (Scene.idle (V.store m)) ls c)
  (hs : (V.store m).Reachable) (hinv : V.Inv m) (hrest : V.outline.holds .rest m)
  (hass : Along V.next V.assumes m ls)
include hs hinv hrest

theorem inv_idle : (V.supervision cfg).Inv (Scene.idle (V.store m)) m := by
  refine Supervision.inv_idle _ ⟨rfl, hs, hinv⟩ ?_
  rintro (_ | n)
  · exact hrest
  · trivial

include hr hass

/-- The end of a run, and of its last pass if no pass is under way. -/
theorem runs_inv : c.world.store = V.store (ls.foldl V.next m) ∧
    (c.proc .executor = .done () → V.outline.holds .rest (ls.foldl V.next m)) := by
  obtain ⟨⟨hstore, -, -⟩, hkeeps⟩ := (V.supervision cfg).runs_inv V.track_eq hr
    (V.inv_idle hs hinv hrest) hass
  refine ⟨hstore, ?_⟩
  intro hdone
  have hend := hkeeps .executor
  rw [hdone] at hend
  exact hend.of_done

/-- The executor does what its contract allows. -/
theorem runs_allowed : ∀ l ∈ ls, ∀ e, l = .act .executor e → ∃ m, V.pass.allows m e := by
  refine ((V.supervision cfg).runs_obeys V.track_eq hr (V.inv_idle hs hinv hrest) hass).forall_mem ?_
  rintro m l hobeys e rfl
  exact ⟨m, hobeys⟩

end Runs

end Oversight

end Medea
