import Medea.Provision.Facility

/-!
# The calls of the bootstrap reconciler

A call of `Reconcile` reads the record of the bring-up, looks around, and then makes one step. The rule for
such a call leaves what is special about each phase.
-/

set_option autoImplicit false

namespace Medea

open Medea.Interaction

namespace BootstrapReconciler

section Reconcile

variable {P : Protocol medeaSig Facility} {cluster : String} {J : ClusterBootstrap → Facility → Prop}

/-- Rule for a call: `J` holds of the record once it is read, and is kept by the others and by looking
around; what is left are the steps of the phases that are not over. -/
theorem reconcile_sustains (r : BootstrapReconciler)
    (hread : ∀ {w w' rep}, P.handle w (ev (.store (.getClusterBootstrap cluster)) rep) w' →
      P.guarantee w (ev (.store (.getClusterBootstrap cluster)) rep) w' ∧
        ∀ cb, rep = .ok (some cb) → J cb w')
    (hrely : ∀ {cb w w'}, J cb w → P.rely w w' → J cb w')
    (hpassive : ∀ {cb w w'} {e : Ev}, J cb w → e.op.passive = true → P.handle w e w' →
      P.guarantee w e w' ∧ J cb w')
    (hfail : ∀ {cb w}, J cb w → terminal cb.phase = false →
      (put cb .failed "bootstrap timed out").Sustains P (fun _ _ => True) w)
    (hadvance : ∀ {cb w}, J cb w → terminal cb.phase = false →
      (r.advance cb).Sustains P (fun _ _ => True) w) (w : Facility) :
    (discard (r.reconcile cluster)).Sustains P (fun _ _ => True) w := by
  have hall : (r.reconcile cluster).Sustains P (fun _ _ => True) w := by
    intro w1 _ rep w2 hw
    obtain ⟨hg, hJ⟩ := hread hw
    refine ⟨hg, ?_⟩
    rcases rep with e | _ | cb
    · exact fun _ _ => trivial
    · exact fun _ _ => trivial
    show Program.Sustains P _ (if terminal cb.phase = true then _ else _) w2
    split
    next => exact fun _ _ => trivial
    next hopen =>
      rw [Bool.not_eq_true] at hopen
      have htime : (r.timedOut cb).Sustains P (fun _ w => True ∧ J cb w) w2 :=
        (timedOut_does (fun _ h => h) r).sustains hrely hpassive (hJ cb rfl)
      refine htime.bind ?_
      rintro (_ | _) w3 ⟨-, hw3⟩
      · exact hadvance hw3 hopen
      · exact hfail hw3 hopen
  exact hall.bind fun _ _ _ _ _ => trivial

end Reconcile

end BootstrapReconciler

/-! ## Runs -/

/-- An invariant of the bring-up of a cluster: what is assumed of the steps, what the reconciler relies
on and guarantees, and what has to be checked. -/
structure Upkeep (r : BootstrapReconciler) (cluster : String) where
  inv : Facility → Prop
  cond : Facility → Stint → Facility → Prop
  rely : Facility → Facility → Prop
  guarantee : Facility → Ev → Facility → Prop
  rely_refl : ∀ w, rely w w
  rely_trans : ∀ {a b c}, rely a b → rely b c → rely a c
  own : ∀ {w w' e}, inv w → w.handles e w' → guarantee w e w' → inv w'
  others : ∀ {w w' n e}, inv w → cond w (.act (.other n) e) w' → w.handles e w' → inv w' ∧ rely w w'
  crash : ∀ {w}, inv w → inv { w with store := w.store.open }
  call : ∀ w, (discard (r.reconcile cluster)).Sustains
    { handle := fun w e w' => (w.store.Reachable ∧ inv w) ∧ cond w (.act .reconciler e) w' ∧
        w.handles e w'
      rely, guarantee, rely_refl, rely_trans } (fun _ _ => True) w

namespace Upkeep

variable {r : BootstrapReconciler} {cluster : String} (U : Upkeep r cluster)

def accord : Accord (bringUp r cluster) where
  inv w := w.store.Reachable ∧ U.inv w
  assumes := U.cond
  rely
    | .reconciler => U.rely
    | .other _ => fun _ _ => True
  guarantee
    | .reconciler => U.guarantee
    | .other _ => fun _ _ _ => True
  idle _ _ := True
  rely_refl i w := by
    cases i with
    | reconciler => exact U.rely_refl w
    | other n => trivial
  rely_trans {i} := by
    cases i with
    | reconciler => exact U.rely_trans
    | other n => exact fun _ _ => trivial
  idle_rely _ _ := trivial
  act {i e w w'} hinv hcond hw hg := by
    have hreach : w'.store.Reachable := by
      obtain ⟨hfit, hstore⟩ := (Facility.moved hw).store
      rw [hstore]
      exact hinv.1.after hfit
    cases i with
    | reconciler =>
      refine ⟨⟨hreach, U.own hinv.2 hw hg⟩, ?_⟩
      rintro (_ | n) hne
      · exact absurd rfl hne
      · trivial
    | other n =>
      obtain ⟨hinv', hrely⟩ := U.others hinv.2 hcond hw
      refine ⟨⟨hreach, hinv'⟩, ?_⟩
      rintro (_ | m) -
      · exact hrely
      · trivial
  start {i t w} hmay _ _ _ := by
    cases i with
    | reconciler =>
      cases t with
      | reconcile => exact U.call w
      | issue op => cases hmay
    | other n => exact Program.sustains_free (fun _ _ _ => trivial) _
  crash {w} hinv _ := ⟨⟨hinv.1.reopen, U.crash hinv.2⟩, fun _ => trivial⟩

variable {s : Facility} {ls : List Stint} {c : Config medeaSig Facility Hand}

theorem inv_start (hs : s.store.Reachable) (hinv : U.inv s) :
    U.accord.Inv (Config.idle medeaSig Hand s) :=
  U.accord.inv_idle ⟨hs, hinv⟩ fun _ => trivial

/-- The invariant holds at the end of every run whose steps meet the condition. -/
theorem runs_inv (hs : s.store.Reachable) (hinv : U.inv s)
    (hr : (bringUp r cluster).RunsWith U.cond (Config.idle medeaSig Hand s) ls c) :
    c.world.store.Reachable ∧ U.inv c.world :=
  (U.accord.runs_inv (R := fun _ _ => True) (fun _ => trivial) (fun _ _ => trivial)
    (fun _ => trivial) hr (U.inv_start hs hinv)).1.1

/-- A relation that the reconciler guarantees and the others keep relates any two states of a run. -/
theorem runs_rel {R : Facility → Facility → Prop} (hrefl : ∀ w, R w w)
    (htrans : ∀ {a b c}, R a b → R b c → R a c)
    (hown : ∀ {w w' e}, U.inv w → w.handles e w' → U.guarantee w e w' → R w w')
    (hothers : ∀ {w w' n e}, U.inv w → U.cond w (.act (.other n) e) w' → w.handles e w' → R w w')
    (hcrash : ∀ {w}, R w { w with store := w.store.open }) (hs : s.store.Reachable) (hinv : U.inv s)
    {ls' : List Stint} {c' : Config medeaSig Facility Hand}
    (hr : (bringUp r cluster).RunsWith U.cond (Config.idle medeaSig Hand s) ls c)
    (hr' : (bringUp r cluster).RunsWith U.cond c ls' c') : R c.world c'.world := by
  have hstep : ∀ {w l w'}, U.accord.Obeys w l w' → R w w' := by
    rintro w l w' hob
    rcases l with ⟨i, t⟩ | ⟨_ | n, e⟩ | _
    · obtain ⟨rfl, -⟩ := hob
      exact hrefl _
    · obtain ⟨hinv, -, hw, hg⟩ := hob
      exact hown hinv.2 hw hg
    · obtain ⟨hinv, hcond, hw, -⟩ := hob
      exact hothers hinv.2 hcond hw
    · obtain ⟨rfl, -⟩ := hob
      exact hcrash
  obtain ⟨hmid, -⟩ := U.accord.runs_inv (R := fun _ _ => True) (fun _ => trivial)
    (fun _ _ => trivial) (fun _ => trivial) hr (U.inv_start hs hinv)
  exact (U.accord.runs_inv hrefl htrans hstep hr' hmid).2

end Upkeep

end Medea
