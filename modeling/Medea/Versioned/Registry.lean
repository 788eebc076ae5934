import Mathlib.Logic.Function.Basic

/-!
# Registries with one revision counter

A registry maps keys to values, and every value carries the revision at which it was written. One
counter is shared by all keys. A move writes one value, drops any set of keys, or does nothing; writes
and drops raise the counter by one.

What follows from the counter alone: no two entries carry the same revision (`Sound`), and in a run a
revision stands for one entry for all time. An entry that carries a revision was put there by the one
write that raised the counter to it, and has been there ever since (`Run.origin`). In particular a
value that is dropped and written again comes back with another revision.
-/

set_option autoImplicit false

namespace Medea.Versioned

/-- Values with the revisions they were written at, and the counter. -/
structure Registry (K V : Type) where
  counter : Nat := 0
  entry : K → Option (Nat × V) := fun _ => none

/-- What can happen to a registry. -/
inductive Move (K V : Type) where
  | put (k : K) (v : V)
  | drop (gone : K → Bool)
  | skip

/-- The move writes or drops the key. -/
def Move.Touches {K V : Type} : Move K V → K → Prop
  | .put k' _, k => k' = k
  | .drop gone, k => gone k = true
  | .skip, _ => False

namespace Registry

variable {K V : Type} [DecidableEq K]

def apply (R : Registry K V) : Move K V → Registry K V
  | .put k v => ⟨R.counter + 1, Function.update R.entry k (some (R.counter + 1, v))⟩
  | .drop gone => ⟨R.counter + 1, fun k => if gone k then none else R.entry k⟩
  | .skip => R

/-- Revisions lie below the counter, and no two entries share one. -/
structure Sound (R : Registry K V) : Prop where
  pos : ∀ {k r v}, R.entry k = some (r, v) → 0 < r
  le : ∀ {k r v}, R.entry k = some (r, v) → r ≤ R.counter
  unique : ∀ {k k' r v v'}, R.entry k = some (r, v) → R.entry k' = some (r, v') → k = k'

variable {R : Registry K V} {m : Move K V} {k : K} {r : Nat} {v : V}

theorem counter_le_apply : R.counter ≤ (R.apply m).counter := by
  cases m with
  | put | drop => exact Nat.le_succ _
  | skip => exact Nat.le_refl _

/-- An entry was there before the move, or the move has written it. -/
theorem entry_apply (h : (R.apply m).entry k = some (r, v)) :
    R.entry k = some (r, v) ∨ m = .put k v ∧ r = R.counter + 1 := by
  cases m with
  | put k' v' =>
    by_cases hk : k = k'
    · subst hk
      simp only [apply, Function.update_self] at h
      cases h
      exact Or.inr ⟨rfl, rfl⟩
    · simp only [apply, Function.update_of_ne hk] at h
      exact Or.inl h
  | drop gone =>
    simp only [apply] at h
    split at h
    · cases h
    · exact Or.inl h
  | skip => exact Or.inl h

/-- A key that a move does not touch keeps its entry. -/
theorem entry_apply_of_not_touches (h : ¬m.Touches k) : (R.apply m).entry k = R.entry k := by
  cases m with
  | put k' v => exact Function.update_of_ne (fun he => h he.symm) ..
  | drop gone => exact if_neg h
  | skip => rfl

omit [DecidableEq K] in
theorem sound_empty : Sound ({} : Registry K V) where
  pos h := nomatch h
  le h := nomatch h
  unique h := nomatch h

theorem Sound.apply (h : R.Sound) (m : Move K V) : (R.apply m).Sound where
  pos {k r v} he := by
    rcases entry_apply he with he | ⟨_, rfl⟩
    · exact h.pos he
    · exact Nat.succ_pos _
  le {k r v} he := by
    rcases entry_apply he with he | ⟨rfl, rfl⟩
    · exact Nat.le_trans (h.le he) counter_le_apply
    · exact Nat.le_refl _
  unique {k k' r v v'} he he' := by
    -- a new entry carries a revision above all that were there
    rcases entry_apply he with he | ⟨hm, rfl⟩
    · rcases entry_apply he' with he' | ⟨_, rfl⟩
      · exact h.unique he he'
      · have := h.le he
        omega
    · rcases entry_apply he' with he' | ⟨hm', _⟩
      · have := h.le he'
        omega
      · rw [hm] at hm'
        cases hm'
        rfl

end Registry

/-! ## Runs -/

/-- A run: a registry for every point in time, from the empty one on, and the moves between them. -/
structure Run {K V : Type} [DecidableEq K] (R : Nat → Registry K V) (m : Nat → Move K V) : Prop where
  start : R 0 = {}
  step : ∀ n, R (n + 1) = (R n).apply (m n)

namespace Run

variable {K V : Type} [DecidableEq K] {R : Nat → Registry K V} {m : Nat → Move K V}
  {k k' : K} {r : Nat} {v v' : V} {i j n : Nat}

theorem sound (h : Run R m) (n : Nat) : (R n).Sound := by
  induction n with
  | zero =>
    rw [h.start]
    exact Registry.sound_empty
  | succ n ih =>
    rw [h.step]
    exact ih.apply (m n)

theorem counter_mono (h : Run R m) (hij : i ≤ j) : (R i).counter ≤ (R j).counter := by
  induction hij with
  | refl => exact Nat.le_refl _
  | step _ ih =>
    rw [h.step]
    exact Nat.le_trans ih Registry.counter_le_apply

/-- An entry whose revision had been reached at some time was there at that time. -/
theorem there_before (h : Run R m) (hij : i ≤ j) (he : (R j).entry k = some (r, v))
    (hr : r ≤ (R i).counter) : (R i).entry k = some (r, v) := by
  induction hij with
  | refl => exact he
  | step hij ih =>
    rw [h.step] at he
    rcases Registry.entry_apply he with he | ⟨_, rfl⟩
    · exact ih he
    · have := h.counter_mono hij
      omega

/-- A revision stands for one entry, whenever it is looked at. -/
theorem entry_unique (h : Run R m) (he : (R i).entry k = some (r, v))
    (he' : (R j).entry k' = some (r, v')) : k = k' ∧ v = v' := by
  rcases Nat.le_total i j with hij | hji
  · have hback := h.there_before hij he' ((h.sound i).le he)
    obtain rfl := (h.sound i).unique he hback
    rw [he] at hback
    cases hback
    exact ⟨rfl, rfl⟩
  · have hback := h.there_before hji he ((h.sound j).le he')
    obtain rfl := (h.sound j).unique hback he'
    rw [he'] at hback
    cases hback
    exact ⟨rfl, rfl⟩

/-- Every entry goes back to the one write that raised the counter to its revision, and has been
there since. -/
theorem origin (h : Run R m) (he : (R n).entry k = some (r, v)) :
    ∃ i < n, m i = .put k v ∧ (R i).counter + 1 = r ∧
      ∀ j, i < j → j ≤ n → (R j).entry k = some (r, v) := by
  induction n with
  | zero =>
    rw [h.start] at he
    cases he
  | succ n ih =>
    have hnow := he
    rw [h.step] at he
    rcases Registry.entry_apply he with he | ⟨hm, rfl⟩
    · obtain ⟨i, hin, hput, hr, hsince⟩ := ih he
      refine ⟨i, by omega, hput, hr, ?_⟩
      intro j hij hj
      rcases Nat.lt_or_eq_of_le hj with hlt | rfl
      · exact hsince j hij (by omega)
      · exact hnow
    · refine ⟨n, by omega, hm, rfl, ?_⟩
      intro j hnj hj
      obtain rfl : j = n + 1 := by omega
      exact hnow

end Run

end Medea.Versioned
