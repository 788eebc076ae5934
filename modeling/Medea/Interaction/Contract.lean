import Medea.Interaction.Program

/-!
# Contracts: pre- and postconditions for programs with interference

A contract fixes a ghost state, how an event changes it, which events the world can produce
(`admits`), which events a program may cause (`allows`), and how other programs may move the ghost
state between two events (`drift`). `Program.Keeps` says that a program started in a ghost state
causes only allowed events and ends in a postcondition, for every admitted reply and every drift.

`Program.keeps_bind` is the rule of sequential composition and `Program.Keeps.drift` the stability
rule. `Program.Keeps.steps` is soundness for traces: along a trace whose events are admitted every
event is allowed. `Along` states a property of every element of a list together with the ghost
state in which it occurs.
-/

set_option autoImplicit false

namespace Medea.Interaction

/-! ## Properties along a list -/

section Along

variable {M E : Type} (next : M → E → M)

/-- `P` holds of every element of the list at the state reached just before it. -/
def Along (P : M → E → Prop) : M → List E → Prop
  | _, [] => True
  | m, e :: es => P m e ∧ Along P (next m e) es

variable {next} {P Q : M → E → Prop} {m : M} {es : List E} {e : E}

/-- Whether a property holds along a given list can be decided. -/
def Along.decide [∀ m e, Decidable (P m e)] : (m : M) → (es : List E) → Decidable (Along next P m es)
  | _, [] => .isTrue trivial
  | m, e :: es =>
    have : Decidable (Along next P (next m e) es) := Along.decide (next m e) es
    inferInstanceAs (Decidable (P m e ∧ Along next P (next m e) es))

instance [∀ m e, Decidable (P m e)] (es : List E) : Decidable (Along next P m es) :=
  Along.decide m es

@[simp] theorem along_nil : Along next P m [] := trivial

@[simp] theorem along_cons :
    Along next P m (e :: es) ↔ P m e ∧ Along next P (next m e) es := Iff.rfl

theorem Along.mono (hPQ : ∀ m e, P m e → Q m e) (h : Along next P m es) :
    Along next Q m es := by
  induction es generalizing m with
  | nil => trivial
  | cons e es ih => exact ⟨hPQ m e h.1, ih h.2⟩

theorem Along.forall_mem {R : E → Prop} (hPR : ∀ m e, P m e → R e) (h : Along next P m es) :
    ∀ e ∈ es, R e := by
  induction es generalizing m with
  | nil => exact fun e he => absurd he List.not_mem_nil
  | cons e es ih =>
    intro f hf
    rcases List.mem_cons.1 hf with rfl | hf
    · exact hPR m f h.1
    · exact ih h.2 f hf

theorem along_append {es fs : List E} :
    Along next P m (es ++ fs) ↔ Along next P m es ∧ Along next P (es.foldl next m) fs := by
  induction es generalizing m with
  | nil => simp
  | cons e es ih => simp [ih, and_assoc]

/-- The property at one element of the list. -/
theorem Along.at_split {es pre post : List E} (h : Along next P m es) (hes : es = pre ++ e :: post) :
    P (pre.foldl next m) e := by
  subst hes
  exact (along_append.1 h).2.1

/-- The property at one position of the list. -/
theorem Along.at_index {n : Nat} (h : Along next P m es) (he : es[n]? = some e) :
    P ((es.take n).foldl next m) e := by
  obtain ⟨hn, rfl⟩ := List.getElem?_eq_some_iff.1 he
  have hsplit : es = es.take n ++ es[n] :: es.drop (n + 1) := by
    rw [← List.drop_eq_getElem_cons hn, List.take_append_drop]
  exact h.at_split hsplit

/-- The state at a position, from an earlier position on. -/
theorem foldl_take_of_lt {i j : Nat} (hij : i < j) (he : es[i]? = some e) :
    (es.take j).foldl next m =
      ((es.take j).drop (i + 1)).foldl next (next ((es.take i).foldl next m) e) := by
  have hi : i < (es.take j).length := by
    have := (List.getElem?_eq_some_iff.1 he).1
    rw [List.length_take]
    omega
  have hget : (es.take j)[i] = e := by
    rw [List.getElem_take]
    exact (List.getElem?_eq_some_iff.1 he).2
  have hsplit : es.take j = es.take i ++ e :: (es.take j).drop (i + 1) :=
    calc es.take j = (es.take j).take i ++ (es.take j).drop i := (List.take_append_drop _ _).symm
      _ = _ := by
        rw [List.drop_eq_getElem_cons hi, hget, List.take_take, Nat.min_eq_left (Nat.le_of_lt hij)]
  conv_lhs => rw [hsplit]
  rw [List.foldl_append, List.foldl_cons]

/-- What lies between two positions has a position between them. -/
theorem getElem?_of_mem_between {i j : Nat} (h : e ∈ (es.take j).drop (i + 1)) :
    ∃ n, i < n ∧ n < j ∧ es[n]? = some e := by
  obtain ⟨n, hn⟩ := List.getElem?_of_mem h
  rw [List.getElem?_drop] at hn
  have hlt : i + 1 + n < j := by
    have := (List.getElem?_eq_some_iff.1 hn).1
    rw [List.length_take] at this
    omega
  rw [List.getElem?_take_of_lt hlt] at hn
  exact ⟨i + 1 + n, by omega, hlt, hn⟩

theorem along_of_split (h : ∀ pre e post, es = pre ++ e :: post → P (pre.foldl next m) e) :
    Along next P m es := by
  induction es generalizing m with
  | nil => trivial
  | cons e es ih =>
    refine ⟨h [] e es rfl, ih fun pre f post hes => ?_⟩
    exact h (e :: pre) f post (by rw [hes]; rfl)

/-- The elements before a position, as a state. -/
theorem foldl_snoc (es fs : List E) : es.foldl (fun past e => past ++ [e]) fs = fs ++ es := by
  induction es generalizing fs with
  | nil => simp
  | cons e es ih => rw [List.foldl_cons, ih, List.append_assoc, List.singleton_append]

/-- With the elements before a position as its state, a property holds along a list if it holds at
every position. -/
theorem along_snoc {R : List E → E → Prop} {past es : List E} :
    Along (fun past e => past ++ [e]) R past es ↔
      ∀ n e, es[n]? = some e → R (past ++ es.take n) e := by
  constructor
  · intro h n e he
    have hat := h.at_index he
    rwa [foldl_snoc] at hat
  · intro h
    refine along_of_split fun pre e post hes => ?_
    rw [foldl_snoc]
    have hat := h pre.length e (by rw [hes]; simp)
    rwa [hes, List.take_left'] at hat
    rfl

end Along

/-! ## Contracts -/

/-- Ghost state, admitted replies, allowed events, and interference. -/
structure Contract (S : Signature) (M : Type) where
  /-- What other programs may do to the ghost state between two events. -/
  drift : M → M → Prop
  /-- Events the world can produce. -/
  admits : M → Event S → Prop
  /-- Events the program may cause. -/
  allows : M → Event S → Prop
  /-- The ghost state after an event. -/
  next : M → Event S → M
  drift_refl : ∀ m, drift m m
  drift_trans : ∀ {a b c}, drift a b → drift b c → drift a c

/-- A contract whose ghost state only the program itself moves. -/
def Contract.quiet {S : Signature} {M : Type} (admits allows : M → Event S → Prop)
    (next : M → Event S → M) : Contract S M where
  drift := Eq
  admits := admits
  allows := allows
  next := next
  drift_refl := fun _ => rfl
  drift_trans := Eq.trans

/-- The contract of those who may do anything at any time. -/
def Contract.free {S : Signature} {M : Type} (next : M → Event S → M) : Contract S M where
  drift _ _ := True
  admits _ _ := True
  allows _ _ := True
  next := next
  drift_refl := fun _ => trivial
  drift_trans := fun _ _ => trivial

namespace Program

variable {S : Signature} {M α β : Type} {K : Contract S M} {Q : α → M → Prop} {p : Program S α} {m : M}

/-- Started in the ghost state `m`, the program causes only allowed events and ends with `Q`. -/
def Keeps (K : Contract S M) (Q : α → M → Prop) : Program S α → M → Prop
  | .done a, m => ∀ m', K.drift m m' → Q a m'
  | .request op next, m => ∀ m', K.drift m m' → ∀ r, K.admits m' ⟨op, r⟩ →
      K.allows m' ⟨op, r⟩ ∧ (next r).Keeps K Q (K.next m' ⟨op, r⟩)

theorem Keeps.of_done {a : α} (h : (Program.done a : Program S α).Keeps K Q m) :
    Q a m := h m (K.drift_refl m)

theorem Keeps.mono {Q R : α → M → Prop} (h : ∀ a m, Q a m → R a m) (hp : p.Keeps K Q m) :
    p.Keeps K R m := by
  induction p generalizing m with
  | done a => exact fun m' hm => h a m' (hp m' hm)
  | request op next ih =>
    intro m' hm r hr
    obtain ⟨hg, hn⟩ := hp m' hm r hr
    exact ⟨hg, ih r hn⟩

/-- Interference before the first event is harmless. -/
theorem Keeps.drift {m m' : M} (hp : p.Keeps K Q m) (hm : K.drift m m') :
    p.Keeps K Q m' := by
  cases p with
  | done | request => exact fun m'' h => hp m'' (K.drift_trans hm h)

/-- Sequential composition: the first part ends where the second may start. -/
theorem keeps_bind {Q : β → M → Prop} {f : α → Program S β}
    (hp : p.Keeps K (fun a m => (f a).Keeps K Q m) m) : (p >>= f).Keeps K Q m := by
  induction p generalizing m with
  | done a => exact hp.of_done
  | request op next ih =>
    intro m' hm r hr
    obtain ⟨hg, hn⟩ := hp m' hm r hr
    exact ⟨hg, ih r hn⟩

/-- Sequential composition through a stated intermediate condition. -/
theorem Keeps.bind {Q : β → M → Prop} {R : α → M → Prop} {f : α → Program S β} {p : Program S α}
    {m : M} (hp : p.Keeps K R m) (hf : ∀ a m, R a m → (f a).Keeps K Q m) :
    (p >>= f).Keeps K Q m := keeps_bind (hp.mono hf)

theorem keeps_free {next : M → Event S → M} (p : Program S α) (m : M) :
    p.Keeps (.free next) (fun _ _ => True) m := by
  induction p generalizing m with
  | done a => exact fun _ _ => trivial
  | request op k ih => exact fun _ _ r _ => ⟨trivial, ih r _⟩

section Quiet

variable {admits allows : M → Event S → Prop} {next : M → Event S → M}

@[simp] theorem keeps_quiet_done {a : α} :
    (Program.done a : Program S α).Keeps (.quiet admits allows next) Q m ↔ Q a m :=
  ⟨fun h => h m rfl, fun h _ hm => hm ▸ h⟩

@[simp] theorem keeps_quiet_request {op : S.Op} {k : S.Reply op → Program S α} :
    (Program.request op k).Keeps (.quiet admits allows next) Q m ↔
      ∀ r, admits m ⟨op, r⟩ → allows m ⟨op, r⟩ ∧
        (k r).Keeps (.quiet admits allows next) Q (next m ⟨op, r⟩) :=
  ⟨fun h r hr => h m rfl r hr, fun h _ hm r hr => hm ▸ h r (hm ▸ hr)⟩

end Quiet

/-- A contract on a part of the ghost state is a contract on the whole of it. -/
theorem Keeps.of_part {M' : Type} {K' : Contract S M'} (part : M' → M)
    (hdrift : ∀ {m m'}, K'.drift m m' → K.drift (part m) (part m'))
    (hadmits : ∀ {m e}, K'.admits m e → K.admits (part m) e)
    (hallows : ∀ {m e}, K.allows (part m) e → K'.allows m e)
    (hnext : ∀ m e, part (K'.next m e) = K.next (part m) e) {m : M'} (hp : p.Keeps K Q (part m)) :
    p.Keeps K' (fun a m => Q a (part m)) m := by
  induction p generalizing m with
  | done a => exact fun m' h => hp (part m') (hdrift h)
  | request op next ih =>
    intro m' h r hr
    obtain ⟨hall, hn⟩ := hp (part m') (hdrift h) r (hadmits hr)
    exact ⟨hallows hall, ih r (hnext m' ⟨op, r⟩ ▸ hn)⟩

/-- A bound on the operations of a program gives a contract for an assertion `J` that every operation
within the bound is allowed in, and keeps. -/
theorem Within.steady {reads : Event S → Prop} {allows : S.Op → Prop} {Q : α → Prop} {J : M → Prop}
    (hdrift : ∀ {m m'}, J m → K.drift m m' → J m')
    (hstep : ∀ {m} {e : Event S}, J m → allows e.op → K.admits m e →
      reads e ∧ K.allows m e ∧ J (K.next m e)) (hp : p.Within reads allows Q) (hm : J m) :
    p.Keeps K (fun a m => Q a ∧ J m) m := by
  induction p generalizing m with
  | done a => exact fun m' h => ⟨hp, hdrift hm h⟩
  | request op next ih =>
    intro m' h r hr
    obtain ⟨hread, hall, hnext⟩ := hstep (hdrift hm h) hp.1 hr
    exact ⟨hall, ih r (hp.2 r hread) hnext⟩

/-- Soundness: along a trace of admitted events every event is allowed. -/
theorem Keeps.steps {Q : α → M → Prop} {p q : Program S α} {t : Trace S} {m : M}
    (hp : p.Keeps K Q m) (ht : p.Steps t q) (ha : Along K.next K.admits m t) :
    Along K.next K.allows m t ∧ q.Keeps K Q (t.foldl K.next m) := by
  induction ht generalizing m with
  | refl p => exact ⟨trivial, hp⟩
  | head r _ ih =>
    obtain ⟨hg, hn⟩ := hp m (K.drift_refl m) r ha.1
    obtain ⟨h1, h2⟩ := ih hn ha.2
    exact ⟨⟨hg, h1⟩, h2⟩

end Program

end Medea.Interaction
