import Medea.Interaction.System
import Mathlib.Data.List.Induction

/-!
# What a program has seen

Some operations are only in order because of what was read before: a write that swaps in a changed
copy is sound because the copy was read. `Program.Justified` says that every operation of a program
is justified by the events the program has seen, whatever the replies; it is a contract whose ghost
state is the list of these events, and which more events never break.

`work` follows a run and keeps, for every process, its task and the events of that task.
`System.runs_work` says that these events are a trace of the task's program, and
`Program.Justified.of_steps` then finds in the run the justification of every operation.
-/

set_option autoImplicit false

namespace Medea.Interaction

/-! ## Justified operations -/

/-- Operations are justified by the events seen so far; the others may add to what is seen. -/
def Contract.memory {S : Signature} (J : Trace S → S.Op → Prop) : Contract S (Trace S) where
  drift es es' := es ⊆ es'
  admits _ _ := True
  allows es e := J es e.op
  next es e := es ++ [e]
  drift_refl _ := List.Subset.refl _
  drift_trans := List.Subset.trans

namespace Program

variable {S : Signature} {α β : Type} {J : Trace S → S.Op → Prop} {p : Program S α}
  {J' : Trace S → S.Op → Prop} {op : S.Op} {next : S.Reply op → Program S α}

/-- Every operation of the program is justified by what the program has seen before it. -/
def Justified (J : Trace S → S.Op → Prop) (p : Program S α) : Prop :=
  ∀ es, p.Keeps (.memory J) (fun _ _ => True) es

theorem justified_done (a : α) : (Program.done a : Program S α).Justified J :=
  fun _ _ _ => trivial

/-- An operation that is always justified, and a continuation that may rely on having seen the
reply. -/
theorem justified_seen (h : ∀ es, J es op)
    (hnext : ∀ r es, (⟨op, r⟩ : Event S) ∈ es →
      (next r).Keeps (.memory J) (fun _ _ => True) es) :
    (perform op >>= next).Justified J := by
  intro es es' _ r _
  exact ⟨h es', hnext r _ (List.mem_append_right _ List.mem_cons_self)⟩

theorem justified_request (h : ∀ es, J es op) (hnext : ∀ r, (next r).Justified J) :
    (perform op >>= next).Justified J :=
  justified_seen h fun r es _ => hnext r es

theorem Justified.bind {p : Program S α} {f : α → Program S β} (hp : p.Justified J)
    (hf : ∀ a, (f a).Justified J) : (p >>= f).Justified J :=
  fun es => (hp es).bind fun a es' _ => hf a es'

/-- A justification may be replaced by what follows from it, given what was seen already. -/
theorem Keeps.memory_mono {Q : α → Trace S → Prop} {es : Trace S} (hp : p.Keeps (.memory J) Q es)
    (h : ∀ es' op, es ⊆ es' → J es' op → J' es' op) :
    p.Keeps (.memory J') Q es := by
  induction p generalizing es with
  | done a => exact hp
  | request op next ih =>
    intro es' hsub r hr
    obtain ⟨hop, hnext⟩ := hp es' hsub r hr
    exact ⟨h es' op hsub hop, ih r hnext fun fs op' hfs => h fs op'
      (List.Subset.trans (List.Subset.trans hsub (List.subset_append_left _ _)) hfs)⟩

theorem Justified.mono (hp : p.Justified J) (h : ∀ es op, J es op → J' es op) : p.Justified J' :=
  fun es => (hp es).memory_mono fun es' op _ => h es' op

/-- What is justified by replies that are in order, if there is a reply to everything. -/
theorem Justified.within {R : Event S → Prop} {A : S.Op → Prop} (hr : ∀ op, Nonempty (S.Reply op))
    (hp : p.Justified J) (h : ∀ es op, (∀ e ∈ es, R e) → J es op → A op) :
    p.Within R A fun _ => True := by
  have hseen : ∀ es, (∀ e ∈ es, R e) → p.Keeps (.memory J) (fun _ _ => True) es →
      p.Within R A fun _ => True := by
    clear hp
    induction p with
    | done a => exact fun _ _ _ => trivial
    | request op next ih =>
      intro es hes hp
      obtain ⟨r⟩ := hr op
      refine ⟨h es op hes (hp es (List.Subset.refl _) r trivial).1, fun r hr => ?_⟩
      refine ih r _ (fun e he => ?_) (hp es (List.Subset.refl _) r trivial).2
      rcases List.mem_append.1 he with he | he
      · exact hes e he
      · exact List.mem_singleton.1 he ▸ hr
  exact hseen [] nofun (hp [])

theorem Justified.untilSome {body : α → Program S (Option β)} {as : List α}
    (h : ∀ a ∈ as, (body a).Justified J) : (untilSome body as).Justified J := by
  induction as with
  | nil => exact justified_done _
  | cons a as ih =>
    refine (h a List.mem_cons_self).bind fun b => ?_
    cases b with
    | some b => exact justified_done _
    | none => exact ih fun a' ha' => h a' (List.mem_cons_of_mem _ ha')

theorem Justified.forEach {body : α → Program S Unit} {as : List α}
    (h : ∀ a ∈ as, (body a).Justified J) : (forEach body as).Justified J := by
  induction as with
  | nil => exact justified_done _
  | cons a as ih =>
    exact (h a List.mem_cons_self).bind fun _ =>
      ih fun a' ha' => h a' (List.mem_cons_of_mem _ ha')

/-- A bound on the operations of a program, given what was seen of it. -/
theorem keeps_memory {A : Trace S → Prop} (hA : ∀ {es es'}, A es → es ⊆ es' → A es')
    (h : ∀ es, A es → p.Within (fun _ => True) (J es) fun _ => True) {es : Trace S} (hes : A es) :
    p.Keeps (.memory J) (fun _ _ => True) es := by
  induction p generalizing es with
  | done a => exact fun _ _ => trivial
  | request op next ih =>
    intro es' hsub r _
    have hes' := hA hes hsub
    refine ⟨(h es' hes').1, ?_⟩
    apply ih r fun fs hfs => (h fs hfs).2 r trivial
    exact hA hes' (List.subset_append_left _ _)

theorem justified_of_within (h : ∀ es, p.Within (fun _ => True) (J es) fun _ => True) :
    p.Justified J :=
  fun _ => keeps_memory (A := fun _ => True) (fun _ _ => trivial) (fun es _ => h es) trivial

/-- The justification of an operation, at the end of a trace. -/
theorem Justified.of_steps {es : Trace S} (hp : p.Justified J) (hs : p.Steps es (.request op next))
    (r : S.Reply op) : J es op := by
  have hadmits : Along (Contract.memory J).next (Contract.memory J).admits [] es :=
    along_of_split fun _ _ _ _ => trivial
  have hend := ((hp []).steps hs hadmits).2
  have hseen : es.foldl (Contract.memory J).next [] = es := by
    rw [← List.nil_append es]
    exact foldl_snoc es []
  rw [hseen] at hend
  exact (hend es (List.Subset.refl _) r trivial).1

end Program

/-! ## The work of the processes -/

variable {S : Signature} {σ ι τ : Type} [DecidableEq ι] {ls : List (Label S ι τ)} {es : Trace S} {i : ι}
  {e : Event S}

/-- The task of every process and its events, after one more label. -/
def workNext (work : ι → Option (τ × Trace S)) : Label S ι τ → ι → Option (τ × Trace S)
  | .start i t => Function.update work i (some (t, []))
  | .act i e => Function.update work i ((work i).map fun w => (w.1, w.2 ++ [e]))
  | .crash => fun _ => none

/-- The task every process was last given in a run since the last crash, and the events of it. -/
def work (ls : List (Label S ι τ)) : ι → Option (τ × Trace S) := ls.foldl workNext fun _ => none

theorem work_snoc (ls : List (Label S ι τ)) (l : Label S ι τ) :
    work (ls ++ [l]) = workNext (work ls) l := by
  rw [work, List.foldl_append]
  rfl

/-- The start of a task and its events are labels of the run, in this order. -/
theorem work_sublist {t : τ} (h : work ls i = some (t, es)) :
    (Label.start i t :: es.map (Label.act i)).Sublist ls := by
  induction ls using List.reverseRecOn generalizing es with
  | nil => cases h
  | append_singleton ls l ih =>
    rw [work_snoc] at h
    cases l with
    | crash => cases h
    | start j t' =>
      by_cases hj : i = j
      · subst hj
        simp only [workNext, Function.update_self, Option.some.injEq, Prod.mk.injEq] at h
        rw [← h.1, ← h.2]
        exact List.sublist_append_right ..
      · simp only [workNext, Function.update_of_ne hj] at h
        exact (ih h).trans (List.sublist_append_left ..)
    | act j e =>
      by_cases hj : i = j
      · subst hj
        simp only [workNext, Function.update_self, Option.map_eq_some_iff, Prod.mk.injEq] at h
        obtain ⟨⟨t', es'⟩, hw, rfl, rfl⟩ := h
        rw [List.map_append, ← List.cons_append]
        exact (ih hw).append (.refl _)
      · simp only [workNext, Function.update_of_ne hj] at h
        exact (ih h).trans (List.sublist_append_left ..)

/-- The events of a task are events of the run. -/
theorem mem_of_work {t : τ} (h : work ls i = some (t, es)) (he : e ∈ es) :
    Label.act i e ∈ ls :=
  (work_sublist h).subset (List.mem_cons_of_mem _ (List.mem_map_of_mem he))

/-- The events of a task at a position are labels before it. -/
theorem before_of_work {n : Nat} {t : τ} (h : work (ls.take n) i = some (t, es)) (he : e ∈ es) :
    ∃ m < n, ls[m]? = some (.act i e) := by
  obtain ⟨m, hm⟩ := List.getElem?_of_mem (mem_of_work h he)
  have hlt : m < n := by
    have := (List.getElem?_eq_some_iff.1 hm).1
    rw [List.length_take] at this
    omega
  rw [List.getElem?_take_of_lt hlt] at hm
  exact ⟨m, hlt, hm⟩

/-- The task of a process was started in the run. -/
theorem start_of_work {t : τ} (h : work ls i = some (t, es)) :
    Label.start i t ∈ ls :=
  (work_sublist h).subset List.mem_cons_self

namespace System

variable {A : System S σ ι τ}

/-- What is left of a program, given its task and the events of it. -/
def Left (A : System S σ ι τ) (p : Program S Unit) : Option (τ × Trace S) → Prop
  | none => p = .done ()
  | some (t, es) => (A.task t).Steps es p

omit [DecidableEq ι] in
/-- A process that still runs was given a task. -/
theorem Left.running {p : Program S Unit} {op : S.Op} {next : S.Reply op → Program S Unit}
    {w : Option (τ × Trace S)} (h : A.Left p w) (hp : p = .request op next) :
    ∃ t es, w = some (t, es) ∧ (A.task t).Steps es (.request op next) := by
  subst hp
  rcases w with _ | ⟨t, es⟩
  · cases h
  · exact ⟨t, es, rfl, h⟩

theorem step_work {c c' : Config S σ ι} {w : ι → Option (τ × Trace S)} {l : Label S ι τ}
    (h : ∀ i, A.Left (c.proc i) (w i)) (hs : A.Step c l c') (i : ι) :
    A.Left (c'.proc i) (workNext w l i) := by
  cases hs with
  | crash => exact rfl
  | @start j t _ _ =>
    by_cases hj : i = j
    · subst hj
      simp only [workNext, Function.update_self]
      exact .refl _
    · simp only [workNext, Function.update_of_ne hj]
      exact h i
  | @act j op next r w' hreq _ =>
    by_cases hj : i = j
    · subst hj
      obtain ⟨t, es, hw, hst⟩ := (h i).running hreq
      simp only [workNext, Function.update_self, hw, Option.map_some]
      exact hst.tail r
    · simp only [workNext, Function.update_of_ne hj]
      exact h i

/-- In a run from an idle start the events of every task are a trace of its program. -/
theorem runs_work {w : σ} {c : Config S σ ι} (hr : A.Runs (Config.idle S ι w) ls c) (i : ι) :
    A.Left (c.proc i) (work ls i) := by
  induction ls using List.reverseRecOn generalizing c i with
  | nil =>
    cases hr
    exact rfl
  | append_singleton ls l ih =>
    obtain ⟨d, hd, _, hs, rfl⟩ := runs_append.1 hr
    rw [work_snoc]
    exact step_work (ih hd) hs i

/-- An event of a run belongs to a task of its process, which had come to that operation. -/
theorem work_of_run {w : σ} {c : Config S σ ι} (hr : A.Runs (Config.idle S ι w) ls c) {n : Nat}
    (hn : ls[n]? = some (.act i e)) :
    ∃ t es next, work (ls.take n) i = some (t, es) ∧ (A.task t).Steps es (.request e.op next) := by
  obtain ⟨hlt, he⟩ := List.getElem?_eq_some_iff.1 hn
  have hsplit : ls = ls.take n ++ .act i e :: ls.drop (n + 1) := by
    rw [← he, ← List.drop_eq_getElem_cons hlt, List.take_append_drop]
  rw [hsplit] at hr
  obtain ⟨d, hd, _, hs, _⟩ := runs_append.1 hr
  cases hs with
  | act hreq _ =>
    obtain ⟨t, es, hw, hst⟩ := (runs_work hd i).running hreq
    exact ⟨t, es, _, hw, hst⟩

end System

end Medea.Interaction
