import Medea.Properties.WatchStream

/-!
# Reconnecting watchers

A client that has seen everything up to a revision connects again with that revision. What it missed
is rebuilt from the records that are stored now, so a record that has been written since is reported,
and one that has been deleted is not: the event of its deletion is nowhere any more.

`Tells` is what makes an event tell of a key: it is the event of a write or deletion of that key, or an
event about a cluster of the key that was deleted. `reconnect_told`: if every desired record that is
gone since belonged to a cluster that was deleted and is there again, then everything that has changed
is told, in every interleaving in which the snapshot can be read, no event finds the buffer full and
the context is not done. When nothing is written after the reconnection, the condition is also
necessary.
-/

set_option autoImplicit false

namespace Medea

open Medea.Interaction Medea.Versioned

/-- The kinds of the desired records. -/
def EventKind.desired : EventKind → Bool
  | .cluster | .nodepool | .machine | .host => true
  | _ => false

/-- From the event a client can tell that the record under the key has changed: it is the event of a
write or deletion of the key, or about its cluster, which was deleted after position `n`. -/
def Tells (past : List Access) (n : Nat) (ev : Change) (key : EventKind × String) : Prop :=
  (∃ (m : Nat) (a : Access), past[m]? = some a ∧ a.event (storeAfter (past.take m)) = some ev ∧
    (a.move (storeAfter (past.take m))).Touches key) ∨
  (ev.kind = .cluster ∧ goesWith ev.key key = true ∧
    ∃ m, n ≤ m ∧ past[m]? = some (.call (.deleteCluster ev.key) (.ok ())))

/-- Every desired record that was there at position `n` and is gone at the end belonged to a cluster
that has been deleted since and is there again. -/
def Restored (h : List Access) (n : Nat) : Prop :=
  ∀ key : EventKind × String, key.1.desired = true →
    (storeAfter (h.take n)).db.entry key ≠ none → (storeAfter h).db.entry key = none →
    ∃ cluster, goesWith cluster key = true ∧ (storeAfter h).db.clusters[cluster]? ≠ none ∧
      ∃ m, n ≤ m ∧ h[m]? = some (.call (.deleteCluster cluster) (.ok ()))

/-- Every desired record that differs from what it was at position `n` is told of. -/
def AllTold (h past : List Access) (n : Nat) (evs : List Change) : Prop :=
  ∀ key : EventKind × String, key.1.desired = true →
    (storeAfter h).db.entry key ≠ (storeAfter (h.take n)).db.entry key →
    ∃ ev ∈ evs, Tells past n ev key

theorem Tells.append {past : List Access} {n : Nat} {ev : Change} {key : EventKind × String}
    (ht : Tells past n ev key) (more : List Access) : Tells (past ++ more) n ev key := by
  rcases ht with ⟨m, a, hm, hev, htouch⟩ | ⟨hkind, hgoes, m, hn, hm⟩
  · have hlt : m < past.length := (List.getElem?_eq_some_iff.1 hm).1
    refine Or.inl ⟨m, a, ?_, ?_⟩
    · rw [List.getElem?_append_left hlt]
      exact hm
    · rw [List.take_append_of_le_length (Nat.le_of_lt hlt)]
      exact ⟨hev, htouch⟩
  · have hlt : m < past.length := (List.getElem?_eq_some_iff.1 hm).1
    refine Or.inr ⟨hkind, hgoes, m, hn, ?_⟩
    rw [List.getElem?_append_left hlt]
    exact hm

namespace Watching

variable {rev : Nat}

/-- The snapshot can be read, and an event that is published finds room in the buffer. -/
def Calm (w : Watching) (act : WatchAct) : Prop :=
  act ≠ .readFails ∧
    (act = .publish → ∀ id rev point buf, w.phase = .running id rev point →
      bufferOf w.store.subs id = some buf → buf.length < subBuffer)

/-- A run with calm steps only. -/
inductive CalmRun (since : Nat) (w₀ : Watching) : List WatchAct → Watching → Prop
  | nil : CalmRun since w₀ [] w₀
  | snoc {acts : List WatchAct} {w w' : Watching} {act : WatchAct} : CalmRun since w₀ acts w →
      Calm w act → Step since w act w' → CalmRun since w₀ (acts ++ [act]) w'

variable {since : Nat} {w₀ w w' : Watching} {act : WatchAct} {acts : List WatchAct}
  {past : List Access} {n : Nat} {key : EventKind × String}

theorem CalmRun.run (hr : CalmRun since w₀ acts w) : Run since w₀ acts w := by
  induction hr with
  | nil => exact .nil
  | snoc _ _ hs ih => exact ih.snoc hs

/-- The change of a key is told, or will be: the snapshot has still to be read and has the record, or
the event is about to be published. -/
def WillTell (since : Nat) (past : List Access) (n : Nat) (key : EventKind × String) (w : Watching) :
    Prop :=
  (∃ id rev r v, w.phase = .running id rev .reading ∧ w.store.db.entry key = some (r, v) ∧
      since < r ∧ r ≤ rev) ∨
    (∃ id rev point ev, w.phase = .running id rev point ∧ w.writing = some ev ∧
      Tells past n ev key) ∨
    ∃ ev ∈ w.stream, Tells past n ev key

/-- The write of a key is told by its event. -/
theorem tells_of_touches {a : Access} {ev : Change} (hev : a.event (storeAfter past) = some ev)
    (htouch : (a.move (storeAfter past)).Touches key) : Tells (past ++ [a]) n ev key := by
  refine Or.inl ⟨past.length, a, by simp, ?_⟩
  rw [List.take_left' rfl]
  exact ⟨hev, htouch⟩

/-- A commit keeps the record for the snapshot, or its event tells of it. -/
theorem willTell_commit (hw : w.Sound past) {op : StoreOp} {v : op.Value}
    (hs : Step since w (.commit op v) w') {id r : Nat} {x : Record}
    (hphase : w.phase = .running id rev .reading) (hentry : w.store.db.entry key = some (r, x))
    (hlow : since < r) (hhigh : r ≤ rev) : WillTell since (past ++ [.call op (.ok v)]) n key w' := by
  cases hs with
  | @commit _ _ kind eventKey hfree hok hev =>
    obtain ⟨hhist, hdb, -, -⟩ := hw.commit hok hev
    have hfit : (Access.call op (.ok v)).Fits (storeAfter past) := (along_append.1 hhist).2.1
    by_cases htouch : ((Access.call op (.ok v)).move (storeAfter past)).Touches key
    · refine Or.inr (Or.inl ⟨id, rev, .reading, _, hphase, rfl, tells_of_touches ?_ htouch⟩)
      rw [Access.event, hev, hw.db]
      rfl
    · refine Or.inl ⟨id, rev, r, x, hphase, ?_, hlow, hhigh⟩
      have hkept := Registry.entry_apply_of_not_touches (R := (storeAfter past).registry) htouch
      rw [← Access.registry_after hfit, ← History.storeAfter_snoc] at hkept
      show (op.exec w.store).2.db.entry key = some (r, x)
      rw [hdb]
      rw [hw.db] at hentry
      exact hkept.trans hentry

/-- The snapshot tells of the records it has. -/
theorem willTell_read (hw : w.Sound past) (hs : Step since w .read w') {id r : Nat} {x : Record}
    (hkind : key.1 ≠ .clusterBootstrap) (hphase : w.phase = .running id rev .reading)
    (hentry : w.store.db.entry key = some (r, x)) (hlow : since < r) (hhigh : r ≤ rev) :
    ∃ ev ∈ w'.stream, Tells past n ev key := by
  have hentry' := hentry
  rw [hw.db] at hentry'
  obtain ⟨m, a, hm, hput, hpub, hrev⟩ := WatchSnapshot.published_of_entry hw.history hentry'
  obtain rfl : x.revision = r := hrev
  have hmem : x.change ∈ w.store.db.snapshotEvents since rev :=
    DB.mem_snapshotEvents.2 ⟨key, x, hentry, hkind, hlow, hhigh, rfl⟩
  refine ⟨x.change, ?_, Or.inl ⟨m, a, hm, hpub, ?_⟩⟩
  · cases hs with
    | read hphase' =>
      rw [hphase] at hphase'
      cases hphase'
      simp [stream, held, hmem]
  · rw [hput]
    rfl

/-- A published event is on its way. -/
theorem willTell_publish (hw : w.Sound past) (hs : Step since w .publish w') (hcalm : Calm w .publish)
    {id : Nat} {point : WatchPoint} {ev : Change} (hphase : w.phase = .running id rev point)
    (hwriting : w.writing = some ev) : ev ∈ w'.stream := by
  obtain ⟨-, -, buf, hbuf⟩ := hw.subscribed hphase
  have hroom := hcalm.2 rfl id rev point buf hphase hbuf
  cases hs with
  | publish hev =>
    rw [hwriting] at hev
    cases hev
    refine List.mem_append_right _ ?_
    simp [buffered, hphase, bufferOf_publish, hbuf, offer, hroom]

/-- What will be told stays so along every calm step. -/
theorem WillTell.step (hkind : key.1 ≠ .clusterBootstrap) (hw : w.Sound past)
    (hs : Step since w act w') (hcalm : Calm w act) (hc : w'.cancelled = false)
    (ht : WillTell since past n key w) : WillTell since (past ++ WatchAct.calls [act]) n key w' := by
  rcases ht with ⟨id, rev, r, x, hphase, hentry, hlow, hhigh⟩ |
    ⟨id, rev, point, ev, hphase, hwriting, ht⟩ | ⟨ev, hev, ht⟩
  · -- the snapshot is still to be read
    cases hs with
    | commit hfree hok hev => exact willTell_commit hw (.commit hfree hok hev) hphase hentry hlow hhigh
    | read hphase' =>
      obtain ⟨ev, hev, ht⟩ := willTell_read hw (.read hphase') hkind hphase hentry hlow hhigh
      exact Or.inr (Or.inr ⟨ev, hev, ht.append _⟩)
    | readFails => exact absurd rfl hcalm.1
    | register _ hphase' | replay hphase' | replayed hphase' | take hphase' | forward hphase' =>
      rw [hphase] at hphase'
      cases hphase'
    | leave hphase' hpoint =>
      rw [hphase] at hphase'
      cases hphase'
      exact absurd rfl hpoint
    | publish | receive | cancel | others => exact Or.inl ⟨id, rev, r, x, hphase, hentry, hlow, hhigh⟩
  · -- the event is about to be published
    by_cases hact : act = .publish
    · subst hact
      exact Or.inr (Or.inr ⟨ev, willTell_publish hw hs hcalm hphase hwriting, ht.append _⟩)
    · have hone : Run since w [act] w' := Run.nil.snoc hs
      obtain ⟨point', hphase'⟩ := hone.subscription hc hphase
      have hnot : WatchAct.publish ∉ [act] := fun hmem => hact (List.mem_singleton.1 hmem).symm
      exact Or.inr (Or.inl ⟨id, rev, point', ev, hphase', hone.writing hnot hwriting, ht.append _⟩)
  · exact Or.inr (Or.inr ⟨ev, hs.mem_stream hw hc hev, ht.append _⟩)

theorem WillTell.run {h : List Access} (hkind : key.1 ≠ .clusterBootstrap) (hw0 : w₀.Sound h)
    (ht : WillTell since h n key w₀) (hr : CalmRun since w₀ acts w) (hc : w.cancelled = false) :
    WillTell since (h ++ WatchAct.calls acts) n key w := by
  induction hr with
  | nil =>
    rw [WatchAct.calls, List.filterMap_nil, List.append_nil]
    exact ht
  | @snoc acts w w' act hr hcalm hs ih =>
    have hcalls : WatchAct.calls (acts ++ [act]) = WatchAct.calls acts ++ WatchAct.calls [act] :=
      List.filterMap_append
    rw [hcalls, ← List.append_assoc]
    exact (ih (hs.not_cancelled hc)).step hkind (hr.run.sound hw0) hs hcalm hc

/-- Once all is settled and published, what will be told has been told. -/
theorem WillTell.told (hw : w.Sound past) (ht : WillTell since past n key w)
    (hsettled : w.Settled since) (hfree : w.writing = none) {id : Nat} {point : WatchPoint}
    (hphase : w.phase = .running id rev point) : ∃ ev ∈ w.received, Tells past n ev key := by
  rcases ht with ⟨_, _, _, _, hreading, -⟩ | ⟨_, _, _, _, -, hwriting, -⟩ | ⟨ev, hev, ht⟩
  · exact absurd (Step.read hreading) (hsettled _ _ rfl)
  · rw [hfree] at hwriting
    cases hwriting
  · rw [hsettled.received hw hphase] at hev
    exact ⟨ev, hev, ht⟩

/-- Nobody writes, and all that is on its way comes from the snapshot. -/
structure Quiet (since rev : Nat) (db : DB) (w : Watching) : Prop where
  free : w.writing = none
  file : w.store.db = db
  bound : ∀ {id rev' point}, w.phase = .running id rev' point → rev' = rev
  called : w.phase ≠ .uncalled
  only : ∀ ev ∈ w.stream, ev ∈ db.snapshotEvents since rev

theorem Quiet.step {db : DB} (hw : w.Sound past) (hq : w.Quiet since rev db)
    (hs : Step since w act w') (hcalls : WatchAct.calls [act] = []) : w'.Quiet since rev db := by
  have honly : ∀ ev ∈ w'.stream, ev ∈ db.snapshotEvents since rev := by
    intro ev hev
    cases hs.stream hw with
    | kept hkept => exact hq.only ev (hkept ▸ hev)
    | published hwriting _ =>
      rw [hq.free] at hwriting
      cases hwriting
    | read hphase hread =>
      obtain rfl := hq.bound hphase
      rw [hread, hq.file] at hev
      have hold : ev ∈ w.received ++ w.out ∨ ev ∈ w.buffered → ev ∈ w.stream := by
        intro hev
        simp only [stream, List.mem_append] at hev ⊢
        exact hev.imp_left Or.inl
      rcases List.mem_append.1 hev with hev | hev
      · rcases List.mem_append.1 hev with hev | hev
        · exact hq.only ev (hold (Or.inl hev))
        · exact hev
      · exact hq.only ev (hold (Or.inr hev))
    | left _ hleft =>
      rw [hleft] at hev
      refine hq.only ev ?_
      rw [stream, List.append_assoc]
      exact List.mem_append_left _ hev
  cases hs with
  | commit => cases hcalls
  | publish hwriting =>
    rw [hq.free] at hwriting
    cases hwriting
  | register _ hun => exact absurd hun hq.called
  | read hphase | readFails hphase | replay hphase | replayed hphase | take hphase | forward hphase =>
    refine ⟨hq.free, hq.file, ?_, ?_, honly⟩
    · intro id rev' point hphase'
      cases hphase'
      exact hq.bound hphase
    · intro hun
      cases hun
  | leave =>
    refine ⟨hq.free, hq.file, ?_, ?_, honly⟩
    · intro id rev' point hphase'
      cases hphase'
    · intro hun
      cases hun
  | receive | cancel | others => exact ⟨hq.free, hq.file, hq.bound, hq.called, honly⟩

theorem Quiet.run {h : List Access} {db : DB} (hw0 : w₀.Sound h)
    (hq : w₀.Quiet since rev db) (hr : Run since w₀ acts w) (hcalls : WatchAct.calls acts = []) :
    w.Quiet since rev db := by
  induction hr with
  | nil => exact hq
  | @snoc acts w w' act hr hs ih =>
    have happ : WatchAct.calls acts ++ WatchAct.calls [act] = [] :=
      List.filterMap_append.symm.trans hcalls
    obtain ⟨h1, h2⟩ := List.append_eq_nil_iff.1 happ
    exact (ih h1).step (hr.sound hw0) hs h2

end Watching

/-! ## What is told -/

section Told

variable {h past : List Access} {n : Nat} {key : EventKind × String} {ev : Change}

/-- A record that is not what it was at a position carries a revision above that position. -/
theorem newer_of_differs (hh : History h) (hn : n ≤ h.length) {r : Nat} {v : Record}
    (hentry : (storeAfter h).db.entry key = some (r, v))
    (hdiff : (storeAfter (h.take n)).db.entry key ≠ some (r, v)) :
    (storeAfter (h.take n)).db.revision < r := by
  by_contra hle
  have hnow : (storeAfter (h.take h.length)).registry.entry key = some (r, v) := by
    rw [List.take_length]
    exact hentry
  exact hdiff (hh.run.there_before hn hnow (Nat.le_of_not_lt hle))

/-- An access that touches a cluster's record has an event about the cluster. -/
theorem Access.event_of_touches_cluster {s : Store} {a : Access} {cluster : String}
    (hev : a.event s = some ev) (htouch : (a.move s).Touches (.cluster, cluster)) :
    ev.kind = .cluster ∧ ev.key = cluster := by
  cases a with
  | reopen => cases hev
  | call op rep =>
    cases rep with
    | error e => cases hev
    | ok v =>
      cases op with
      | putClusterDesired c expected =>
        cases hev
        exact ⟨rfl, (Prod.mk.inj htouch).2⟩
      | deleteCluster c =>
        cases hev
        exact ⟨rfl, eq_of_beq htouch⟩
      | deleteMachine | deleteHost => cases htouch
      | putNodePoolDesired | putMachineDesired | putHostDesired | putMachineRollout
      | putClusterRollout | putRolloutJob | putClusterBootstrap => cases htouch
      | _ => cases hev

/-- What tells of a cluster's record is about the cluster. -/
theorem Tells.about_cluster {cluster : String} (ht : Tells past n ev (.cluster, cluster)) :
    ev.kind = .cluster ∧ ev.key = cluster := by
  rcases ht with ⟨m, a, -, hev, htouch⟩ | ⟨hkind, hgoes, -⟩
  · exact Access.event_of_touches_cluster hev htouch
  · exact ⟨hkind, eq_of_beq hgoes⟩

/-- A cluster that was deleted after a position and is there again is newer than the position. -/
theorem newer_of_deleted (hh : History h) {m : Nat} (hnm : n ≤ m) {cluster : String}
    (hm : h[m]? = some (.call (.deleteCluster cluster) (.ok ()))) {r : Nat} {v : Record}
    (hentry : (storeAfter h).db.entry (.cluster, cluster) = some (r, v)) :
    (storeAfter (h.take n)).db.revision < r := by
  have hlt : m < h.length := (List.getElem?_eq_some_iff.1 hm).1
  have hgone : (storeAfter (h.take (m + 1))).registry.entry (.cluster, cluster) = none := by
    have hstep := hh.run.step m
    simp only [hm] at hstep
    rw [hstep]
    exact if_pos (beq_self_eq_true cluster)
  have hnewer : (storeAfter (h.take (m + 1))).db.revision < r := by
    refine newer_of_differs hh hlt hentry ?_
    intro hsome
    rw [show (storeAfter (h.take (m + 1))).db.entry (.cluster, cluster) = none from hgone] at hsome
    cases hsome
  have hmono := hh.run.counter_mono (Nat.le_succ_of_le hnm)
  exact Nat.lt_of_le_of_lt hmono hnewer

/-- What tells of a desired record among the events of the snapshot: the record is stored, or its
cluster was deleted and is there again. -/
theorem stored_of_tells (hh : History h) {since upto : Nat}
    (hev : ev ∈ (storeAfter h).db.snapshotEvents since upto) (ht : Tells h n ev key)
    (hgone : (storeAfter h).db.entry key = none) :
    ∃ cluster, goesWith cluster key = true ∧ (storeAfter h).db.clusters[cluster]? ≠ none ∧
      ∃ m, n ≤ m ∧ h[m]? = some (.call (.deleteCluster cluster) (.ok ())) := by
  obtain ⟨key', v, hentry, -, -, -, rfl⟩ := DB.mem_snapshotEvents.1 hev
  rcases ht with ⟨m, a, hm, hevent, htouch⟩ | ⟨hkind, hgoes, hdeleted⟩
  · -- the event is that of the write of the stored record, so the key is that of the record
    obtain ⟨m', a', hm', hput, hevent', -⟩ := WatchSnapshot.published_of_entry hh hentry
    obtain rfl := WatchSnapshot.position_unique hh hm hm' hevent hevent' rfl
    rw [hm] at hm'
    cases hm'
    rw [hput] at htouch
    obtain rfl : key' = key := htouch
    rw [hgone] at hentry
    cases hentry
  · refine ⟨v.change.key, hgoes, ?_, hdeleted⟩
    have hown := ((Revisions.of_history hh).own key' _ v hentry).1
    cases v with
    | cluster c =>
      obtain rfl : key' = (.cluster, c.name) := hown.symm
      obtain ⟨c', hc', -⟩ := Option.map_eq_some_iff.1 hentry
      show (storeAfter h).db.clusters[c.name]? ≠ none
      rw [hc']
      simp
    | _ => cases hkind

end Told

/-! ## Reconnections -/

/-- A client that has seen everything up to position `n` of the history registers again, and the run
goes on until it has received all that is on its way. -/
structure Reconnected (h : List Access) (n : Nat) (w₀ w₁ : Watching) (acts : List WatchAct)
    (w : Watching) : Prop where
  position : n ≤ h.length
  opens : w₀.Opens h
  registers : Watching.Step (storeAfter (h.take n)).db.revision w₀ .register w₁
  run : Watching.CalmRun (storeAfter (h.take n)).db.revision w₁ acts w
  going : w.cancelled = false
  settled : w.Settled (storeAfter (h.take n)).db.revision
  published : w.writing = none

namespace Reconnected

variable {h : List Access} {n : Nat} {w₀ w₁ w : Watching} {acts : List WatchAct}
  {key : EventKind × String}

section

variable (hr : Reconnected h n w₀ w₁ acts w)
include hr

theorem sound₁ : w₁.Sound h := by
  have hstep := hr.opens.sound.step hr.registers
  rwa [show WatchAct.calls [WatchAct.register] = [] from rfl, List.append_nil] at hstep

theorem phase₁ :
    w₁.phase = .running w₀.nextSub (storeAfter h).db.revision .reading := by
  have hlast : w₀.store.lastRev = (storeAfter h).db.revision := by
    rw [hr.opens.last, hr.opens.db]
  cases hr.registers with
  | register _ _ => rw [hlast]

/-- What is on its way at the end has been received. -/
theorem stream_eq : w.stream = w.received := by
  obtain ⟨point, hphase⟩ := hr.run.run.subscription hr.going hr.phase₁
  exact hr.settled.received (hr.run.run.sound hr.sound₁) hphase

/-- A record that is stored with a newer revision is told of. -/
theorem told_of_newer (hkind : key.1 ≠ .clusterBootstrap)
    {r : Nat} {v : Record} (hentry : (storeAfter h).db.entry key = some (r, v))
    (hnewer : (storeAfter (h.take n)).db.revision < r) :
    ∃ ev ∈ w.received, Tells (h ++ WatchAct.calls acts) n ev key := by
  have hrange := ((Revisions.of_history hr.opens.history).range key r v hentry).2
  have hentry1 : w₁.store.db.entry key = some (r, v) := by
    rw [hr.sound₁.db]
    exact hentry
  have hwill : Watching.WillTell (storeAfter (h.take n)).db.revision h n key w₁ :=
    Or.inl ⟨_, _, r, v, hr.phase₁, hentry1, hnewer, hrange⟩
  obtain ⟨point, hphase⟩ := hr.run.run.subscription hr.going hr.phase₁
  exact (hwill.run hkind hr.sound₁ hr.run hr.going).told (hr.run.run.sound hr.sound₁) hr.settled
    hr.published hphase

/-- A record that is gone is told of by its cluster, which is there again. -/
theorem told_of_restored {cluster : String}
    (hgoes : goesWith cluster key = true) (hcluster : (storeAfter h).db.clusters[cluster]? ≠ none)
    {m : Nat} (hnm : n ≤ m) (hm : h[m]? = some (.call (.deleteCluster cluster) (.ok ()))) :
    ∃ ev ∈ w.received, Tells (h ++ WatchAct.calls acts) n ev key := by
  obtain ⟨c, hcluster⟩ := Option.ne_none_iff_exists'.1 hcluster
  have hentry := DB.entry_of_cluster hcluster
  have hkind : EventKind.cluster ≠ .clusterBootstrap := by decide
  obtain ⟨ev, hev, ht⟩ := hr.told_of_newer hkind hentry
    (newer_of_deleted hr.opens.history hnm hm hentry)
  obtain ⟨hkind', rfl⟩ := ht.about_cluster
  refine ⟨ev, hev, Or.inr ⟨hkind', hgoes, m, hnm, ?_⟩⟩
  rw [List.getElem?_append_left (List.getElem?_eq_some_iff.1 hm).1]
  exact hm

theorem allTold (hrestored : Restored h n) :
    AllTold h (h ++ WatchAct.calls acts) n w.received := by
  intro key hkey hdiff
  cases hentry : (storeAfter h).db.entry key with
  | some e =>
    obtain ⟨r, v⟩ := e
    have hkind : key.1 ≠ .clusterBootstrap := by
      intro hboot
      rw [hboot] at hkey
      cases hkey
    refine hr.told_of_newer hkind hentry
      (newer_of_differs hr.opens.history hr.position hentry ?_)
    rw [← hentry]
    exact hdiff.symm
  | none =>
    have hthere : (storeAfter (h.take n)).db.entry key ≠ none := by
      rw [← hentry]
      exact hdiff.symm
    obtain ⟨cluster, hgoes, hcluster, m, hnm, hm⟩ := hrestored key hkey hthere hentry
    exact hr.told_of_restored hgoes hcluster hnm hm

theorem quiet₁ :
    w₁.Quiet (storeAfter (h.take n)).db.revision (storeAfter h).db.revision (storeAfter h).db := by
  have hempty : w₁.stream = [] ∧ w₁.writing = none := by
    cases hr.registers with
    | register _ _ =>
      simp [Watching.stream, Watching.held, Watching.buffered, hr.opens.received, hr.opens.out,
        hr.opens.free, bufferOf_new hr.opens.ids]
  refine ⟨hempty.2, hr.sound₁.db, ?_, ?_, ?_⟩
  · intro id rev point hrun
    rw [hr.phase₁] at hrun
    cases hrun
    rfl
  · rw [hr.phase₁]
    intro hun
    cases hun
  · intro ev hev
    rw [hempty.1] at hev
    cases hev

/-- Without writes after the registration, a record that is gone is told of only by its cluster. -/
theorem restored (hcalls : WatchAct.calls acts = [])
    (hall : AllTold h h n w.received) : Restored h n := by
  intro key hkey hthere hgone
  obtain ⟨ev, hev, ht⟩ := hall key hkey (hgone ▸ hthere.symm)
  rw [← hr.stream_eq] at hev
  have hsnap := (hr.quiet₁.run hr.sound₁ hr.run.run hcalls).only ev hev
  exact stored_of_tells hr.opens.history hsnap ht hgone

end

end Reconnected

/-- A reconnecting client is told of every desired record that has changed, if none is gone for good;
when nothing is written after it has registered, only then. -/
theorem reconnect_told {h : List Access} {n : Nat} {w₀ w₁ w : Watching} {acts : List WatchAct}
    (hr : Reconnected h n w₀ w₁ acts w) :
    (Restored h n → AllTold h (h ++ WatchAct.calls acts) n w.received) ∧
      (WatchAct.calls acts = [] → (AllTold h h n w.received ↔ Restored h n)) := by
  refine ⟨hr.allTold, ?_⟩
  intro hcalls
  have hall := hr.allTold
  rw [hcalls, List.append_nil] at hall
  exact ⟨hr.restored hcalls, hall⟩

namespace Reconnect

/-- A store of which nobody else is told, before the client connects again. -/
def opened (h : List Access) : Watching := { store := storeAfter h, nextSub := 0 }

/-- The client has registered; the snapshot goes up to `rev`. -/
def registered (h : List Access) (rev : Nat) : Watching :=
  { opened h with store := { storeAfter h with subs := [(0, [])] }, nextSub := 1,
                  phase := .running 0 rev .reading }

def replaying (h : List Access) (rev : Nat) (evs : List Change) : Watching :=
  { registered h rev with phase := .running 0 rev (.replaying evs) }

/-- All is received. -/
def listening (h : List Access) (rev : Nat) (evs : List Change) : Watching :=
  { registered h rev with phase := .running 0 rev .listening, received := evs }

theorem listening_settled (h : List Access) (rev since : Nat) (evs : List Change) :
    (listening h rev evs).Settled since := Watching.settled_of_idle rfl rfl rfl

theorem opened_opens {h : List Access} (hh : History h) (hsubs : (storeAfter h).subs = []) :
    (opened h).Opens h where
  history := hh
  db := rfl
  last := (Revisions.of_history hh).last
  ids := by
    intro sub hsub
    have hnil : sub ∈ ([] : List (Nat × List Change)) := hsubs ▸ hsub
    cases hnil
  free := rfl
  uncalled := rfl
  out := rfl
  received := rfl

/-- A host is registered, and removed after the client has seen it. -/
def removed : List Access :=
  [.call (.putHostDesired { cluster := "c", mac := "m" } 0) (.ok 1),
    .call (.deleteHost "c" "m") (.ok ())]

/-- A host is registered, and written again after the client has seen it. -/
def rewritten : List Access :=
  [.call (.putHostDesired { cluster := "c", mac := "m" } 0) (.ok 1),
    .call (.putHostDesired { cluster := "c", mac := "m" } 1) (.ok 2)]

theorem removed_history : History removed := ⟨Or.inl rfl, Or.inl rfl, trivial⟩

theorem rewritten_history : History rewritten := ⟨Or.inl rfl, Or.inl rfl, trivial⟩

theorem calm_of_ne {w : Watching} {act : WatchAct} (hread : act ≠ .readFails)
    (hpub : act ≠ .publish) : w.Calm act := ⟨hread, fun h => absurd h hpub⟩

theorem removed_reconnected :
    Reconnected removed 1 (opened removed) (registered removed 2) [.read, .replayed]
      (listening removed 2 []) := by
  have hread : Watching.Step 1 (registered removed 2) .read (replaying removed 2 []) := by
    have hsnap : (registered removed 2).store.db.snapshotEvents 1 2 = [] := by decide +kernel
    have hstep : Watching.Step 1 (registered removed 2) .read _ := .read rfl
    rw [hsnap] at hstep
    exact hstep
  have hreplayed : Watching.Step 1 (replaying removed 2 []) .replayed (listening removed 2 []) :=
    .replayed rfl
  have hrun : Watching.CalmRun 1 (registered removed 2) [.read, .replayed] (listening removed 2 []) :=
    (Watching.CalmRun.nil.snoc (calm_of_ne (by simp) (by simp)) hread).snoc
      (calm_of_ne (by simp) (by simp)) hreplayed
  exact ⟨by decide, opened_opens removed_history rfl, .register rfl rfl, hrun, rfl,
    listening_settled removed 2 1 [], rfl⟩

/-- The event of the second write. -/
def event : Change := ⟨.host, "c/m", 2⟩

/-- The replayed event is still in the channel. -/
def sent : Watching := { listening rewritten 2 [] with out := [event] }

theorem rewritten_reconnected :
    Reconnected rewritten 1 (opened rewritten) (registered rewritten 2)
      [.read, .replay, .replayed, .receive] (listening rewritten 2 [event]) := by
  have hread : Watching.Step 1 (registered rewritten 2) .read (replaying rewritten 2 [event]) := by
    have hsnap : (registered rewritten 2).store.db.snapshotEvents 1 2 = [event] := by
      decide +kernel
    have hstep : Watching.Step 1 (registered rewritten 2) .read _ := .read rfl
    rw [hsnap] at hstep
    exact hstep
  have hreplay : Watching.Step 1 (replaying rewritten 2 [event]) .replay
      { replaying rewritten 2 [] with out := [event] } := .replay rfl (by decide)
  have hreplayed : Watching.Step 1 { replaying rewritten 2 [] with out := [event] } .replayed sent :=
    .replayed rfl
  have hreceive : Watching.Step 1 sent .receive (listening rewritten 2 [event]) := .receive rfl
  have hcalm : ∀ {w : Watching} {act : WatchAct}, act.internal = true → act ≠ .readFails →
      w.Calm act := by
    intro w act hact hread
    refine calm_of_ne hread ?_
    rintro rfl
    cases hact
  have hrun : Watching.CalmRun 1 (registered rewritten 2) [.read, .replay, .replayed, .receive]
      (listening rewritten 2 [event]) :=
    (((Watching.CalmRun.nil.snoc (hcalm rfl (by simp)) hread).snoc (hcalm rfl (by simp)) hreplay).snoc
      (hcalm rfl (by simp)) hreplayed).snoc (hcalm rfl (by simp)) hreceive
  exact ⟨by decide, opened_opens rewritten_history rfl, .register rfl rfl, hrun, rfl,
    listening_settled rewritten 2 1 [event], rfl⟩

/-- The host is the only record, and it is still there. -/
theorem rewritten_restored : Restored rewritten 1 := by
  intro key hkey hthere hgone
  by_cases hk : (.host, ckey "c" "m") = key
  · subst hk
    have hstored : (storeAfter rewritten).db.entry (.host, ckey "c" "m") ≠ none := by decide +kernel
    exact absurd hgone hstored
  · have hfirst := congrArg Registry.entry (rewritten_history.run.step 0)
    have hkept := (congrFun hfirst key).trans (Registry.entry_apply_of_not_touches hk)
    rw [rewritten_history.run.start] at hkept
    exact absurd hkept hthere

end Reconnect

/-- The second write of a host is told to the client that has seen the first. -/
theorem rewritten_told : AllTold Reconnect.rewritten Reconnect.rewritten 1 [Reconnect.event] :=
  ((reconnect_told Reconnect.rewritten_reconnected).2 rfl).2 Reconnect.rewritten_restored

/-- A host that is removed while the client is away is not told of: the client has received everything
there is, which is nothing. -/
theorem removed_untold :
    Reconnected Reconnect.removed 1 (Reconnect.opened Reconnect.removed)
        (Reconnect.registered Reconnect.removed 2) [.read, .replayed]
        (Reconnect.listening Reconnect.removed 2 []) ∧
      (storeAfter (Reconnect.removed.take 1)).db.entry (.host, ckey "c" "m") ≠ none ∧
      (storeAfter Reconnect.removed).db.entry (.host, ckey "c" "m") = none ∧
      ¬AllTold Reconnect.removed Reconnect.removed 1
        (Reconnect.listening Reconnect.removed 2 []).received := by
  have hbefore : (storeAfter (Reconnect.removed.take 1)).db.entry (.host, ckey "c" "m") ≠ none := by
    decide +kernel
  have hafter : (storeAfter Reconnect.removed).db.entry (.host, ckey "c" "m") = none := by
    decide +kernel
  refine ⟨Reconnect.removed_reconnected, hbefore, hafter, ?_⟩
  intro hall
  obtain ⟨ev, hev, -⟩ := hall (.host, ckey "c" "m") rfl (hafter ▸ hbefore.symm)
  cases hev

end Medea
