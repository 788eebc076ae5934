import Medea.Properties.WatchSnapshot

/-!
# The stream of a watch

What a client of `Watch` receives, for every interleaving of the writers with the registration, the
snapshot read and the forwarding of one watch.

`Watching.stream` is everything on its way to the client, from what has been received to what lies in
the subscriber's buffer. No step reorders it: an event is added at its end when it is published, and
the snapshot when it is read, before anything has been sent (`Step.stream`). From this and the lock
discipline (`Watching.Sound`), `watch_in_order_once`: the events that are delivered have strictly
ascending revisions, each is the event of a write that committed with that revision, and every write
that is committed after registration is delivered exactly once, unless the buffer is full or the
context is done.
-/

set_option autoImplicit false

namespace Medea

open Medea.Interaction Medea.Versioned

/-- The event is that of a write in the history. -/
def Committed (h : List Access) (ev : Change) : Prop :=
  ∃ (n : Nat) (a : Access), h[n]? = some a ∧ a.event (storeAfter (h.take n)) = some ev

theorem Committed.append {h : List Access} {ev : Change} (hc : Committed h ev) (h' : List Access) :
    Committed (h ++ h') ev := by
  obtain ⟨n, a, hn, hev⟩ := hc
  have hlt : n < h.length := (List.getElem?_eq_some_iff.1 hn).1
  refine ⟨n, a, ?_, ?_⟩
  · rw [List.getElem?_append_left hlt]
    exact hn
  · rw [List.take_append_of_le_length (Nat.le_of_lt hlt)]
    exact hev

namespace Watching

/-! ## What is on its way -/

/-- What the goroutine has in hand. -/
def held (w : Watching) : List Change :=
  match w.phase with
  | .running _ _ (.replaying left) => left
  | .running _ _ (.forwarding ev) => [ev]
  | _ => []

/-- What waits in the subscriber's buffer. -/
def buffered (w : Watching) : List Change :=
  match w.phase with
  | .running id _ _ => (bufferOf w.store.subs id).getD []
  | _ => []

/-- Everything that has been received or is on its way, in order. -/
def stream (w : Watching) : List Change := w.received ++ w.out ++ w.held ++ w.buffered

/-- What holds of a watch in every state: the file has a history, the lock is held between a commit
and its publication, and the stream is in order. -/
structure Sound (h : List Access) (w : Watching) : Prop where
  history : History h
  db : w.store.db = (storeAfter h).db
  free : w.writing = none → w.store.lastRev = w.store.db.revision
  locked : ∀ ev, w.writing = some ev →
    ev.revision = w.store.lastRev + 1 ∧ w.store.db.revision = w.store.lastRev + 1 ∧ Committed h ev
  ids : ∀ sub ∈ w.store.subs, sub.1 < w.nextSub
  subscribed : ∀ {id rev point}, w.phase = .running id rev point →
    id < w.nextSub ∧ rev ≤ w.store.lastRev ∧ ∃ buf, bufferOf w.store.subs id = some buf
  /-- Nothing is sent before the snapshot has been read. -/
  unsent : w.phase = .uncalled ∨ (∃ id rev, w.phase = .running id rev .reading) →
    w.received = [] ∧ w.out = []
  /-- What is buffered is newer than the snapshot. -/
  live : ∀ {id rev point}, w.phase = .running id rev point → ∀ ev ∈ w.buffered, rev < ev.revision
  ordered : w.stream.Pairwise fun a b => a.revision < b.revision
  known : ∀ ev ∈ w.stream, Committed h ev ∧ ev.revision ≤ w.store.lastRev

variable {since : Nat} {w w' : Watching} {act : WatchAct} {h : List Access}

/-- What a step does to the stream. -/
inductive Carries (since : Nat) (w : Watching) : WatchAct → Watching → Prop
  | kept {act : WatchAct} {w' : Watching} : w'.stream = w.stream → Carries since w act w'
  | published {w' : Watching} {ev : Change} : w.writing = some ev → w'.stream = w.stream ++ [ev] →
      Carries since w .publish w'
  | read {w' : Watching} {id rev : Nat} : w.phase = .running id rev .reading →
      w'.stream = w.received ++ w.out ++ w.store.db.snapshotEvents since rev ++ w.buffered →
      Carries since w .read w'
  | left {w' : Watching} : w.cancelled = true → w'.stream = w.received ++ w.out →
      Carries since w .leave w'

section

variable (hw : w.Sound h)
include hw

/-- No step reorders the stream. -/
theorem Step.stream (hs : Step since w act w') : Carries since w act w' := by
  cases hs with
  | commit | cancel => exact .kept rfl
  | @publish ev hev =>
    cases hphase : w.phase with
    | running id rev point =>
      obtain ⟨-, -, buf, hbuf⟩ := hw.subscribed hphase
      have hoffer : bufferOf (Store.publish { w.store with lastRev := ev.revision } ev).subs id =
          some (offer ev buf) := by
        rw [bufferOf_publish, hbuf]
        rfl
      by_cases hroom : buf.length < subBuffer
      · refine .published hev ?_
        simp [Watching.stream, held, buffered, hphase, hoffer, hbuf, offer, hroom]
      · refine .kept ?_
        simp [Watching.stream, held, buffered, hphase, hoffer, hbuf, offer, hroom]
    | uncalled | returned =>
      refine .kept ?_
      simp [Watching.stream, held, buffered, hphase]
  | register hfree hun =>
    refine .kept ?_
    simp [Watching.stream, held, buffered, hun, bufferOf_new hw.ids]
  | read hphase =>
    refine .read hphase ?_
    simp [Watching.stream, held, buffered, hphase]
  | readFails hphase | replay hphase hroom | replayed hphase | forward hphase hroom =>
    refine .kept ?_
    simp [Watching.stream, held, buffered, hphase]
  | @take id rev ev rest hphase hbuf =>
    -- the event is newer than the snapshot, so it is kept
    have hnew : ¬ev.revision ≤ rev := by
      have hmem : ev ∈ w.buffered := by simp [buffered, hphase, hbuf]
      have := hw.live hphase ev hmem
      omega
    refine .kept ?_
    simp [Watching.stream, held, buffered, hphase, hbuf, hnew, bufferOf_setBuffer hbuf]
  | receive hout =>
    refine .kept ?_
    simp [Watching.stream, held, buffered, hout]
  | leave hphase _ _ hcancelled =>
    refine .left hcancelled ?_
    simp [Watching.stream, held, buffered]
  | others hsame _ _ =>
    refine .kept ?_
    cases hphase : w.phase with
    | running id rev point =>
      simp [Watching.stream, held, buffered, hphase, hsame id rev point hphase]
    | uncalled | returned => simp [Watching.stream, held, buffered, hphase]

/-! ## The stream stays in order -/

/-- The events of a snapshot are events of writes, older than the registration. -/
theorem Sound.snapshot {rev : Nat} {ev : Change}
    (hev : ev ∈ w.store.db.snapshotEvents since rev) : Committed h ev ∧ ev.revision ≤ rev := by
  rw [hw.db] at hev
  obtain ⟨key, v, he, -, -, hle, rfl⟩ := DB.mem_snapshotEvents.1 hev
  obtain ⟨n, a, hn, -, hpub, -⟩ := WatchSnapshot.published_of_entry hw.history he
  exact ⟨⟨n, a, hn, hpub⟩, hle⟩

theorem Sound.snapshot_ordered (rev : Nat) :
    (w.store.db.snapshotEvents since rev).Pairwise fun a b => a.revision < b.revision := by
  rw [hw.db]
  exact DB.pairwise_snapshotEvents fun he he' =>
    (Revisions.of_history hw.history).unique _ _ _ _ _ he he'

theorem Carries.ordered (hc : Carries since w act w') :
    w'.stream.Pairwise fun a b => a.revision < b.revision := by
  cases hc with
  | kept hkept => exact hkept ▸ hw.ordered
  | @published _ ev hwriting hpub =>
    rw [hpub, List.pairwise_append]
    refine ⟨hw.ordered, List.pairwise_singleton .., ?_⟩
    -- the counter has moved on for the event
    intro a ha b hb
    obtain rfl := List.mem_singleton.1 hb
    have hle := (hw.known a ha).2
    have hnext := (hw.locked b hwriting).1
    omega
  | @read _ id rev hphase hread =>
    obtain ⟨hrec, hout⟩ := hw.unsent (Or.inr ⟨id, rev, hphase⟩)
    have hbuffered : w.buffered.Pairwise fun a b => a.revision < b.revision :=
      (List.pairwise_append.1 hw.ordered).2.1
    rw [hread, hrec, hout, List.nil_append, List.nil_append, List.pairwise_append]
    refine ⟨hw.snapshot_ordered rev, hbuffered, ?_⟩
    intro a ha b hb
    have hle := (hw.snapshot ha).2
    have hnew := hw.live hphase b hb
    omega
  | left _ hleft =>
    rw [hleft]
    have hall := hw.ordered
    rw [stream, List.append_assoc] at hall
    exact (List.pairwise_append.1 hall).1

theorem Carries.known (hc : Carries since w act w') {ev : Change}
    (hev : ev ∈ w'.stream) :
    Committed h ev ∧ (ev.revision ≤ w.store.lastRev ∨ act = .publish ∧ w.writing = some ev) := by
  have hold : ev ∈ w.stream → Committed h ev ∧
      (ev.revision ≤ w.store.lastRev ∨ act = .publish ∧ w.writing = some ev) := fun hmem =>
    ⟨(hw.known ev hmem).1, Or.inl (hw.known ev hmem).2⟩
  cases hc with
  | kept hkept => exact hold (hkept ▸ hev)
  | published hwriting hpub =>
    rw [hpub] at hev
    rcases List.mem_append.1 hev with hev | hev
    · exact hold hev
    · obtain rfl := List.mem_singleton.1 hev
      exact ⟨(hw.locked _ hwriting).2.2, Or.inr ⟨rfl, hwriting⟩⟩
  | @read _ id rev hphase hread =>
    rw [hread] at hev
    simp only [List.mem_append] at hev
    rcases hev with (hev | hev) | hev
    · refine hold ?_
      simp only [stream, List.mem_append]
      exact Or.inl (Or.inl hev)
    · obtain ⟨hc, hle⟩ := hw.snapshot hev
      exact ⟨hc, Or.inl (Nat.le_trans hle (hw.subscribed hphase).2.1)⟩
    · refine hold ?_
      simp only [stream, List.mem_append]
      exact Or.inr hev
  | left _ hleft =>
    rw [hleft] at hev
    refine hold ?_
    simp only [stream, List.mem_append] at hev ⊢
    exact Or.inl (Or.inl hev)

/-- The commit of a write extends the history. -/
theorem Sound.commit {op : StoreOp} {v : op.Value} {kind : EventKind} {key : String}
    (hok : (op.exec w.store).1 = .ok v) (hev : op.event = some (kind, key)) :
    History (h ++ [.call op (.ok v)]) ∧
      (op.exec w.store).2.db = (storeAfter (h ++ [.call op (.ok v)])).db ∧
      (op.exec w.store).2.db.revision = w.store.db.revision + 1 ∧
      Committed (h ++ [.call op (.ok v)]) ⟨kind, key, w.store.db.revision + 1⟩ := by
  have hwrites : op.writes = true := by
    by_contra hread
    rw [StoreOp.event_of_read (Bool.eq_false_of_not_eq_true hread)] at hev
    cases hev
  obtain ⟨hrep, hdb⟩ := StoreOp.exec_same hwrites hw.db
  have hfit : (Access.call op (.ok v)).Fits (storeAfter h) := Or.inl (hok.symm.trans hrep)
  refine ⟨along_append.2 ⟨hw.history, hfit, trivial⟩, ?_, ?_, ?_⟩
  · rw [History.storeAfter_snoc]
    exact hdb
  · have hcount := Access.revision_after hfit
    rw [Access.commits, if_pos hwrites] at hcount
    rw [hdb, hw.db]
    exact hcount
  · refine ⟨h.length, .call op (.ok v), by simp, ?_⟩
    rw [List.take_left' rfl, Access.event, hev, hw.db]
    rfl

/-- The file and the lock after a step. -/
theorem Step.file (hs : Step since w act w') :
    History (h ++ WatchAct.calls [act]) ∧
      w'.store.db = (storeAfter (h ++ WatchAct.calls [act])).db ∧
      (w'.writing = none → w'.store.lastRev = w'.store.db.revision) ∧
      ∀ ev, w'.writing = some ev → ev.revision = w'.store.lastRev + 1 ∧
        w'.store.db.revision = w'.store.lastRev + 1 ∧ Committed (h ++ WatchAct.calls [act]) ev := by
  cases hs with
  | commit hfree hok hev =>
    obtain ⟨hhist, hdb, hrev, hcommitted⟩ := hw.commit hok hev
    have hlast := hw.free hfree
    refine ⟨hhist, hdb, ?_, ?_⟩
    · intro hnone
      cases hnone
    · intro ev hwriting
      cases hwriting
      refine ⟨?_, ?_, hcommitted⟩
      · show w.store.db.revision + 1 = w.store.lastRev + 1
        omega
      · show (StoreOp.exec w.store _).2.db.revision = w.store.lastRev + 1
        omega
  | publish hev =>
    obtain ⟨hrev, hdb, -⟩ := hw.locked _ hev
    rw [show WatchAct.calls [WatchAct.publish] = [] from rfl, List.append_nil]
    refine ⟨hw.history, hw.db, fun _ => hrev.trans hdb.symm, ?_⟩
    intro ev hnone
    cases hnone
  | _ =>
    rw [WatchAct.calls, List.filterMap_cons_none rfl, List.filterMap_nil, List.append_nil]
    exact ⟨hw.history, hw.db, hw.free, hw.locked⟩

/-- The subscribers after a step. -/
theorem Step.subscribers (hs : Step since w act w') :
    (∀ sub ∈ w'.store.subs, sub.1 < w'.nextSub) ∧
      ∀ {id rev point}, w'.phase = .running id rev point →
        id < w'.nextSub ∧ rev ≤ w'.store.lastRev ∧ ∃ buf, bufferOf w'.store.subs id = some buf := by
  cases hs with
  | commit | cancel | receive => exact ⟨hw.ids, hw.subscribed⟩
  | @publish ev hev =>
    constructor
    · intro sub hsub
      obtain ⟨old, hold, rfl⟩ := List.mem_map.1 hsub
      have hlt := hw.ids old hold
      split_ifs <;> exact hlt
    · intro id rev point hphase
      obtain ⟨hid, hrev, buf, hbuf⟩ := hw.subscribed hphase
      have hnext := (hw.locked ev hev).1
      refine ⟨hid, ?_, offer ev buf, ?_⟩
      · show rev ≤ ev.revision
        omega
      · rw [bufferOf_publish, hbuf]
        rfl
  | register hfree hun =>
    constructor
    · intro sub hsub
      rcases List.mem_append.1 hsub with hsub | hsub
      · exact Nat.lt_succ_of_lt (hw.ids sub hsub)
      · rw [List.mem_singleton.1 hsub]
        exact Nat.lt_succ_self _
    · intro id rev point hphase
      cases hphase
      exact ⟨Nat.lt_succ_self _, Nat.le_refl _, [], bufferOf_new hw.ids⟩
  | read hphase | readFails hphase | replay hphase | replayed hphase | forward hphase =>
    refine ⟨hw.ids, ?_⟩
    intro id rev point hphase'
    cases hphase'
    exact hw.subscribed hphase
  | @take id rev ev rest hphase hbuf =>
    constructor
    · intro sub hsub
      obtain ⟨old, hold, rfl⟩ := List.mem_map.1 hsub
      have hlt := hw.ids old hold
      by_cases hid : old.1 = id
      · rw [if_pos hid]
        exact hid ▸ hlt
      · rw [if_neg hid]
        exact hlt
    · intro id' rev' point hphase'
      cases hphase'
      obtain ⟨hid, hrev, -⟩ := hw.subscribed hphase
      exact ⟨hid, hrev, rest, bufferOf_setBuffer hbuf⟩
  | leave hphase =>
    refine ⟨fun sub hsub => hw.ids sub (List.mem_filter.1 hsub).1, ?_⟩
    intro id rev point hphase'
    cases hphase'
  | others hsame hle hids =>
    refine ⟨hids, ?_⟩
    intro id rev point hphase
    obtain ⟨hid, hrev, buf, hbuf⟩ := hw.subscribed hphase
    exact ⟨Nat.lt_of_lt_of_le hid hle, hrev, buf, (hsame id rev point hphase).trans hbuf⟩

/-- What is sent and what is buffered after a step. -/
theorem Step.fresh (hs : Step since w act w') :
    (w'.phase = .uncalled ∨ (∃ id rev, w'.phase = .running id rev .reading) →
        w'.received = [] ∧ w'.out = []) ∧
      ∀ {id rev point}, w'.phase = .running id rev point → ∀ ev ∈ w'.buffered, rev < ev.revision := by
  cases hs with
  | commit | cancel => exact ⟨hw.unsent, hw.live⟩
  | @publish ev hev =>
    refine ⟨hw.unsent, ?_⟩
    intro id rev point hphase ev' hmem
    obtain ⟨-, hrev, buf, hbuf⟩ := hw.subscribed hphase
    have hbuffered : w.buffered = buf := by
      rw [buffered, hphase]
      simp [hbuf]
    have hmem' : ev' ∈ offer ev buf := by
      have hphase' : w.phase = .running id rev point := hphase
      simpa [buffered, hphase', bufferOf_publish, hbuf] using hmem
    have hnext := (hw.locked ev hev).1
    rw [offer] at hmem'
    split_ifs at hmem'
    · rcases List.mem_append.1 hmem' with hold | hnew
      · exact hw.live hphase ev' (hbuffered ▸ hold)
      · obtain rfl := List.mem_singleton.1 hnew
        omega
    · exact hw.live hphase ev' (hbuffered ▸ hmem')
  | register hfree hun =>
    refine ⟨fun _ => hw.unsent (Or.inl hun), ?_⟩
    intro id rev point hphase ev hmem
    simp [buffered, bufferOf_new hw.ids] at hmem
  | read hphase | readFails hphase | replay hphase | replayed hphase | forward hphase =>
    constructor
    · rintro (h' | ⟨id, rev, h'⟩) <;> cases h'
    · intro id rev point hphase' ev hmem
      cases hphase'
      refine hw.live hphase ev ?_
      simpa [buffered, hphase] using hmem
  | @take id rev ev rest hphase hbuf =>
    constructor
    · rintro (h' | ⟨id', rev', h'⟩)
      · cases h'
      · have hpoint := (WatchPhase.running.inj h').2.2
        split_ifs at hpoint
    · intro id' rev' point hphase' ev' hmem
      cases hphase'
      refine hw.live hphase ev' ?_
      have hrest : ev' ∈ rest := by simpa [buffered, bufferOf_setBuffer hbuf] using hmem
      simp [buffered, hphase, hbuf, hrest]
  | @receive ev rest hout =>
    refine ⟨?_, hw.live⟩
    intro h'
    have hnil := (hw.unsent h').2
    rw [hout] at hnil
    cases hnil
  | leave hphase =>
    constructor
    · rintro (h' | ⟨id, rev, h'⟩) <;> cases h'
    · intro id rev point hphase'
      cases hphase'
  | others hsame =>
    refine ⟨hw.unsent, ?_⟩
    intro id rev point hphase ev hmem
    have hphase' : w.phase = .running id rev point := hphase
    refine hw.live hphase ev ?_
    simpa [buffered, hphase', hsame id rev point hphase'] using hmem

/-- The counter in memory never falls; the published event is up to date. -/
theorem Step.lastRev (hs : Step since w act w') :
    w.store.lastRev ≤ w'.store.lastRev ∧
      ∀ ev, act = .publish → w.writing = some ev → ev.revision ≤ w'.store.lastRev := by
  cases hs with
  | @publish ev hev =>
    have hnext := (hw.locked ev hev).1
    refine ⟨?_, ?_⟩
    · show w.store.lastRev ≤ ev.revision
      omega
    · intro ev' _ hev'
      rw [hev] at hev'
      cases hev'
      exact Nat.le_refl _
  | _ => exact ⟨Nat.le_refl _, fun _ hact => nomatch hact⟩

/-- Every step keeps the invariant. -/
theorem Sound.step (hs : Step since w act w') :
    w'.Sound (h ++ WatchAct.calls [act]) := by
  obtain ⟨hhist, hdb, hfree, hlocked⟩ := hs.file hw
  obtain ⟨hids, hsub⟩ := hs.subscribers hw
  obtain ⟨hunsent, hlive⟩ := hs.fresh hw
  obtain ⟨hmono, hpub⟩ := hs.lastRev hw
  have hcarries := hs.stream hw
  refine ⟨hhist, hdb, hfree, hlocked, hids, hsub, hunsent, hlive, hcarries.ordered hw, ?_⟩
  intro ev hev
  obtain ⟨hc, hle | ⟨hact, hwriting⟩⟩ := hcarries.known hw hev
  · exact ⟨hc.append _, Nat.le_trans hle hmono⟩
  · exact ⟨hc.append _, hpub ev hact hwriting⟩

end

/-! ## Runs -/

variable {w₀ : Watching} {acts acts' : List WatchAct} {ev : Change}

theorem Opens.sound (ho : w₀.Opens h) : w₀.Sound h := by
  have hstream : w₀.stream = [] := by
    simp [stream, held, buffered, ho.uncalled, ho.out, ho.received]
  refine ⟨ho.history, ho.db, fun _ => ho.last, ?_, ho.ids, ?_, fun _ => ⟨ho.received, ho.out⟩, ?_,
    ?_, ?_⟩
  · intro ev hev
    rw [ho.free] at hev
    cases hev
  · intro id rev point hphase
    rw [ho.uncalled] at hphase
    cases hphase
  · intro id rev point hphase
    rw [ho.uncalled] at hphase
    cases hphase
  · rw [hstream]
    exact List.Pairwise.nil
  · intro ev hev
    rw [hstream] at hev
    cases hev

theorem Run.sound (hw0 : w₀.Sound h) (hr : Run since w₀ acts w) :
    w.Sound (h ++ WatchAct.calls acts) := by
  induction hr with
  | nil =>
    rw [WatchAct.calls, List.filterMap_nil, List.append_nil]
    exact hw0
  | @snoc acts w w' act _ hs ih =>
    have hcalls : WatchAct.calls (acts ++ [act]) = WatchAct.calls acts ++ WatchAct.calls [act] :=
      List.filterMap_append
    rw [hcalls, ← List.append_assoc]
    exact ih.step hs

theorem Run.trans {d : Watching} (h1 : Run since w₀ acts d) (h2 : Run since d acts' w) :
    Run since w₀ (acts ++ acts') w := by
  induction h2 with
  | nil =>
    rw [List.append_nil]
    exact h1
  | snoc _ hs ih =>
    rw [← List.append_assoc]
    exact .snoc ih hs

/-- A context that is not done was not done before. -/
theorem Step.not_cancelled (hs : Step since w act w') (hc : w'.cancelled = false) :
    w.cancelled = false := by
  cases hs with
  | cancel => cases hc
  | _ => exact hc

theorem Run.not_cancelled (hr : Run since w₀ acts w) (hc : w.cancelled = false) :
    w₀.cancelled = false := by
  induction hr with
  | nil => exact hc
  | snoc _ hs ih => exact ih (hs.not_cancelled hc)

/-- What is on its way stays on its way while the context is not done. -/
theorem Step.mem_stream (hw : w.Sound h) (hs : Step since w act w') (hc : w'.cancelled = false)
    (hev : ev ∈ w.stream) : ev ∈ w'.stream := by
  cases hs.stream hw with
  | kept hkept => exact hkept ▸ hev
  | published _ hpub =>
    rw [hpub]
    exact List.mem_append_left _ hev
  | @read _ id rev hphase hread =>
    rw [hread]
    simp only [Watching.stream, held, hphase, List.append_nil, List.mem_append] at hev ⊢
    exact hev.imp_left Or.inl
  | left hcancelled _ =>
    rw [hs.not_cancelled hc] at hcancelled
    cases hcancelled

theorem Run.mem_stream (ho : w₀.Opens h) {d : Watching} (h1 : Run since w₀ acts d)
    (h2 : Run since d acts' w) (hc : w.cancelled = false) (hev : ev ∈ d.stream) : ev ∈ w.stream := by
  induction h2 with
  | nil => exact hev
  | snoc hr hs ih => exact hs.mem_stream ((h1.trans hr).sound ho.sound) hc (ih (hs.not_cancelled hc))

/-- The lock is held until the event is published. -/
theorem Run.writing (hr : Run since w₀ acts w) (hnot : .publish ∉ acts)
    (hwriting : w₀.writing = some ev) : w.writing = some ev := by
  induction hr with
  | nil => exact hwriting
  | snoc _ hs ih =>
    have hbefore := ih fun hmem => hnot (List.mem_append_left _ hmem)
    cases hs with
    | commit hfree =>
      rw [hfree] at hbefore
      cases hbefore
    | publish => exact absurd (List.mem_append_right _ List.mem_cons_self) hnot
    | _ => exact hbefore

/-- A registered watch keeps its subscription while the context is not done. -/
theorem Run.subscription (hr : Run since w₀ acts w) (hc : w.cancelled = false) {id rev : Nat}
    {point : WatchPoint} (hphase : w₀.phase = .running id rev point) :
    ∃ point', w.phase = .running id rev point' := by
  induction hr with
  | nil => exact ⟨point, hphase⟩
  | snoc _ hs ih =>
    obtain ⟨point', hbefore⟩ := ih (hs.not_cancelled hc)
    cases hs with
    | register _ hun =>
      rw [hun] at hbefore
      cases hbefore
    | read hphase' | readFails hphase' | replay hphase' | replayed hphase' | take hphase'
    | forward hphase' =>
      rw [hphase'] at hbefore
      cases hbefore
      exact ⟨_, rfl⟩
    | leave _ _ _ hcancelled =>
      rw [show _ = true from hcancelled] at hc
      cases hc
    | _ => exact ⟨point', hbefore⟩

/-! ## Delivery -/

/-- The write of the event commits while the watch is registered, and there is room in the buffer when
it is published. -/
inductive Accepted (since : Nat) (w₀ : Watching) (ev : Change) : Watching → Prop
  | intro {pre mid post : List WatchAct} {d₀ d₁ d₂ d₃ w : Watching} {op : StoreOp} {v : op.Value}
      {id rev : Nat} {point : WatchPoint} {buf : List Change} :
      Run since w₀ pre d₀ → d₀.phase = .running id rev point → Step since d₀ (.commit op v) d₁ →
      d₁.writing = some ev → Run since d₁ mid d₂ → .publish ∉ mid →
      bufferOf d₂.store.subs id = some buf → buf.length < subBuffer → Step since d₂ .publish d₃ →
      Run since d₃ post w → Accepted since w₀ ev w

/-- The watch of an accepted event is still registered. -/
theorem Accepted.running (ha : Accepted since w₀ ev w) (hc : w.cancelled = false) :
    ∃ id rev point, w.phase = .running id rev point := by
  obtain ⟨-, hphase, hcommit, -, hmid, -, -, -, hpub, hpost⟩ := ha
  have hafter := ((Run.nil.snoc hcommit).trans hmid).snoc hpub
  obtain ⟨point, hphase'⟩ := (hafter.trans hpost).subscription hc hphase
  exact ⟨_, _, point, hphase'⟩

/-- An accepted event is on its way or received. -/
theorem Accepted.mem_stream (ho : w₀.Opens h) (ha : Accepted since w₀ ev w)
    (hc : w.cancelled = false) : ev ∈ w.stream := by
  obtain ⟨hpre, hphase, hcommit, hwriting, hmid, hnot, hbuf, hroom, hpub, hpost⟩ := ha
  have hc3 := hpost.not_cancelled hc
  have hc2 := hpub.not_cancelled hc3
  have hwriting2 := hmid.writing hnot hwriting
  obtain ⟨point2, hphase2⟩ := ((Run.nil.snoc hcommit).trans hmid).subscription hc2 hphase
  refine Run.mem_stream ho (.snoc ((hpre.snoc hcommit).trans hmid) hpub) hpost hc ?_
  cases hpub with
  | publish hev =>
    rw [hwriting2] at hev
    cases hev
    refine List.mem_append_right _ ?_
    simp [buffered, hphase2, bufferOf_publish, hbuf, offer, hroom]

end Watching

/-- The steps of the goroutine and of its client. -/
def WatchAct.internal : WatchAct → Bool
  | .read | .readFails | .replay | .replayed | .take | .forward | .receive => true
  | _ => false

namespace Watching

variable {since : Nat} {w w' w₀ : Watching} {act : WatchAct} {acts : List WatchAct} {h : List Access}

/-- Neither the goroutine nor the client has anything left to do. -/
def Settled (since : Nat) (w : Watching) : Prop :=
  ∀ act w', act.internal = true → ¬Step since w act w'

/-- The goroutine waits for an event, and there is none. -/
theorem settled_of_idle {id rev : Nat} (hphase : w.phase = .running id rev .listening)
    (hbuf : bufferOf w.store.subs id = some []) (hout : w.out = []) : w.Settled since := by
  intro act w' hact hs
  cases hs with
  | read hphase' | readFails hphase' | replay hphase' | replayed hphase' | forward hphase' =>
    rw [hphase] at hphase'
    cases hphase'
  | take hphase' hbuf' =>
    rw [hphase] at hphase'
    cases hphase'
    rw [hbuf] at hbuf'
    cases hbuf'
  | receive hout' =>
    rw [hout] at hout'
    cases hout'
  | _ => cases hact

/-- A bound on what the goroutine and the client still have to do. -/
def backlog (since : Nat) (w : Watching) : Nat :=
  (match w.phase with
    | .running _ rev .reading => 2 * (w.store.db.snapshotEvents since rev).length + 2
    | .running _ _ (.replaying left) => 2 * left.length + 1
    | .running _ _ (.forwarding _) => 2
    | _ => 0) + w.out.length + 3 * w.buffered.length

/-- When all is settled, everything on its way has been received. -/
theorem Settled.received (hw : w.Sound h) (hs : w.Settled since) {id rev : Nat} {point : WatchPoint}
    (hphase : w.phase = .running id rev point) : w.stream = w.received := by
  have hout : w.out = [] := by
    cases hout : w.out with
    | nil => rfl
    | cons ev rest => exact absurd (Step.receive hout) (hs _ _ rfl)
  have hroom : w.out.length < subBuffer := by
    rw [hout]
    decide
  obtain ⟨-, -, buf, hbuf⟩ := hw.subscribed hphase
  cases point with
  | reading => exact absurd (Step.read hphase) (hs _ _ rfl)
  | forwarding ev => exact absurd (Step.forward hphase hroom) (hs _ _ rfl)
  | replaying left =>
    cases left with
    | nil => exact absurd (Step.replayed hphase) (hs _ _ rfl)
    | cons ev left => exact absurd (Step.replay hphase hroom) (hs _ _ rfl)
  | listening =>
    cases buf with
    | nil => simp [stream, held, buffered, hphase, hout, hbuf]
    | cons ev rest => exact absurd (Step.take hphase hbuf) (hs _ _ rfl)

/-- Every step of the goroutine or the client is progress. -/
theorem Step.backlog_lt (hs : Step since w act w') (hact : act.internal = true) :
    w'.backlog since < w.backlog since := by
  cases hs with
  | read hphase | readFails hphase | replay hphase | replayed hphase | forward hphase =>
    simp only [backlog, buffered, hphase, List.length_append, List.length_cons, List.length_nil]
    omega
  | @take id rev ev rest hphase hbuf =>
    by_cases hrev : ev.revision ≤ rev
    · simp [backlog, buffered, hphase, hbuf, hrev, bufferOf_setBuffer hbuf]
    · simp [backlog, buffered, hphase, hbuf, hrev, bufferOf_setBuffer hbuf]
      omega
  | receive hout =>
    simp only [backlog, buffered, hout, List.length_cons]
    omega
  | _ => cases hact

theorem Run.backlog_le (hr : Run since w acts w') (hacts : ∀ act ∈ acts, act.internal = true) :
    acts.length + w'.backlog since ≤ w.backlog since := by
  induction hr with
  | nil => simp
  | snoc _ hs ih =>
    have hbefore := ih fun act hact => hacts act (List.mem_append_left _ hact)
    have hlt := hs.backlog_lt (hacts _ (List.mem_append_right _ List.mem_cons_self))
    rw [List.length_append, List.length_singleton]
    omega

end Watching

/-- The stream of a watch is in order and without duplicates, for every history, every `since` and
every interleaving. -/
theorem watch_in_order_once {h : List Access} {since : Nat} {w₀ w : Watching}
    {acts : List WatchAct} (ho : w₀.Opens h) (hr : Watching.Run since w₀ acts w) :
    ((w.received ++ w.out).Pairwise fun a b => a.revision < b.revision) ∧
    (∀ ev ∈ w.received ++ w.out, Committed (h ++ WatchAct.calls acts) ev) ∧
    (∀ ev, Watching.Accepted since w₀ ev w → w.cancelled = false →
      w.received.count ev ≤ 1 ∧ (w.Settled since → w.received.count ev = 1)) ∧
    ∀ acts' w', Watching.Run since w acts' w' → (∀ act ∈ acts', act.internal = true) →
      acts'.length ≤ w.backlog since := by
  have hw := hr.sound ho.sound
  have hordered : (w.received ++ w.out).Pairwise fun a b => a.revision < b.revision := by
    have hall := hw.ordered
    rw [Watching.stream, List.append_assoc] at hall
    exact (List.pairwise_append.1 hall).1
  have hnodup : w.received.Nodup :=
    (List.pairwise_append.1 hordered).1.imp fun hlt heq => by
      rw [heq] at hlt
      exact Nat.lt_irrefl _ hlt
  refine ⟨hordered, ?_, ?_, ?_⟩
  · intro ev hev
    refine (hw.known ev ?_).1
    rw [Watching.stream, List.append_assoc]
    exact List.mem_append_left _ hev
  · intro ev haccepted hc
    refine ⟨List.nodup_iff_count_le_one.1 hnodup ev, ?_⟩
    intro hsettled
    refine List.count_eq_one_of_mem hnodup ?_
    have hmem := haccepted.mem_stream ho hc
    obtain ⟨id, rev, point, hphase⟩ := haccepted.running hc
    rw [hsettled.received hw hphase] at hmem
    exact hmem
  · intro acts' w' hr' hacts
    have hbound := hr'.backlog_le hacts
    omega

namespace WatchStream

/-- The store is empty and nobody watches it. -/
def opened : Watching := { store := {}, nextSub := 0 }

theorem opened_opens : opened.Opens [] where
  history := trivial
  db := rfl
  last := rfl
  ids := by decide
  free := rfl
  uncalled := rfl
  out := rfl
  received := rfl

def registered : Watching :=
  { opened with store := { opened.store with subs := [(0, [])] }, nextSub := 1,
                phase := .running 0 0 .reading }

def written : StoreOp := .putClusterBootstrap { cluster := "c" }

def event : Change := ⟨.clusterBootstrap, "c", 1⟩

def committed : Watching :=
  { registered with store := { registered.store with db := (written.exec registered.store).2.db },
                    writing := some event }

def published : Watching :=
  { committed with store := Store.publish { committed.store with lastRev := 1 } event,
                   writing := none }

def replaying : Watching := { published with phase := .running 0 0 (.replaying []) }

def forwarding : Watching :=
  { published with store := { published.store with subs := [(0, [])] },
                   phase := .running 0 0 (.forwarding event) }

def delivered : Watching :=
  { forwarding with phase := .running 0 0 .listening, received := [event] }

def listening : Watching := { published with phase := .running 0 0 .listening }

def sent : Watching := { forwarding with phase := .running 0 0 .listening, out := [event] }

/-- From the publication on, the goroutine reads the snapshot, finds it empty and forwards the event. -/
theorem published_delivered :
    Watching.Run 0 published [.read, .replayed, .take, .forward, .receive] delivered := by
  have hread : Watching.Step 0 published .read replaying := by
    have hsnap : published.store.db.snapshotEvents 0 0 = [] := by decide +kernel
    have hstep : Watching.Step 0 published .read _ := .read rfl
    rw [hsnap] at hstep
    exact hstep
  have hreplayed : Watching.Step 0 replaying .replayed listening := .replayed rfl
  have hbuffer : bufferOf listening.store.subs 0 = some [event] := rfl
  have htake : Watching.Step 0 listening .take _ := .take rfl hbuffer
  have hforward : Watching.Step 0 forwarding .forward sent := .forward rfl (by decide)
  have hreceive : Watching.Step 0 sent .receive delivered := .receive rfl
  exact ((((Watching.Run.nil.snoc hread).snoc hreplayed).snoc htake).snoc hforward).snoc hreceive

theorem opened_registered : Watching.Step 0 opened .register registered := .register rfl rfl

theorem registered_committed : Watching.Step 0 registered (.commit written ()) committed :=
  .commit rfl rfl rfl

theorem committed_published : Watching.Step 0 committed .publish published := by
  have hwriting : committed.writing = some event := rfl
  exact .publish hwriting

theorem delivered_settled : delivered.Settled 0 := Watching.settled_of_idle rfl rfl rfl

end WatchStream

open WatchStream

/-- A write that commits between registration and the reading of the snapshot is received once. -/
theorem late_write_received :
    Watching.Accepted 0 WatchStream.opened WatchStream.event WatchStream.delivered ∧
      WatchStream.delivered.received.count WatchStream.event = 1 := by
  have haccepted : Watching.Accepted 0 opened event delivered :=
    .intro (Watching.Run.nil.snoc opened_registered) rfl
      registered_committed rfl .nil (by simp) rfl (by decide)
      committed_published published_delivered
  have hrun := (((Watching.Run.nil.snoc opened_registered).snoc
    registered_committed).snoc committed_published).trans
      published_delivered
  exact ⟨haccepted, ((watch_in_order_once opened_opens hrun).2.2.1 _ haccepted rfl).2
    delivered_settled⟩

end Medea
