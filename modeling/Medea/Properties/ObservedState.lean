import Medea.ControlPlane.Processes
import Medea.Inventory.Watch
import Medea.Server.Observed
import Mathlib.Data.Option.Basic

/-!
# Observed state stays in memory

A session is a store with everything that is done to it: calls on the store, requests, exports and
imports that run side by side over it and make their calls one by one, watches, and restarts. Its turns
are given, with the answers of the outside and the failures of the file system; what the store answers,
and what the requests return, follows.

`observed_never_leaks`: two sessions with the same turns, up to any number of `SetClusterObserved` and
`SetMachineObserved` calls anywhere in either of them, end with the same file, revision and watchers,
and everything reported on the way is the same up to the observed parts of the records that were read.
-/

set_option autoImplicit false

namespace Medea

open Medea.Interaction

/-! ## Sessions -/

/-- What runs over the store, besides single calls. -/
inductive Job where
  | serve (req : Request)
  | exporting
  | importing (doc : Except String ExportDoc)

/-- What it returns. -/
inductive Output where
  | response (r : Except Status Response)
  | document (r : Except String ExportDoc)
  | imported (r : Option String)

def Job.prog (server : Server) : Job → Prog Output
  | .serve req => do return .response (← server.answer req)
  | .exporting => do return .document (← ExportDoc.exportAll)
  | .importing doc => do return .imported (← ExportDoc.importAll doc)

/-- The store, and what is in progress over it. -/
structure Session where
  store : Store
  jobs : Nat → Option (Prog Output) := fun _ => none

/-- One thing that happens in a session. -/
inductive Turn where
  /-- A call on the store, which may fail in the file system. -/
  | call (op : StoreOp) (failure : Option String)
  | start (i : Nat) (job : Job)
  /-- A job makes its next call, or returns. -/
  | step (i : Nat) (oracle : Oracle) (failure : Option String)
  /-- The process is restarted. -/
  | reopen
  -- the accesses of a watch to the store
  | subscribe (id : Nat)
  | snapshot (since upto : Nat)
  | take (id : Nat)
  | unsubscribe (id : Nat)

/-- What a turn makes known. -/
inductive Report where
  | called (e : Ev)
  | finished (i : Nat) (out : Output)
  | subscribed (rev : Nat)
  | replayed (evs : List Change)
  | received (ev : Option Change)

/-- A call, with a failure of the file system if it writes. -/
def Store.attempt (s : Store) (op : StoreOp) : Option String → Except StoreError op.Value × Store
  | some msg => if op.writes then (.error (.other msg), s) else op.exec s
  | none => op.exec s

/-- The calls that put something into the observed cache. -/
def Turn.observes : Turn → Bool
  | .call (.setClusterObserved _ _) _ | .call (.setMachineObserved _ _ _) _ => true
  | _ => false

/-- One turn of a job. -/
def Session.advance (s : Session) (i : Nat) (oracle : Oracle) (failure : Option String) :
    Option (Prog Output) → Session × List Report
  | none => (s, [])
  | some (.done out) => ({ s with jobs := Function.update s.jobs i none }, [.finished i out])
  | some (.request (.store op) next) =>
    let (rep, store) := s.store.attempt op failure
    (⟨store, Function.update s.jobs i (some (next rep))⟩, [.called ⟨.store op, rep⟩])
  | some (.request op next) =>
    ({ s with jobs := Function.update s.jobs i (some (next (oracle op))) },
      [.called ⟨op, oracle op⟩])

/-- One turn. -/
def Turn.run (server : Server) (s : Session) : Turn → Session × List Report
  | .call op failure =>
    let (rep, store) := s.store.attempt op failure
    ({ s with store := store },
      -- the cache has no results
      if (Turn.call op failure).observes then [] else [.called ⟨.store op, rep⟩])
  | .start i job =>
    match s.jobs i with
    | none => ({ s with jobs := Function.update s.jobs i (some (job.prog server)) }, [])
    | some _ => (s, [])
  | .step i oracle failure => s.advance i oracle failure (s.jobs i)
  | .reopen => ({ store := s.store.open }, [])
  | .subscribe id =>
    ({ s with store := { s.store with subs := s.store.subs ++ [(id, [])] } },
      [.subscribed s.store.lastRev])
  | .snapshot since upto => (s, [.replayed (s.store.db.snapshotEvents since upto)])
  | .take id =>
    match bufferOf s.store.subs id with
    | some (ev :: rest) =>
      ({ s with store := { s.store with subs := setBuffer s.store.subs id rest } },
        [.received (some ev)])
    | _ => (s, [.received none])
  | .unsubscribe id =>
    ({ s with store := { s.store with subs := s.store.subs.filter fun sub => sub.1 ≠ id } }, [])

/-- The turns of a session, with all reports. -/
def Session.play (server : Server) : List Turn → Session → Session × List Report
  | [], s => (s, [])
  | t :: ts, s =>
    ((Session.play server ts (t.run server s).1).1,
      (t.run server s).2 ++ (Session.play server ts (t.run server s).1).2)

/-! ## Two sessions -/

/-- The same turn, or alike calls. -/
inductive Turn.Alike : Turn → Turn → Prop
  | same (t : Turn) : Turn.Alike t t
  | call {op op' : StoreOp} (failure : Option String) : op.Alike op' →
      Turn.Alike (.call op failure) (.call op' failure)

/-- The two lists of turns are alike when the calls into the observed cache are left out. -/
inductive SameTurns : List Turn → List Turn → Prop
  | nil : SameTurns [] []
  | left {t : Turn} {ts ts' : List Turn} : t.observes = true → SameTurns ts ts' →
      SameTurns (t :: ts) ts'
  | right {t : Turn} {ts ts' : List Turn} : t.observes = true → SameTurns ts ts' →
      SameTurns ts (t :: ts')
  | both {t t' : Turn} {ts ts' : List Turn} : t.Alike t' → SameTurns ts ts' →
      SameTurns (t :: ts) (t' :: ts')

/-- The call and its answer without observed parts. -/
def Ev.blank : Ev → Ev
  | ⟨.store (.putClusterDesired c expected), r⟩ => ⟨.store (.putClusterDesired c.blank expected), r⟩
  | ⟨.store (.putMachineDesired m expected), r⟩ => ⟨.store (.putMachineDesired m.blank expected), r⟩
  | ⟨.store op, r⟩ => ⟨.store op, r.map op.view⟩
  | e => e

def Output.blank : Output → Output
  | .response r => .response (r.map Response.blank)
  | out => out

def Report.blank : Report → Report
  | .called e => .called (Ev.blank e)
  | .finished i out => .finished i out.blank
  | r => r

namespace ObservedState

variable (server : Server) {s s' : Session}

theorem blank_of_alike {e e' : Ev} (h : Ev.Alike e e') : Ev.blank e = Ev.blank e' := by
  cases h with
  | @store op r r' hr =>
    have hview : r.map op.view = r'.map op.view := hr
    cases op with
    | putClusterDesired | putMachineDesired => rw [eq_of_agree_id hr]
    | _ => exact congrArg (fun r => (⟨_, r⟩ : Ev)) hview
  | cluster expected r hc => rw [Ev.blank, Ev.blank, hc]
  | machine expected r hm => rw [Ev.blank, Ev.blank, hm]
  | outside e => rfl

/-- The stores are alike and the same jobs are in progress, each blind to what is observed. -/
structure Alike (s s' : Session) : Prop where
  store : s.store.Alike s'.store
  jobs : ∀ i, Option.Rel (Blind fun out out' => out.blank = out'.blank) (s.jobs i) (s'.jobs i)

/-- The reports are the same up to observed parts. -/
def Reported (rs rs' : List Report) : Prop := rs.map Report.blank = rs'.map Report.blank

theorem prog_blind (job : Job) :
    Blind (fun out out' => Output.blank out = Output.blank out') (job.prog server)
      (job.prog server) := by
  cases job with
  | serve req =>
    refine (server.answer_blind req).bind ?_
    intro r r' hr
    exact .done (congrArg Output.response hr)
  | exporting =>
    refine ExportDoc.exportAll_blind.bind ?_
    rintro r _ rfl
    exact .done rfl
  | importing doc =>
    refine (ExportDoc.importAll_blind doc).bind ?_
    rintro r _ rfl
    exact .done rfl

/-- A call that fails is not answered by the store. -/
theorem attempt_alike {st st' : Store} {op op' : StoreOp} (hop : op.Alike op')
    (hst : st.Alike st') (failure : Option String) :
    Ev.Alike ⟨.store op, (st.attempt op failure).1⟩ ⟨.store op', (st'.attempt op' failure).1⟩ ∧
      (st.attempt op failure).2.Alike (st'.attempt op' failure).2 := by
  have hwrites : op.writes = op'.writes := by cases hop <;> rfl
  cases failure with
  | none => exact StoreOp.exec_alike hop hst
  | some msg =>
    simp only [Store.attempt, hwrites]
    by_cases hw : op'.writes = true
    · simp only [if_pos hw]
      refine ⟨?_, hst⟩
      cases hop with
      | same op => exact .store rfl
      | cluster expected hc => exact .cluster expected _ hc
      | machine expected hm => exact .machine expected _ hm
    · simp only [if_neg hw]
      exact StoreOp.exec_alike hop hst

theorem jobs_update (hs : Alike s s') (i : Nat) {job job' : Option (Prog Output)}
    (hjob : Option.Rel (Blind fun out out' => out.blank = out'.blank) job job') (j : Nat) :
    Option.Rel (Blind fun out out' => out.blank = out'.blank) (Function.update s.jobs i job j)
      (Function.update s'.jobs i job' j) := by
  by_cases hj : j = i
  · subst hj
    simpa using hjob
  · simpa [Function.update_of_ne hj] using hs.jobs j

/-- A job makes alike calls, or returns with alike results. -/
theorem advance_alike (hs : Alike s s') (i : Nat) (oracle : Oracle) (failure : Option String)
    {job job' : Option (Prog Output)}
    (hjob : Option.Rel (Blind fun out out' => out.blank = out'.blank) job job') :
    Alike (s.advance i oracle failure job).1 (s'.advance i oracle failure job').1 ∧
      Reported (s.advance i oracle failure job).2 (s'.advance i oracle failure job').2 := by
  cases hjob with
  | none => exact ⟨hs, rfl⟩
  | some hp =>
    cases hp with
    | @done out out' hout =>
      refine ⟨⟨hs.store, jobs_update hs i .none⟩, ?_⟩
      exact congrArg (fun out => [Report.finished i out]) hout
    | @request op op' next next' hop hnext =>
      cases hop with
      | @store op op' hop =>
        obtain ⟨hev, hstore⟩ := attempt_alike hop hs.store failure
        refine ⟨⟨hstore, jobs_update hs i (.some (hnext _ _ hev))⟩, ?_⟩
        exact congrArg (fun e => [Report.called e]) (blank_of_alike hev)
      | outside op =>
        cases op with
        | store op =>
          obtain ⟨hev, hstore⟩ := attempt_alike (.same op) hs.store failure
          refine ⟨⟨hstore, jobs_update hs i (.some (hnext _ _ hev))⟩, ?_⟩
          exact congrArg (fun e => [Report.called e]) (blank_of_alike hev)
        | _ =>
          refine ⟨⟨hs.store, jobs_update hs i (.some (hnext _ _ (.outside _)))⟩, ?_⟩
          rfl

/-- A call outside any job. -/
theorem call_alike (hs : Alike s s') {op op' : StoreOp} (hop : op.Alike op')
    (failure : Option String) :
    Alike ((Turn.call op failure).run server s).1 ((Turn.call op' failure).run server s').1 ∧
      Reported ((Turn.call op failure).run server s).2 ((Turn.call op' failure).run server s').2 := by
  obtain ⟨hev, hstore⟩ := attempt_alike hop hs.store failure
  have hobserves : (Turn.call op failure).observes = (Turn.call op' failure).observes := by
    cases hop <;> rfl
  refine ⟨⟨hstore, hs.jobs⟩, ?_⟩
  simp only [Turn.run, hobserves]
  by_cases ho : (Turn.call op' failure).observes = true
  · simp only [if_pos ho]
    rfl
  · simp only [if_neg ho]
    exact congrArg (fun e => [Report.called e]) (blank_of_alike hev)

/-- One turn on both sides. -/
theorem run_alike (hs : Alike s s') {t t' : Turn} (ht : t.Alike t') :
    Alike (t.run server s).1 (t'.run server s').1 ∧
      Reported (t.run server s).2 (t'.run server s').2 := by
  obtain ⟨hdb, hlast, hsubs⟩ := Store.alike_iff.1 hs.store
  cases ht with
  | call failure hop => exact call_alike server hs hop failure
  | same t =>
    cases t with
    | call op failure => exact call_alike server hs (.same op) failure
    | start i job =>
      have hjob := hs.jobs i
      simp only [Turn.run]
      cases hi : s.jobs i with
      | none =>
        rw [hi] at hjob
        cases hi' : s'.jobs i with
        | none => exact ⟨⟨hs.store, jobs_update hs i (.some (prog_blind server job))⟩, rfl⟩
        | some p' =>
          rw [hi'] at hjob
          cases hjob
      | some p =>
        rw [hi] at hjob
        cases hi' : s'.jobs i with
        | none =>
          rw [hi'] at hjob
          cases hjob
        | some p' => exact ⟨hs, rfl⟩
    | step i oracle failure => exact advance_alike hs i oracle failure (hs.jobs i)
    | reopen =>
      refine ⟨⟨?_, fun _ => .none⟩, rfl⟩
      exact Store.alike_iff.2 ⟨hdb, congrArg DB.revision hdb, rfl⟩
    | subscribe id =>
      simp only [Turn.run, hsubs, hlast]
      exact ⟨⟨Store.alike_iff.2 ⟨hdb, rfl, rfl⟩, hs.jobs⟩, rfl⟩
    | snapshot since upto =>
      simp only [Turn.run, hdb]
      exact ⟨hs, rfl⟩
    | take id =>
      simp only [Turn.run, hsubs]
      rcases bufferOf s'.store.subs id with _ | ⟨_ | ⟨ev, rest⟩⟩
      · exact ⟨hs, rfl⟩
      · exact ⟨hs, rfl⟩
      · exact ⟨⟨Store.alike_iff.2 ⟨hdb, hlast, rfl⟩, hs.jobs⟩, rfl⟩
    | unsubscribe id =>
      simp only [Turn.run, hsubs]
      exact ⟨⟨Store.alike_iff.2 ⟨hdb, hlast, rfl⟩, hs.jobs⟩, rfl⟩

/-- A call into the observed cache is not seen. -/
theorem alike_of_observes {t : Turn} (ht : t.observes = true) (s : Session) :
    (t.run server s).1.store.Alike s.store ∧ (t.run server s).1.jobs = s.jobs ∧
      (t.run server s).2 = [] := by
  cases t with
  | call op failure =>
    cases op with
    | setClusterObserved | setMachineObserved => cases failure <;> exact ⟨rfl, rfl, rfl⟩
    | _ => cases ht
  | _ => cases ht

/-- The sessions stay alike over all turns. -/
theorem play_alike {ts ts' : List Turn} (h : SameTurns ts ts') (hs : Alike s s') :
    Alike (Session.play server ts s).1 (Session.play server ts' s').1 ∧
      Reported (Session.play server ts s).2 (Session.play server ts' s').2 := by
  induction h generalizing s s' with
  | nil => exact ⟨hs, rfl⟩
  | @left t ts ts' ht _ ih =>
    obtain ⟨hstore, hjobs, hnone⟩ := alike_of_observes server ht s
    rw [Session.play, hnone]
    refine ih ⟨hstore.trans hs.store, ?_⟩
    rw [hjobs]
    exact hs.jobs
  | @right t ts ts' ht _ ih =>
    obtain ⟨hstore, hjobs, hnone⟩ := alike_of_observes server ht s'
    rw [Session.play, hnone]
    refine ih ⟨hs.store.trans hstore.symm, ?_⟩
    rw [hjobs]
    exact hs.jobs
  | @both t t' ts ts' ht _ ih =>
    obtain ⟨hafter, hrep⟩ := run_alike server hs ht
    obtain ⟨hend, hreps⟩ := ih hafter
    refine ⟨hend, ?_⟩
    rw [Session.play, Session.play, Reported, List.map_append, List.map_append, hrep, hreps]

end ObservedState

/-- Two sessions over the same store, with the same turns up to calls into the observed cache: the
files, the published revisions and the buffers of the watchers are the same in the end, and what the
calls, the requests, the exports and the watches reported was the same up to the observed parts of
records that were read. Revisions, errors, events and documents have no such parts. -/
theorem observed_never_leaks (server : Server) (s : Store) {ts ts' : List Turn}
    (h : SameTurns ts ts') :
    (Session.play server ts ⟨s, fun _ => none⟩).1.store.db =
        (Session.play server ts' ⟨s, fun _ => none⟩).1.store.db ∧
      (Session.play server ts ⟨s, fun _ => none⟩).1.store.lastRev =
        (Session.play server ts' ⟨s, fun _ => none⟩).1.store.lastRev ∧
      (Session.play server ts ⟨s, fun _ => none⟩).1.store.subs =
        (Session.play server ts' ⟨s, fun _ => none⟩).1.store.subs ∧
      (Session.play server ts ⟨s, fun _ => none⟩).2.map Report.blank =
        (Session.play server ts' ⟨s, fun _ => none⟩).2.map Report.blank := by
  have hstart : ObservedState.Alike ⟨s, fun _ => none⟩ ⟨s, fun _ => none⟩ := ⟨rfl, fun _ => .none⟩
  obtain ⟨hend, hreps⟩ := ObservedState.play_alike server h hstart
  obtain ⟨hdb, hlast, hsubs⟩ := Store.alike_iff.1 hend.store
  exact ⟨hdb, hlast, hsubs, hreps⟩

/-- A request that enables rollouts; the cluster is observed before it is read. -/
def ObservedState.enabling (observing : List Turn) : List Turn :=
  [.call (.putClusterDesired { name := "c" } 0) none, .start 0 (.serve (.enableRollouts "c"))] ++
    observing ++ List.replicate 3 (.step 0 (Oracle.working "v1.7.0" []) none)

/-- What is written is the same with and without an observation to read. -/
theorem enabling_same :
    (Session.play ⟨false⟩ (ObservedState.enabling [.call (.setClusterObserved "c" ⟨"v1.30.0", true⟩) none])
        ⟨{}, fun _ => none⟩).1.store.db =
      (Session.play ⟨false⟩ (ObservedState.enabling []) ⟨{}, fun _ => none⟩).1.store.db :=
  (observed_never_leaks ⟨false⟩ {} (.both (.same _) (.both (.same _) (.left rfl
    (.both (.same _) (.both (.same _) (.both (.same _) .nil))))))).1

end Medea
