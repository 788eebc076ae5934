import Medea.Inventory.Live
import Medea.Provision.Bootstrap
import Medea.Rollout.Executor
import Medea.Server.Handlers

/-!
# The control plane as a system of processes

`medea serve` runs the API calls of its clients, the refresher and three executors side by side over
one store. Each of them is a process here; one executor runs one pass at a time. A step of a run is
one operation of one process, the start of a task, or a crash, after which every task in progress is
lost and the store is opened again.

The store answers its calls itself. A write may also fail with an error of the file system and then
changes nothing; reads of an open store do not fail. Every answer of the outside is possible.

`Script` runs the system on given answers, so that concrete runs can be computed.
-/

set_option autoImplicit false

namespace Medea

open Medea.Interaction

/-- The processes. -/
inductive Who where
  | client (n : Nat)
  | refresher
  | rollouts
  | provisioning
  | bootstrap
  deriving DecidableEq

/-- What a process can be started on. -/
inductive Task where
  | request (req : Request)
  | seed (input : SeedInputs)
  /-- A job record written by hand. -/
  | inject (job : Rollout)
  | refresh
  | rolloutPass
  | provisionPass
  | bootstrapPass
  deriving DecidableEq

/-- The flags the server is started with. -/
structure Settings where
  server : Server
  rollouts : RolloutExecutor
  provisioning : ProvisionExecutor
  bootstrap : BootstrapReconciler

/-- What survives between operations. -/
structure World where
  store : Store := {}

/-- Drop the result of a task. -/
def discard {α : Type} (p : Prog α) : Prog Unit := do
  let _ ← p
  return ()

/-- The program of a task. -/
def Settings.task (cfg : Settings) : Task → Prog Unit
  | .request req => cfg.server.handle req
  | .seed input => discard input.apply
  | .inject job => discard (callStore (.putRolloutJob job))
  | .refresh => discard Refresher.once
  | .rolloutPass => discard cfg.rollouts.runOnce
  | .provisionPass => discard cfg.provisioning.runOnce
  | .bootstrapPass => discard cfg.bootstrap.runOnce

/-- Which process runs which tasks. -/
def Who.may : Who → Task → Bool
  | .client _, .request _ | .client _, .seed _ | .client _, .inject _ => true
  | .refresher, .refresh => true
  | .rollouts, .rolloutPass => true
  | .provisioning, .provisionPass => true
  | .bootstrap, .bootstrapPass => true
  | _, _ => false

/-- How the world answers an operation. -/
def World.handles (w : World) : Ev → World → Prop
  | ⟨.store op, rep⟩, w' =>
    (rep = (op.exec w.store).1 ∧ w' = ⟨(op.exec w.store).2⟩) ∨
      -- a transaction may fail, and then it has changed nothing
      (op.writes = true ∧ (∃ msg, rep = .error (.other msg)) ∧ w' = w)
  -- every other answer is the outside's own
  | _, w' => w' = w

/-- The control plane. -/
def controlPlane (cfg : Settings) : System medeaSig World Who Task where
  task := cfg.task
  may i t := i.may t = true
  handle := World.handles
  -- the file stays, what was in memory does not
  restart w := ⟨w.store.open⟩

/-- Configurations, labels and runs of the control plane. -/
abbrev State := Config medeaSig World Who

abbrev Lbl := Label medeaSig Who Task

/-- The control plane before anything has happened: an empty store and no task. -/
def State.initial : State := Config.idle medeaSig Who {}

/-- `ls` is a run of the control plane from the start, and ends in `c`. -/
def Reaches (cfg : Settings) (ls : List Lbl) (c : State) : Prop :=
  (controlPlane cfg).Runs State.initial ls c

/-! ## Scripts -/

/-- An answer of the outside to every operation. -/
abbrev Oracle := (op : Op) → op.Reply

/-- A move of a script: start a task, let a process issue one operation, or crash. -/
inductive Move where
  | start (i : Who) (t : Task)
  | step (i : Who) (oracle : Oracle)
  | crash

/-- The answer to an operation: the store's own, or the oracle's. -/
def World.answer (w : World) (oracle : Oracle) : (op : Op) → op.Reply × World
  | .store op => ((op.exec w.store).1, ⟨(op.exec w.store).2⟩)
  | op => (oracle op, w)

theorem World.answer_handles (w : World) (oracle : Oracle) (op : Op) :
    w.handles ⟨op, (w.answer oracle op).1⟩ (w.answer oracle op).2 := by
  cases op with
  | store op => exact Or.inl ⟨rfl, rfl⟩
  | _ => rfl

/-- One move; a move that is not possible is skipped. -/
def Move.run (cfg : Settings) (c : State) : Move → List Lbl × State
  | .start i t =>
    match c.proc i with
    | .done () =>
      if i.may t then ([.start i t], ⟨c.world, Function.update c.proc i (cfg.task t)⟩)
      else ([], c)
    | .request _ _ => ([], c)
  | .step i oracle =>
    match c.proc i with
    | .done () => ([], c)
    | .request op next =>
      -- scripts do not make the store fail
      let (rep, w) := c.world.answer oracle op
      ([.act i ⟨op, rep⟩], ⟨w, Function.update c.proc i (next rep)⟩)
  | .crash => ([.crash], ⟨⟨c.world.store.open⟩, fun _ => .done ()⟩)

/-- A whole script. -/
def runScript (cfg : Settings) : List Move → State → List Lbl × State
  | [], c => ([], c)
  | m :: ms, c => ((m.run cfg c).1 ++ (runScript cfg ms (m.run cfg c).2).1,
      (runScript cfg ms (m.run cfg c).2).2)

theorem Move.run_runs (cfg : Settings) (c : State) (m : Move) :
    (controlPlane cfg).Runs c (m.run cfg c).1 (m.run cfg c).2 := by
  cases m with
  | start i t =>
    rw [Move.run]
    split
    next h =>
      split
      next hmay => exact ⟨_, .start h hmay, rfl⟩
      next => rfl
    next => rfl
  | step i oracle =>
    rw [Move.run]
    split
    next => rfl
    next op next h => exact ⟨_, .act h (c.world.answer_handles oracle op), rfl⟩
  | crash => exact ⟨_, .crash, rfl⟩

/-- A script computes a run. -/
theorem runScript_runs (cfg : Settings) (ms : List Move) (c : State) :
    (controlPlane cfg).Runs c (runScript cfg ms c).1 (runScript cfg ms c).2 := by
  induction ms generalizing c with
  | nil => rfl
  | cons m ms ih => exact (Move.run_runs cfg c m).trans (ih _)

theorem reaches_script (cfg : Settings) (ms : List Move) :
    Reaches cfg (runScript cfg ms State.initial).1 (runScript cfg ms State.initial).2 :=
  runScript_runs cfg ms _

/-! ## An outside that works

The answers and the moves concrete runs are put together from. -/

def TalosOp.answerOk (version : String) : (op : TalosOp) → Except String op.Value
  | .version _ => .ok version
  | .installImage _ => .ok ""
  | .upgradeOS _ _ => .ok ()
  | .etcdSnapshot _ _ => .ok ()
  | .bootstrap _ => .ok ()
  | .kubeconfig _ => .ok []

def KubeOp.answerOk (nodes : List NodeInfo) : (op : KubeOp) → Except String op.Value
  | .listNodes => .ok nodes
  | .drain _ _ => .ok ()
  | .uncordon _ => .ok ()
  | .nodeReady _ => .ok true

def CredsOp.answerOk : (op : CredsOp) → Except String op.Value
  | .talosConfig _ => .ok []
  | .kubeConfig _ => .ok []
  | .secrets _ => .ok []
  | .put _ _ _ => .ok ()
  | .putSecrets _ _ => .ok ()
  | .delete _ => .ok ()

/-- Every call succeeds, the nodes are as listed and report the version, and a wait that is not
over after its first poll times out. The store gives its own answers. -/
def Oracle.working (version : String) (nodes : List NodeInfo) : Oracle
  | .store _ => .error .conflict
  | .connect _ _ => .ok ()
  | .connectK8s _ _ => .ok ()
  | .connectBootstrap _ _ _ => .ok ()
  | .talos _ call => call.answerOk version
  | .kube _ _ call => call.answerOk nodes
  | .upgradeK8s _ _ _ => .ok ()
  | .wait _ _ => true
  | .mkdirAll _ => .ok ()
  | .openFile _ => .ok ()
  | .closeFile _ => .ok ()
  | .now => (0 : Nat)
  | .provisioner _ _ => .ok ()
  | .resolve _ => .ok ""
  | .creds call => call.answerOk
  | .machinery _ => .ok []
  | .respond _ => ()

namespace Script

/-- A server with every flag at its simplest. -/
def settings : Settings := ⟨⟨false⟩, ⟨"/snap", 2, true⟩, ⟨"", "", 0⟩, ⟨"", 0⟩⟩

/-- A ready control-plane node. -/
def node : NodeInfo := ⟨"n1", "10.0.0.1", "controlplane", "v1.30.0", true⟩

/-- A task and up to `n` of its operations; those past its end are skipped. -/
def run (i : Who) (t : Task) (n : Nat) (oracle : Oracle) : List Move :=
  .start i t :: List.replicate n (.step i oracle)

/-- A request of a client, to its end. -/
def request (req : Request) : List Move :=
  run (.client 0) (.request req) 20 (.working "v1.7.0" [node])

/-- Cluster `c` with its control-plane node at `v1.7.0`, and rollouts enabled. -/
def armed : List Move :=
  run (.client 0) (.seed ⟨"c", "k", ["10.0.0.1"], [node]⟩) 20 (.working "v1.7.0" [node]) ++
    request (.enableRollouts "c")

/-- An order to bring the control-plane pool to `v1.8.0`. -/
def order : List Move := request (.createRollout ⟨"c", "controlplane", .talos, "v1.8.0", "me"⟩)

/-- A pass of the executor, to its end or to the given number of operations. -/
def pass (n : Nat) (oracle : Oracle) : List Move := run .rollouts .rolloutPass n oracle

/-- A whole rollout: the upgraded node comes up in time, and is uncordoned. -/
def nodeInTime : List Move :=
  armed ++ order ++ pass 13 (.working "v1.7.0" [node]) ++
    List.replicate 20 (.step .rollouts (.working "v1.8.0" [node]))

end Script

end Medea
