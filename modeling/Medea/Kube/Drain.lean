import Medea.Interaction.Contract
import Mathlib.Logic.Relation

/-!
# Draining a node

`Client.Drain` of `internal/kube/client.go`. The node is cordoned; then, round after round, its pods are
listed and those that may be evicted are evicted, until a listing has none of them left or the
deadline has passed. The program below issues the calls to the API one by one. Whether the deadline
has passed is an answer of the environment: of `expired` after a listing that failed, and of `pause`
between two rounds. The loop is cut off after a number of rounds; what is proved holds for every number.

The second part is the API server itself: its pods, what others do to them between two calls, and what
it answers. A pod that is evicted stays, with a deletion timestamp, until someone removes it.
-/

set_option autoImplicit false

namespace Medea

open Medea.Interaction

/-! ## Pods -/

inductive PodPhase where
  | pending
  | running
  | succeeded
  | failed
  | unknown
  deriving DecidableEq

structure OwnerReference where
  kind : String
  name : String
  deriving DecidableEq

/-- The fields of a pod that a drain reads. -/
structure Pod where
  ns : String
  name : String
  nodeName : String
  phase : PodPhase
  deletionTimestamp : Option Nat
  annotations : List (String × String)
  ownerReferences : List OwnerReference
  deriving DecidableEq

namespace Pod

/-- `corev1.MirrorPodAnnotationKey` -/
def mirrorPodAnnotationKey : String := "kubernetes.io/config.mirror"

def isTerminal (p : Pod) : Bool := p.phase = .succeeded ∨ p.phase = .failed

def isMirror (p : Pod) : Bool := p.annotations.any fun a => a.1 = mirrorPodAnnotationKey

def isDaemon (p : Pod) : Bool := p.ownerReferences.any fun o => o.kind = "DaemonSet"

def isEvictable (p : Pod) : Bool :=
  if p.isTerminal then false
  else if p.deletionTimestamp.isSome then false
  else if p.isMirror then false
  else !p.isDaemon

/-- The pods that a drain is meant to leave on the node. -/
def isSpared (p : Pod) : Bool := p.isDaemon || p.isMirror || p.isTerminal

theorem isEvictable_iff {p : Pod} : p.isEvictable = true ↔
    p.isDaemon = false ∧ p.isMirror = false ∧ p.isTerminal = false ∧ p.deletionTimestamp = none := by
  unfold isEvictable
  cases p.isTerminal <;> cases p.isMirror <;> cases p.isDaemon <;>
    cases p.deletionTimestamp <;> simp

/-- A pod that is not evicted is spared or is being deleted already. -/
theorem isEvictable_eq_false_iff {p : Pod} : p.isEvictable = false ↔
    p.isSpared = true ∨ p.deletionTimestamp ≠ none := by
  unfold isEvictable isSpared
  cases p.isTerminal <;> cases p.isMirror <;> cases p.isDaemon <;>
    cases p.deletionTimestamp <;> simp

/-- What a drain calls a pod in its messages. -/
def label (p : Pod) : String := p.ns ++ "/" ++ p.name

/-- What the API knows a pod by. -/
def key (p : Pod) : String × String := (p.ns, p.name)

end Pod

/-! ## Calls -/

/-- How `apierrors` classifies an error. -/
inductive StatusReason where
  | notFound
  | tooManyRequests
  | other
  deriving DecidableEq

structure ApiError where
  reason : StatusReason
  text : String
  deriving DecidableEq

/-- The selector of the pods of a node. -/
def nodeSelector (node : String) : String := "spec.nodeName=" ++ node

theorem nodeSelector_inj {n n' : String} (h : nodeSelector n = nodeSelector n') : n = n' := by
  have hlist := congrArg String.toList h
  simp only [nodeSelector, String.toList_append] at hlist
  exact String.ext (List.append_cancel_left hlist)

/-- The calls of a client for the pods of a node; a drain is not expected to make the last of them. -/
inductive PodOp where
  | patchNode (name : String) (unschedulable : Bool)
  | listPods (fieldSelector : String)
  | evict (ns name : String)
  | expired
  | pause
  | deletePod (ns name : String)
  deriving DecidableEq

/-- A listing holds only pods that its selector selects. -/
abbrev Listing (fieldSelector : String) : Type :=
  { pods : List Pod // ∀ p ∈ pods, nodeSelector p.nodeName = fieldSelector }

@[reducible] def PodOp.Reply : PodOp → Type
  | .patchNode _ _ => Except ApiError Unit
  | .listPods fieldSelector => Except ApiError (Listing fieldSelector)
  | .evict _ _ => Except ApiError Unit
  | .expired => Bool
  | .pause => Bool
  | .deletePod _ _ => Except ApiError Unit

def podSig : Signature := ⟨PodOp, PodOp.Reply⟩

abbrev PodProg := Program podSig

/-- The call that evicts a pod. -/
def Pod.eviction (p : Pod) : PodOp := .evict p.ns p.name

theorem Listing.nodeName {node : String} (pods : Listing (nodeSelector node)) {p : Pod}
    (hp : p ∈ pods.val) : p.nodeName = node := nodeSelector_inj (pods.property p hp)

/-- The pods of a listing that a round evicts. -/
def Listing.toEvict {sel : String} (pods : Listing sel) : List Pod := pods.val.filter Pod.isEvictable

/-! ## The drain -/

/-- `unfinished` is no result of the source: the rounds considered are used up. -/
inductive DrainResult where
  | drained
  | failed (text : String)
  | unfinished
  deriving DecidableEq

def drainTimedOut (name : String) (remaining : List String) : String :=
  "drain " ++ name ++ " timed out; pods remaining: " ++ ", ".intercalate remaining

def evictFailed (p : Pod) (e : ApiError) : String :=
  "evict " ++ p.ns ++ "/" ++ p.name ++ ": " ++ e.text

namespace PodProg

def setUnschedulable (name : String) (v : Bool) : PodProg (Except ApiError Unit) :=
  Program.perform (S := podSig) (.patchNode name v)

def cordon (name : String) : PodProg (Except ApiError Unit) := setUnschedulable name true

def listPods (sel : String) : PodProg (Except ApiError (Listing sel)) :=
  Program.perform (S := podSig) (.listPods sel)

def evict (p : Pod) : PodProg (Except ApiError Unit) := Program.perform (S := podSig) p.eviction

def expired : PodProg Bool := Program.perform (S := podSig) .expired

def pause : PodProg Bool := Program.perform (S := podSig) .pause

/-- One round of evictions, with the error that ends the drain. -/
def evictAll : List Pod → PodProg (Option String)
  | [] => return none
  | p :: ps => do
      match ← evict p with
      | .ok () => evictAll ps
      | .error e =>
        match e.reason with
        -- already gone
        | .notFound => evictAll ps
        -- the disruption budget would be violated: the next round tries again
        | .tooManyRequests => evictAll ps
        | .other => return some (evictFailed p e)

def drainLoop (name : String) : Nat → List String → PodProg DrainResult
  | 0, _ => return .unfinished
  | n + 1, remaining => do
      match ← listPods (nodeSelector name) with
      | .error e =>
        if ← expired then return .failed (drainTimedOut name remaining)
        else return .failed e.text
      | .ok pods =>
        let remaining := pods.toEvict.map Pod.label
        if pods.toEvict = [] then return .drained
        else
          match ← evictAll pods.toEvict with
          | some err => return .failed err
          | none =>
            if ← pause then return .failed (drainTimedOut name remaining)
            else drainLoop name n remaining

def drain (name : String) (rounds : Nat) : PodProg DrainResult := do
  match ← cordon name with
  | .error e => return .failed e.text
  | .ok () => drainLoop name rounds []

end PodProg

/-! ## The API server -/

namespace PodServer

/-- The pods of a key, changed. -/
def update (k : String × String) (f : Pod → Pod) (pods : List Pod) : List Pod :=
  pods.map fun p => if p.key = k then f p else p

/-- A pod that is deleted keeps its first deletion timestamp. -/
def terminate (t : Nat) (p : Pod) : Pod :=
  { p with deletionTimestamp := some (p.deletionTimestamp.getD t) }

/-- What others do to the pods. -/
inductive Change (pods : List Pod) : List Pod → Prop
  | create (p : Pod) : (∀ q ∈ pods, q.key ≠ p.key) → Change pods (p :: pods)
  -- deleted without grace, or the grace period has ended
  | remove (k : String × String) : Change pods (pods.filter fun p => p.key ≠ k)
  | delete (k : String × String) (t : Nat) : Change pods (update k (terminate t) pods)
  | report (k : String × String) (phase : PodPhase) :
      Change pods (update k (fun p => { p with phase := phase }) pods)

/-- Any number of changes by others. -/
abbrev Others : List Pod → List Pod → Prop := Relation.ReflTransGen Change

/-- What the server answers, and what the call does to the pods. Every call may fail. A budget may
refuse any eviction. -/
def answers (pods : List Pod) : Event podSig → List Pod → Prop
  | ⟨.listPods sel, .ok listed⟩, pods' =>
    listed.val = pods.filter (fun p => nodeSelector p.nodeName = sel) ∧ pods' = pods
  | ⟨.evict ns name, .ok ()⟩, pods' =>
    (∃ p ∈ pods, p.key = (ns, name)) ∧ ∃ t, pods' = update (ns, name) (terminate t) pods
  | ⟨.evict ns name, .error e⟩, pods' =>
    (e.reason = .notFound → ∀ p ∈ pods, p.key ≠ (ns, name)) ∧ pods' = pods
  | ⟨.deletePod ns name, .ok ()⟩, pods' => pods' = pods.filter fun p => p.key ≠ (ns, name)
  | _, pods' => pods' = pods

/-- A trace of answered calls, with the changes by others between them. -/
def Serves : List Pod → Trace podSig → List Pod → Prop
  | pods, [], pods' => Others pods pods'
  | pods, e :: es, pods' => ∃ a b, Others pods a ∧ answers a e b ∧ Serves b es pods'

theorem serves_append {es fs : Trace podSig} {pods pods' : List Pod} :
    Serves pods (es ++ fs) pods' ↔ ∃ a, Serves pods es a ∧ Serves a fs pods' := by
  induction es generalizing pods with
  | nil =>
    constructor
    · intro h
      exact ⟨pods, .refl, h⟩
    · rintro ⟨a, ho, hs⟩
      cases fs with
      | nil => exact ho.trans hs
      | cons e fs =>
        obtain ⟨b, c, hb, hc, hrest⟩ := hs
        exact ⟨b, c, ho.trans hb, hc, hrest⟩
  | cons e es ih =>
    constructor
    · rintro ⟨a, b, ha, hb, hrest⟩
      obtain ⟨c, h1, h2⟩ := ih.1 hrest
      exact ⟨c, ⟨a, b, ha, hb, h1⟩, h2⟩
    · rintro ⟨c, ⟨a, b, ha, hb, h1⟩, h2⟩
      exact ⟨a, b, ha, hb, ih.2 ⟨c, h1, h2⟩⟩

end PodServer

end Medea
