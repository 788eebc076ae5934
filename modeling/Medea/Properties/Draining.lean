import Medea.Kube.Drain
import Mathlib.Data.List.Induction

/-!
# What a drain calls, and what it leaves

A drain is followed by its phase: the call it is about to make, with the listing of the current round
and the pods of it that are still to be evicted. `drain_keeps` says that the program makes no call
but that of its phase, and `shows` reads the phase off the calls made so far. From these two follow
the order of the calls and what the result of a drain says about its last listing.
-/

set_option autoImplicit false

namespace Medea

open Medea.Interaction PodProg
open Program (keeps_quiet_done keeps_quiet_request)

/-- Where a drain is. -/
inductive DrainPhase where
  | cordoning
  | listing (remaining : List String)
  | asking (remaining : List String) (error : String)
  /-- A round, with the pods still to be evicted; with none left it pauses. -/
  | round (pods todo : List Pod)
  | over (result : DrainResult)

namespace DrainPhase

variable (node : String)

/-- The call that is made next. -/
def call : DrainPhase → Option PodOp
  | .cordoning => some (.patchNode node true)
  | .listing _ => some (.listPods (nodeSelector node))
  | .asking _ _ => some .expired
  | .round _ [] => some .pause
  | .round _ (p :: _) => some p.eviction
  | .over _ => none

/-- The round of a listing, if it has a pod to evict. -/
def enter (pods : List Pod) : DrainPhase :=
  if pods.filter Pod.isEvictable = [] then .over .drained
  else .round pods (pods.filter Pod.isEvictable)

/-- The pods that a message about a round names. -/
def labels (pods : List Pod) : List String := (pods.filter Pod.isEvictable).map Pod.label

/-- The phase after a call has been answered. -/
def after : DrainPhase → Event podSig → DrainPhase
  | .cordoning, ⟨.patchNode _ _, .error e⟩ => .over (.failed e.text)
  | .cordoning, ⟨.patchNode _ _, .ok ()⟩ => .listing []
  | .listing remaining, ⟨.listPods _, .error e⟩ => .asking remaining e.text
  | .listing _, ⟨.listPods _, .ok pods⟩ => enter pods.val
  | .asking remaining _, ⟨.expired, true⟩ => .over (.failed (drainTimedOut node remaining))
  | .asking _ error, ⟨.expired, false⟩ => .over (.failed error)
  | .round pods (_ :: todo), ⟨.evict _ _, .ok ()⟩ => .round pods todo
  | .round pods (p :: todo), ⟨.evict _ _, .error e⟩ =>
    if e.reason = .other then .over (.failed (evictFailed p e)) else .round pods todo
  | .round pods [], ⟨.pause, true⟩ => .over (.failed (drainTimedOut node (labels pods)))
  | .round pods [], ⟨.pause, false⟩ => .listing (labels pods)
  | phase, _ => phase

end DrainPhase

/-- A call is that of the phase. -/
def OnCall (node : String) (phase : DrainPhase) (e : Event podSig) : Prop :=
  phase.call node = some e.op

def drainContract (node : String) : Contract podSig DrainPhase :=
  .quiet (fun _ _ => True) (OnCall node) (DrainPhase.after node)

/-- How a drain ends: with the result of its phase, unless its rounds are used up. -/
def DrainPhase.Ends (r : DrainResult) (phase : DrainPhase) : Prop :=
  phase = .over r ∨ r = .unfinished ∧ ∃ remaining, phase = .listing remaining

section Keeps

variable {node : String}

theorem evictAll_keeps (pods todo : List Pod) :
    (evictAll todo).Keeps (drainContract node)
      (fun err phase => match err with
        | some text => phase = .over (.failed text)
        | none => phase = .round pods []) (.round pods todo) := by
  induction todo with
  | nil => simp [evictAll, drainContract]
  | cons p todo ih =>
    apply keeps_quiet_request.2
    intro rep _
    refine ⟨rfl, ?_⟩
    cases rep with
    | ok u => exact ih
    | error e =>
      obtain ⟨reason, text⟩ := e
      cases reason with
      | notFound => exact ih
      | tooManyRequests => exact ih
      | other => exact keeps_quiet_done.2 rfl

theorem drainLoop_keeps (n : Nat) (remaining : List String) :
    (drainLoop node n remaining).Keeps (drainContract node) DrainPhase.Ends (.listing remaining) := by
  induction n generalizing remaining with
  | zero => exact keeps_quiet_done.2 (.inr ⟨rfl, remaining, rfl⟩)
  | succ n ih =>
    apply keeps_quiet_request.2
    intro rep _
    refine ⟨rfl, ?_⟩
    cases rep with
    | error e =>
      apply keeps_quiet_request.2
      intro late _
      refine ⟨rfl, ?_⟩
      cases late with
      | true | false => exact keeps_quiet_done.2 (.inl rfl)
    | ok pods =>
      show Program.Keeps _ _ (if pods.toEvict = [] then _ else _) (DrainPhase.enter pods.val)
      unfold DrainPhase.enter Listing.toEvict
      split
      · exact keeps_quiet_done.2 (.inl rfl)
      · apply (evictAll_keeps pods.val _).bind
        intro err phase hphase
        cases err with
        | some text => exact keeps_quiet_done.2 (.inl hphase)
        | none =>
          subst hphase
          apply keeps_quiet_request.2
          intro late _
          refine ⟨rfl, ?_⟩
          cases late with
          | true => exact keeps_quiet_done.2 (.inl rfl)
          | false => exact ih _

/-- A drain makes the calls of its phases. -/
theorem drain_keeps (rounds : Nat) :
    (drain node rounds).Keeps (drainContract node) DrainPhase.Ends .cordoning := by
  apply keeps_quiet_request.2
  intro rep _
  refine ⟨rfl, ?_⟩
  cases rep with
  | error e => exact keeps_quiet_done.2 (.inl rfl)
  | ok u => exact drainLoop_keeps rounds []

end Keeps

/-! ## The phase and the calls made so far -/

section Trace

variable (node : String)

/-- The phase after a trace. -/
def phaseAfter (es : Trace podSig) : DrainPhase := es.foldl (DrainPhase.after node) .cordoning

/-- The trace ends with a listing of the pods of the node and the evictions of some of them. -/
def InRound (pods evicted : List Pod) (es : Trace podSig) : Prop :=
  ∃ pre, ∃ listing : Listing (nodeSelector node), ∃ evictions : Trace podSig,
    es = pre ++ ⟨PodOp.listPods (nodeSelector node), .ok listing⟩ :: evictions ∧
      listing.val = pods ∧ evictions.map (·.op) = evicted.map Pod.eviction

/-- What the phase says about the trace. -/
def Shows (es : Trace podSig) : DrainPhase → Prop
  | .cordoning => es = []
  | .round pods todo => ∃ evicted, pods.filter Pod.isEvictable = evicted ++ todo ∧
      InRound node pods evicted es
  | .over .drained => ∃ pods, pods.filter Pod.isEvictable = [] ∧ InRound node pods [] es
  | _ => True

variable {node} {es : Trace podSig}

theorem InRound.snoc {pods evicted : List Pod} (h : InRound node pods evicted es) (p : Pod)
    (rep : podSig.Reply p.eviction) :
    InRound node pods (evicted ++ [p]) (es ++ [⟨p.eviction, rep⟩]) := by
  obtain ⟨pre, listing, evictions, rfl, hpods, hops⟩ := h
  refine ⟨pre, listing, evictions ++ [⟨p.eviction, rep⟩], ?_, hpods, ?_⟩
  · simp
  · rw [List.map_append, List.map_append, hops]
    rfl

theorem shows_enter (es : Trace podSig) (listing : Listing (nodeSelector node)) :
    Shows node (es ++ [⟨PodOp.listPods (nodeSelector node), .ok listing⟩]) (.enter listing.val) := by
  have hround : InRound node listing.val []
      (es ++ [⟨PodOp.listPods (nodeSelector node), .ok listing⟩]) :=
    ⟨es, listing, [], rfl, rfl, rfl⟩
  unfold DrainPhase.enter
  split
  · exact ⟨listing.val, ‹_›, hround⟩
  · exact ⟨[], rfl, hround⟩

/-- One call, as its phase has it. -/
theorem shows_step {phase : DrainPhase} {e : Event podSig} (h : Shows node es phase)
    (hcall : OnCall node phase e) : Shows node (es ++ [e]) (phase.after node e) := by
  obtain ⟨op, rep⟩ := e
  cases phase with
  | cordoning | asking =>
    cases hcall
    cases rep <;> trivial
  | listing remaining =>
    cases hcall
    cases rep with
    | error e => trivial
    | ok listing => exact shows_enter es listing
  | round pods todo =>
    cases todo with
    | nil =>
      cases hcall
      cases rep <;> trivial
    | cons p todo =>
      cases hcall
      obtain ⟨evicted, hsplit, hround⟩ := h
      -- the pod moves from those to be evicted to those asked to go
      have hgo : Shows node (es ++ [⟨p.eviction, rep⟩]) (.round pods todo) :=
        ⟨evicted ++ [p], by simp [hsplit], hround.snoc p rep⟩
      cases rep with
      | ok u => exact hgo
      | error err =>
        show Shows node _ (if err.reason = .other then _ else _)
        split
        · trivial
        · exact hgo
  | _ => cases hcall

theorem shows (h : Along (DrainPhase.after node) (OnCall node) .cordoning es) :
    Shows node es (phaseAfter node es) := by
  induction es using List.reverseRecOn with
  | nil => rfl
  | append_singleton es e ih =>
    obtain ⟨hes, hcall, -⟩ := along_append.1 h
    have hstep := shows_step (ih hes) hcall
    rwa [phaseAfter, List.foldl_append]

end Trace

/-! ## What has been done, and what is left -/

/-- The calls of a drain: those that are answered, and the one it waits for. -/
def calls (es : Trace podSig) : PodProg DrainResult → List PodOp
  | .done _ => es.map (·.op)
  | .request op _ => es.map (·.op) ++ [op]

theorem PodOp.reply_nonempty (op : PodOp) : Nonempty (podSig.Reply op) := by
  cases op with
  | patchNode | evict | deletePod => exact ⟨.ok ()⟩
  | listPods sel => exact ⟨.error ⟨.other, ""⟩⟩
  | expired | pause => exact ⟨true⟩

/-- A drain on its way: its calls were those of its phases, and what is left of it will make those of
the phases to come. -/
structure Underway (node : String) (es : Trace podSig) (left : PodProg DrainResult) : Prop where
  made : Along (DrainPhase.after node) (OnCall node) .cordoning es
  keeps : left.Keeps (drainContract node) DrainPhase.Ends (phaseAfter node es)

theorem drain_underway {node : String} {rounds : Nat} {es : Trace podSig} {left : PodProg DrainResult}
    (h : (drain node rounds).Steps es left) : Underway node es left := by
  obtain ⟨hmade, hkeeps⟩ := (drain_keeps rounds).steps h (along_of_split fun _ _ _ _ => trivial)
  exact ⟨hmade, hkeeps⟩

namespace Underway

variable {node : String} {es pre post : Trace podSig} {e : Event podSig} {left : PodProg DrainResult}

section

variable (h : Underway node es left)
include h

theorem onCall (hes : es = pre ++ e :: post) :
    OnCall node (phaseAfter node pre) e := h.made.at_split hes

theorem shows (hes : es = pre ++ post) :
    Shows node pre (phaseAfter node pre) := by
  subst hes
  exact Medea.shows (along_append.1 h.made).1

theorem call_of_request {op : PodOp}
    {next : podSig.Reply op → PodProg DrainResult} (hleft : left = .request op next) :
    (phaseAfter node es).call node = some op := by
  have hkeeps := h.keeps
  subst hleft
  obtain ⟨rep⟩ := PodOp.reply_nonempty op
  exact (keeps_quiet_request.1 hkeeps rep trivial).1

theorem ends {r : DrainResult} (hleft : left = .done r) :
    DrainPhase.Ends r (phaseAfter node es) := by
  have hkeeps := h.keeps
  subst hleft
  exact keeps_quiet_done.1 hkeeps

/-- Once it is over, nothing follows. -/
theorem nothing_after_over {r : DrainResult} (hes : es = pre ++ post)
    (hover : phaseAfter node pre = .over r) : post = [] ∧ left = .done r := by
  cases post with
  | cons e post =>
    have hcall := h.onCall hes
    rw [hover] at hcall
    cases hcall
  | nil =>
    refine ⟨rfl, ?_⟩
    rw [List.append_nil] at hes
    subst hes
    cases hleft : left with
    | request op next =>
      have hcall := h.call_of_request hleft
      rw [hover] at hcall
      cases hcall
    | done r' =>
      rcases h.ends hleft with hr | ⟨-, remaining, hr⟩
      · rw [hover] at hr
        cases hr
        rfl
      · rw [hover] at hr
        cases hr

/-- In a round the call of the phase follows. -/
theorem next_in_round {pods todo : List Pod} (hes : es = pre ++ post)
    (hround : phaseAfter node pre = .round pods todo) :
    (calls post left).head? = (DrainPhase.round pods todo).call node := by
  cases post with
  | cons e post =>
    have hcall := h.onCall hes
    rw [hround] at hcall
    rw [hcall]
    cases left <;> rfl
  | nil =>
    rw [List.append_nil] at hes
    subst hes
    cases hleft : left with
    | request op next =>
      rw [← hround, h.call_of_request hleft]
      rfl
    | done r =>
      rcases h.ends hleft with hr | ⟨-, remaining, hr⟩
      · rw [hround] at hr
        cases hr
      · rw [hround] at hr
        cases hr

end

end Underway

/-! ### Which phase makes a call -/

section Callers

variable {node : String} {phase : DrainPhase}

theorem round_of_evict {ns name : String}
    (h : phase.call node = some (.evict ns name)) :
    ∃ pods p todo, phase = .round pods (p :: todo) ∧ p.ns = ns ∧ p.name = name := by
  cases phase with
  | round pods todo =>
    cases todo with
    | nil => cases h
    | cons p todo =>
      cases h
      exact ⟨pods, p, todo, rfl, rfl, rfl⟩
  | _ => cases h

theorem round_of_pause (h : phase.call node = some .pause) : ∃ pods, phase = .round pods [] := by
  cases phase with
  | round pods todo =>
    cases todo with
    | nil => exact ⟨pods, rfl⟩
    | cons p todo => cases h
  | _ => cases h

theorem asking_of_expired (h : phase.call node = some .expired) :
    ∃ remaining error, phase = .asking remaining error := by
  cases phase with
  | asking remaining error => exact ⟨remaining, error, rfl⟩
  | round pods todo => cases todo <;> cases h
  | _ => cases h

theorem call_ne_deletePod {ns name : String} : phase.call node ≠ some (.deletePod ns name) := by
  intro h
  cases phase with
  | round pods todo => cases todo <;> cases h
  | _ => cases h

end Callers

/-! ## The rounds -/

def isListing : PodOp → Bool
  | .listPods _ => true
  | _ => false

/-- The number of listings, after one more call. -/
def tally (n : Nat) (e : Event podSig) : Nat := if isListing e.op then n + 1 else n

theorem foldl_tally (es : Trace podSig) (n : Nat) :
    es.foldl tally n = n + es.countP fun e => isListing e.op := by
  induction es generalizing n with
  | nil => rfl
  | cons e es ih =>
    rw [List.foldl_cons, ih, List.countP_cons]
    unfold tally
    split <;> omega

/-- Calls are free; only their number counts. -/
def tallyContract : Contract podSig Nat := .quiet (fun _ _ => True) (fun _ _ => True) tally

theorem evictAll_tally (todo : List Pod) (m : Nat) :
    (evictAll todo).Keeps tallyContract (fun _ k => k = m) m := by
  induction todo with
  | nil => exact keeps_quiet_done.2 rfl
  | cons p todo ih =>
    apply keeps_quiet_request.2
    intro rep _
    refine ⟨trivial, ?_⟩
    cases rep with
    | ok u => exact ih
    | error e =>
      obtain ⟨reason, text⟩ := e
      cases reason with
      | notFound => exact ih
      | tooManyRequests => exact ih
      | other => exact keeps_quiet_done.2 rfl

/-- The rounds are used up only by listings. -/
theorem drainLoop_tally (node : String) (n m : Nat) (remaining : List String) :
    (drainLoop node n remaining).Keeps tallyContract (fun r k => r = .unfinished → k = m + n) m := by
  induction n generalizing m remaining with
  | zero => exact keeps_quiet_done.2 fun _ => rfl
  | succ n ih =>
    apply keeps_quiet_request.2
    intro rep _
    refine ⟨trivial, ?_⟩
    cases rep with
    | error e =>
      apply keeps_quiet_request.2
      intro late _
      cases late <;> exact ⟨trivial, keeps_quiet_done.2 nofun⟩
    | ok pods =>
      show Program.Keeps _ _ (if pods.toEvict = [] then _ else _) (m + 1)
      split
      · exact keeps_quiet_done.2 nofun
      · apply (evictAll_tally _ (m + 1)).bind
        intro err k hk
        subst hk
        cases err with
        | some text => exact keeps_quiet_done.2 nofun
        | none =>
          apply keeps_quiet_request.2
          intro late _
          refine ⟨trivial, ?_⟩
          cases late with
          | true => exact keeps_quiet_done.2 nofun
          | false =>
            apply (ih (m + 1) _).mono
            intro r k hr hunfinished
            have hk := hr hunfinished
            omega

theorem rounds_used {node : String} {rounds : Nat} {es : Trace podSig}
    (h : (drain node rounds).Steps es (.done .unfinished)) :
    (es.countP fun e => isListing e.op) = rounds := by
  have hdrain : (drain node rounds).Keeps tallyContract
      (fun r k => r = .unfinished → k = rounds) 0 := by
    apply keeps_quiet_request.2
    intro rep _
    refine ⟨trivial, ?_⟩
    cases rep with
    | error e => exact keeps_quiet_done.2 nofun
    | ok u =>
      apply (drainLoop_tally node rounds 0 []).mono
      intro r k hr hunfinished
      rw [hr hunfinished, Nat.zero_add]
  obtain ⟨-, hkeeps⟩ := hdrain.steps h (along_of_split fun _ _ _ _ => trivial)
  have htally := keeps_quiet_done.1 hkeeps rfl
  have hcount := foldl_tally es 0
  change es.foldl tally 0 = rounds at htally
  omega

/-! ## The discipline -/

/-- An eviction that was carried out, found nothing, or was refused for a budget. -/
def Tolerated (rep : Except ApiError Unit) : Prop := ∀ e, rep = .error e → e.reason ≠ .other

/-- One eviction of a trace: it is of a pod of the last listing that may go, and what follows it
depends on the answer. -/
def WellAimed (node : String) (pre : Trace podSig) (ns name : String) (rep : Except ApiError Unit)
    (post : Trace podSig) (left : PodProg DrainResult) : Prop :=
  ∃ pods evicted p todo, InRound node pods evicted pre ∧
    pods.filter Pod.isEvictable = evicted ++ p :: todo ∧ (p.ns = ns ∧ p.name = name) ∧
    (p ∈ pods ∧ p.nodeName = node ∧ p.isDaemon = false ∧ p.isMirror = false ∧
      p.isTerminal = false ∧ p.deletionTimestamp = none) ∧
    (Tolerated rep → (calls post left).head? = some ((todo.map Pod.eviction).headD .pause)) ∧
    ∀ e, rep = .error e → e.reason = .other →
      post = [] ∧ left = .done (.failed (evictFailed p e))

/-- The discipline of a drain that has made the calls `es` and has `left` still to do. -/
structure Disciplined (node : String) (rounds : Nat) (es : Trace podSig)
    (left : PodProg DrainResult) : Prop where
  cordons : (calls es left).head? = some (.patchNode node true)
  cordon_failed : ∀ rep post, es = ⟨PodOp.patchNode node true, rep⟩ :: post →
    ∀ e, rep = .error e → post = [] ∧ left = .done (.failed e.text)
  evictions : ∀ pre ns name rep post, es = pre ++ ⟨PodOp.evict ns name, rep⟩ :: post →
    WellAimed node pre ns name rep post left
  gentle : ∀ ns name, PodOp.deletePod ns name ∉ calls es left
  drained : left = .done .drained → ∃ pre, ∃ listing : Listing (nodeSelector node),
    es = pre ++ [⟨PodOp.listPods (nodeSelector node), .ok listing⟩] ∧
      ∀ p ∈ listing.val, p.isEvictable = false
  deadline : ∀ pre post, es = pre ++ ⟨PodOp.pause, true⟩ :: post →
    post = [] ∧ ∃ pods, InRound node pods (pods.filter Pod.isEvictable) pre ∧
      left = .done (.failed (drainTimedOut node (DrainPhase.labels pods)))
  expired : ∀ pre late post, es = pre ++ ⟨PodOp.expired, late⟩ :: post →
    post = [] ∧ ∃ text, left = .done (.failed text)
  /-- A pod that every listing shows as one to evict keeps the drain from succeeding. -/
  blocked : ∀ k : String × String, (∀ listing : Listing (nodeSelector node),
      ⟨PodOp.listPods (nodeSelector node), .ok listing⟩ ∈ es →
        ∃ p ∈ listing.val, p.key = k ∧ p.isEvictable = true) →
    ∀ r, left = .done r → (∃ text, r = .failed text) ∨ r = .unfinished
  /-- The model gives up only after all its rounds. -/
  rounds_used : left = .done .unfinished → (es.countP fun e => isListing e.op) = rounds

namespace Underway

variable {node : String} {es : Trace podSig} {left : PodProg DrainResult}

theorem phase_snoc (node : String) (pre : Trace podSig) (e : Event podSig) :
    phaseAfter node (pre ++ [e]) = (phaseAfter node pre).after node e := by
  rw [phaseAfter, List.foldl_append]
  rfl

section

variable (h : Underway node es left) {pre post : Trace podSig}
include h

theorem head_call :
    (calls es left).head? = some (.patchNode node true) := by
  cases es with
  | cons e es =>
    have hcall : OnCall node .cordoning e := h.onCall (List.nil_append (e :: es)).symm
    rw [OnCall] at hcall
    cases left <;> exact hcall.symm
  | nil =>
    cases hleft : left with
    | request op next => exact (h.call_of_request hleft).symm
    | done r =>
      rcases h.ends hleft with hr | ⟨-, remaining, hr⟩
      · cases hr
      · cases hr

theorem wellAimed {ns name : String} {rep : Except ApiError Unit}
    (hes : es = pre ++ ⟨PodOp.evict ns name, rep⟩ :: post) :
    WellAimed node pre ns name rep post left := by
  obtain ⟨pods, p, todo, hphase, hns, hname⟩ := round_of_evict (h.onCall hes)
  have hshows := h.shows hes
  rw [hphase] at hshows
  obtain ⟨evicted, hsplit, hround⟩ := hshows
  have hmem : p ∈ pods.filter Pod.isEvictable := by simp [hsplit]
  obtain ⟨hpods, hevictable⟩ := List.mem_filter.1 hmem
  have hnode : p.nodeName = node := by
    obtain ⟨-, listing, -, -, hlisting, -⟩ := hround
    exact listing.nodeName (hlisting ▸ hpods)
  have hnext := phase_snoc node pre ⟨PodOp.evict ns name, rep⟩
  have hes' : es = (pre ++ [⟨PodOp.evict ns name, rep⟩]) ++ post := by simp [hes]
  rw [hphase] at hnext
  refine ⟨pods, evicted, p, todo, hround, hsplit, ⟨hns, hname⟩,
    ⟨hpods, hnode, Pod.isEvictable_iff.1 hevictable⟩, ?_, ?_⟩
  · intro htolerated
    have hgo : phaseAfter node (pre ++ [⟨PodOp.evict ns name, rep⟩]) = .round pods todo := by
      rw [hnext]
      cases rep with
      | ok u => rfl
      | error e => exact if_neg (htolerated e rfl)
    rw [h.next_in_round hes' hgo]
    cases todo <;> rfl
  · intro e hrep hother
    subst hrep
    exact h.nothing_after_over hes' (hnext.trans (if_pos hother))

/-- Success is said of the listing just made. -/
theorem last_listing (hleft : left = .done .drained) :
    ∃ pre, ∃ listing : Listing (nodeSelector node),
      es = pre ++ [⟨PodOp.listPods (nodeSelector node), .ok listing⟩] ∧
        ∀ p ∈ listing.val, p.isEvictable = false := by
  rcases h.ends hleft with hover | ⟨hr, -⟩
  · have hshows := h.shows (List.append_nil es).symm
    rw [hover] at hshows
    obtain ⟨pods, hnone, pre, listing, evictions, hes, hpods, hops⟩ := hshows
    obtain rfl : evictions = [] := List.map_eq_nil_iff.1 hops
    refine ⟨pre, listing, hes, ?_⟩
    intro p hp
    subst hpods
    simpa using List.filter_eq_nil_iff.1 hnone p hp
  · cases hr

theorem calls_gentle {ns name : String} :
    PodOp.deletePod ns name ∉ calls es left := by
  have hmade : PodOp.deletePod ns name ∉ es.map (·.op) := by
    intro hmem
    obtain ⟨e, he, hop⟩ := List.mem_map.1 hmem
    obtain ⟨pre, post, hes⟩ := List.append_of_mem he
    have hcall := h.onCall hes
    rw [OnCall, hop] at hcall
    exact call_ne_deletePod hcall
  cases hleft : left with
  | done r => exact hmade
  | request op next =>
    intro hmem
    rcases List.mem_append.1 hmem with hmem | hmem
    · exact hmade hmem
    · obtain rfl : PodOp.deletePod ns name = op := List.mem_singleton.1 hmem
      exact call_ne_deletePod (h.call_of_request hleft)

theorem timed_out (hes : es = pre ++ ⟨PodOp.pause, true⟩ :: post) :
    post = [] ∧ ∃ pods, InRound node pods (pods.filter Pod.isEvictable) pre ∧
      left = .done (.failed (drainTimedOut node (DrainPhase.labels pods))) := by
  obtain ⟨pods, hphase⟩ := round_of_pause (h.onCall hes)
  have hshows := h.shows hes
  rw [hphase] at hshows
  obtain ⟨evicted, hsplit, hround⟩ := hshows
  rw [List.append_nil] at hsplit
  have hover : phaseAfter node (pre ++ [⟨PodOp.pause, true⟩]) =
      .over (.failed (drainTimedOut node (DrainPhase.labels pods))) := by
    rw [phase_snoc, hphase]
    rfl
  have hes' : es = (pre ++ [⟨PodOp.pause, true⟩]) ++ post := by simp [hes]
  obtain ⟨hpost, hleft⟩ := h.nothing_after_over hes' hover
  exact ⟨hpost, pods, hsplit ▸ hround, hleft⟩

theorem listing_failed {late : Bool} (hes : es = pre ++ ⟨PodOp.expired, late⟩ :: post) :
    post = [] ∧ ∃ text, left = .done (.failed text) := by
  obtain ⟨remaining, error, hphase⟩ := asking_of_expired (h.onCall hes)
  have hover : phaseAfter node (pre ++ [⟨PodOp.expired, late⟩]) =
      .over (.failed (if late then drainTimedOut node remaining else error)) := by
    rw [phase_snoc, hphase]
    cases late <;> rfl
  have hes' : es = (pre ++ [⟨PodOp.expired, late⟩]) ++ post := by simp [hes]
  obtain ⟨hpost, hleft⟩ := h.nothing_after_over hes' hover
  exact ⟨hpost, _, hleft⟩

end

end Underway

/-- For every sequence of answers, a drain keeps its discipline. -/
theorem drain_disciplined (node : String) (rounds : Nat) (es : Trace podSig)
    (left : PodProg DrainResult) (hsteps : (drain node rounds).Steps es left) :
    Disciplined node rounds es left := by
  have h := drain_underway hsteps
  constructor
  case cordons => exact h.head_call
  case cordon_failed =>
    intro rep post hes e hrep
    subst hrep
    have hsplit : es = [⟨PodOp.patchNode node true, .error e⟩] ++ post := hes
    exact h.nothing_after_over hsplit rfl
  case evictions => exact fun pre ns name rep post hes => h.wellAimed hes
  case gentle => exact fun ns name => h.calls_gentle
  case drained => exact h.last_listing
  case deadline => exact fun pre post hes => h.timed_out hes
  case expired => exact fun pre late post hes => h.listing_failed hes
  case blocked =>
    intro k hblocked r hleft
    cases r with
    | drained =>
      obtain ⟨pre, listing, hes, hnone⟩ := h.last_listing hleft
      obtain ⟨p, hp, -, hevictable⟩ := hblocked listing (by simp [hes])
      rw [hnone p hp] at hevictable
      cases hevictable
    | failed text => exact .inl ⟨text, rfl⟩
    | unfinished => exact .inr rfl
  case rounds_used =>
    intro hleft
    subst hleft
    exact Medea.rounds_used hsteps

/-- A pod of a workload. -/
def webPod : Pod := ⟨"shop", "web", "n1", .running, none, [], []⟩

def webListing : Listing (nodeSelector "n1") := ⟨[webPod], by decide⟩

/-- The budget refuses the eviction until the deadline. -/
def refusedRun : Trace podSig :=
  [⟨PodOp.patchNode "n1" true, .ok ()⟩, ⟨PodOp.listPods (nodeSelector "n1"), .ok webListing⟩,
    ⟨PodOp.evict "shop" "web", .error ⟨.tooManyRequests, "disruption budget"⟩⟩, ⟨PodOp.pause, true⟩]

theorem refused_disciplined : (drain "n1" 3).Steps refusedRun
      (.done (.failed "drain n1 timed out; pods remaining: shop/web")) ∧
    Disciplined "n1" 3 refusedRun
      (.done (.failed "drain n1 timed out; pods remaining: shop/web")) := by
  have hsteps : (drain "n1" 3).Steps refusedRun
      (.done (.failed "drain n1 timed out; pods remaining: shop/web")) :=
    .head _ (.head _ (.head _ (.head _ (.refl _))))
  exact ⟨hsteps, drain_disciplined "n1" 3 _ _ hsteps⟩

/-! ## What a drain leaves -/

namespace PodServer

theorem Serves.listing {pods pods' : List Pod} {sel : String} {listing : Listing sel}
    (h : Serves pods [⟨PodOp.listPods sel, .ok listing⟩] pods') :
    ∃ before, Others pods before ∧
      listing.val = before.filter fun p => nodeSelector p.nodeName = sel := by
  obtain ⟨before, -, hothers, ⟨hlisting, -⟩, -⟩ := h
  exact ⟨before, hothers, hlisting⟩

end PodServer

open PodServer in
/-- In every run against the API server, a drain that succeeds has just listed the pods of the node, and
those are spared ones, except for pods that are on their way out. -/
theorem drained_spared_iff (node : String) (rounds : Nat) (pods pods' : List Pod) (es : Trace podSig)
    (hserved : Serves pods es pods') (hsteps : (drain node rounds).Steps es (.done .drained)) :
    ∃ pre, ∃ listing : Listing (nodeSelector node), ∃ bound,
      es = pre ++ [⟨PodOp.listPods (nodeSelector node), .ok listing⟩] ∧ Serves pods pre bound ∧
      listing.val = bound.filter (fun p => p.nodeName = node) ∧
      ((∀ p ∈ listing.val, p.isSpared = true) ↔
        ∀ p ∈ listing.val, p.deletionTimestamp ≠ none → p.isSpared = true) := by
  obtain ⟨pre, listing, rfl, hnone⟩ := (drain_underway hsteps).last_listing rfl
  obtain ⟨a, hpre, hlast⟩ := serves_append.1 hserved
  obtain ⟨bound, hothers, hlisting⟩ := hlast.listing
  have hbound : Serves pods (pre ++ []) bound := serves_append.2 ⟨a, hpre, hothers⟩
  rw [List.append_nil] at hbound
  have hnode : listing.val = bound.filter (fun p => p.nodeName = node) := by
    rw [hlisting]
    apply List.filter_congr
    intro p _
    exact decide_eq_decide.2 ⟨nodeSelector_inj, congrArg nodeSelector⟩
  refine ⟨pre, listing, bound, rfl, hbound, hnode, ?_⟩
  constructor
  · intro hspared p hp _
    exact hspared p hp
  · intro hleaving p hp
    rcases Pod.isEvictable_eq_false_iff.1 (hnone p hp) with hspared | hdeleted
    · exact hspared
    · exact hleaving p hp hdeleted

/-- A pod of a `DaemonSet`. -/
def agentPod : Pod := ⟨"kube-system", "agent", "n1", .running, none, [], [⟨"DaemonSet", "agent"⟩]⟩

/-- The other pod of the node is evicted and gone after two seconds. -/
def agentRun : Trace podSig :=
  [⟨PodOp.patchNode "n1" true, .ok ()⟩,
    ⟨PodOp.listPods (nodeSelector "n1"), .ok ⟨[agentPod, webPod], by decide⟩⟩,
    ⟨PodOp.evict "shop" "web", .ok ()⟩, ⟨PodOp.pause, false⟩,
    ⟨PodOp.listPods (nodeSelector "n1"), .ok ⟨[agentPod], by decide⟩⟩]

open PodServer in
theorem agent_spared : Serves [agentPod, webPod] agentRun [agentPod] ∧
    (drain "n1" 2).Steps agentRun (.done .drained) ∧ ∃ pre, ∃ listing : Listing (nodeSelector "n1"),
      ∃ bound, agentRun = pre ++ [⟨PodOp.listPods (nodeSelector "n1"), .ok listing⟩] ∧
        Serves [agentPod, webPod] pre bound ∧ listing.val = bound.filter (fun p => p.nodeName = "n1") ∧
        ((∀ p ∈ listing.val, p.isSpared = true) ↔
          ∀ p ∈ listing.val, p.deletionTimestamp ≠ none → p.isSpared = true) := by
  have hgone : Others [agentPod, { webPod with deletionTimestamp := some 30 }] [agentPod] :=
    .single (.remove ("shop", "web"))
  have hserved : Serves [agentPod, webPod] agentRun [agentPod] :=
    ⟨_, _, .refl, rfl, _, _, .refl, ⟨by decide, rfl⟩, _, _, .refl, ⟨by decide, 30, rfl⟩,
      _, _, .refl, rfl, _, _, hgone, ⟨by decide, rfl⟩, .refl⟩
  have hsteps : (drain "n1" 2).Steps agentRun (.done .drained) :=
    .head _ (.head _ (.head _ (.head _ (.head _ (.refl _)))))
  exact ⟨hserved, hsteps, drained_spared_iff "n1" 2 _ _ _ hserved hsteps⟩

/-- The pod after its eviction, in its grace period. -/
def leavingPod : Pod := { webPod with deletionTimestamp := some 30 }

def leavingListing : Listing (nodeSelector "n1") := ⟨[leavingPod], by decide⟩

/-- The eviction is accepted; two seconds later the pod is still there. -/
def leavingRun : Trace podSig :=
  [⟨PodOp.patchNode "n1" true, .ok ()⟩, ⟨PodOp.listPods (nodeSelector "n1"), .ok webListing⟩,
    ⟨PodOp.evict "shop" "web", .ok ()⟩, ⟨PodOp.pause, false⟩,
    ⟨PodOp.listPods (nodeSelector "n1"), .ok leavingListing⟩]

open PodServer in
/-- The drain succeeds while the pod it evicted still runs on the node. -/
theorem leaving_not_spared : Serves [webPod] leavingRun [leavingPod] ∧
    (drain "n1" 2).Steps leavingRun (.done .drained) ∧
    leavingRun.getLast? = some ⟨PodOp.listPods (nodeSelector "n1"), .ok leavingListing⟩ ∧
    leavingPod ∈ leavingListing.val ∧ leavingPod.phase = .running ∧ leavingPod.isSpared = false := by
  refine ⟨⟨_, _, .refl, rfl, _, _, .refl, ⟨by decide, rfl⟩, ?_⟩, ?_, rfl, by decide, rfl, by decide⟩
  · exact ⟨_, _, .refl, ⟨by decide, 30, rfl⟩, _, _, .refl, rfl, _, _, .refl, ⟨by decide, rfl⟩, .refl⟩
  · exact .head _ (.head _ (.head _ (.head _ (.head _ (.refl _)))))

end Medea
