import Medea.ControlPlane.Provisioning

/-!
# One host of a pool at a time

The reconciler stages a host only if no other host of the pool is in flight. `one_provisioning` says
when this keeps every pool at one PROVISIONING host at most, in every run of passes, registrations and
deregistrations, with failing writes and crashes anywhere: a registration must not move a host that is
being provisioned into another pool, and a host that is staged must still be in the pool whose hosts the
pass has listed. Nothing in the code sees to either, and `registered_into_pool` is a run in which a
registration gives a pool its second PROVISIONING host.

The argument for a pass: after the listing, the PROVISIONING hosts of the pool are among those of the
list that are still to come or were parked, and the pass stages a host only when there are none left. For
a registration: it writes the state it has read, and the swap succeeds only on the version it has read.
-/

set_option autoImplicit false
set_option maxRecDepth 100000

namespace Medea

open Medea.Interaction
open ProvisionReconciler hiding bind

/-- Under the key there is a host of the pool that is being provisioned. -/
def Store.Provisioning (s : Store) (cluster pool key : String) : Prop :=
  ∃ h, s.db.hosts[key]? = some h ∧ h.cluster = cluster ∧ h.pool = pool ∧ h.state = .provisioning

instance (s : Store) (cluster pool key : String) : Decidable (s.Provisioning cluster pool key) :=
  decidable_of_iff (∃ h ∈ s.db.hosts[key]?, h.cluster = cluster ∧ h.pool = pool ∧
    h.state = .provisioning) (by simp [Store.Provisioning])

/-- Every pool has at most one host that is being provisioned. A host without a pool is in none. -/
def Store.OneProvisioning (s : Store) : Prop :=
  ∀ cluster pool k k', pool ≠ "" → s.Provisioning cluster pool k → s.Provisioning cluster pool k' →
    k = k'

/-- The activity that a label starts. -/
def Act.activity : Act → Option Activity
  | .start _ a => some a
  | _ => none

/-- Passes, registrations and deregistrations, and edits of other records. -/
def Activity.intake : Activity → Bool
  | .pass => true
  | .request (.registerHost _) => true
  | .request (.deregisterHost _ _) => true
  | .request _ => false
  | .edit (.putHostDesired _ _) => false
  | .edit _ => true

namespace OneProvisioning

/-- The store, and the cluster and pool whose hosts the executor has listed last. -/
structure Ghost where
  store : Store
  listing : Option (String × String) := none

/-- What an operation lists. -/
def listingOf : Op → Option (String × String)
  | .store (.listHosts cluster pool) => some (cluster, pool)
  | _ => none

def Ghost.next (m : Ghost) : Act → Ghost
  | .start _ _ => m
  | .act .executor e => ⟨Ev.after m.store e, (listingOf e.op).or m.listing⟩
  | .act (.client _) e => { m with store := Ev.after m.store e }
  | .crash => { m with store := m.store.open }

/-- The host can be written without a second host of its pool being in flight. -/
def Ghost.Accepts (m : Ghost) (h : Host) : Actor → Prop
  -- a host that is being provisioned stays where it is, or leaves all pools
  | .client _ => ∀ old ∈ m.store.db.hosts[ckey h.cluster h.mac]?, old.state = .provisioning →
      h.pool = "" ∨ h.cluster = old.cluster ∧ h.pool = old.pool
  -- a host that is staged is in the pool that was looked at
  | .executor => h.state = .provisioning → m.listing = some (h.cluster, h.pool)

instance (m : Ghost) (h : Host) : DecidablePred (m.Accepts h)
  | .client _ => inferInstanceAs (Decidable (∀ old ∈ _, _ → _))
  | .executor => inferInstanceAs (Decidable (_ → _))

/-- The condition on a step. -/
def Orderly (m : Ghost) (l : Act) : Prop :=
  (∀ a ∈ l.activity, a.intake = true) ∧ ∀ p ∈ l.host, m.Accepts p.2 p.1

instance (m : Ghost) (l : Act) : Decidable (Orderly m l) := inferInstanceAs (Decidable (_ ∧ _))

/-! ## Fewer hosts in flight -/

/-- No host of a pool is in flight that was not before. -/
def Fewer (s s' : Store) : Prop :=
  ∀ cluster pool k, pool ≠ "" → s'.Provisioning cluster pool k → s.Provisioning cluster pool k

section Fewer

variable {s s' s'' : Store}

theorem Fewer.refl (s : Store) : Fewer s s := fun _ _ _ _ h => h

theorem Fewer.trans (h : Fewer s s') (h' : Fewer s' s'') : Fewer s s'' :=
  fun cluster pool k hp hk => h cluster pool k hp (h' cluster pool k hp hk)

theorem Fewer.one (h : Fewer s s') (hs : s.OneProvisioning) : s'.OneProvisioning :=
  fun cluster pool k k' hp hk hk' => hs cluster pool k k' hp (h _ _ _ hp hk) (h _ _ _ hp hk')

theorem Fewer.of_db (h : s'.db = s.db) : Fewer s s' := by
  intro cluster pool k _ hk
  rw [Store.Provisioning, h] at hk
  exact hk

/-- What holds of the hosts in flight after an event: they were in flight before, or the event has put
the host. -/
theorem provisioning_after {e : Ev} (hfit : Ev.Fits s e) {cluster pool k : String}
    (h : (Ev.after s e).Provisioning cluster pool k) :
    s.Provisioning cluster pool k ∨ ∃ h rev r, e = ev (.store (.putHostDesired h rev)) (.ok r) ∧
      k = ckey h.cluster h.mac ∧ h.cluster = cluster ∧ h.pool = pool ∧ h.state = .provisioning := by
  obtain ⟨h, hk, hc, hp, hst⟩ := h
  rcases host_after hfit hk with hold | ⟨h', rev, r, rfl, rfl, rfl⟩
  · exact Or.inl ⟨h, hold, hc, hp, hst⟩
  · exact Or.inr ⟨h', rev, r, rfl, rfl, hc, hp, hst⟩

/-- The operations that put no host in flight. -/
def Idle : Op → Prop
  | .store (.putHostDesired h _) => h.state ≠ .provisioning
  | _ => True

theorem Fewer.of_idle {e : Ev} (hfit : Ev.Fits s e) (h : Idle e.op) : Fewer s (Ev.after s e) := by
  intro cluster pool k _ hk
  rcases provisioning_after hfit hk with hold | ⟨h', rev, r, rfl, -, -, -, hst⟩
  · exact hold
  · exact absurd hst h

/-- A host that was put is not in flight any more unless it was put so. -/
theorem not_provisioning_put {h : Host} {rev r : Nat} {cluster pool : String}
    (hfit : Ev.Fits s (ev (.store (.putHostDesired h rev)) (.ok r))) (hst : h.state ≠ .provisioning) :
    ¬(Ev.after s (ev (.store (.putHostDesired h rev)) (.ok r))).Provisioning cluster pool
      (ckey h.cluster h.mac) := by
  rintro ⟨h', hk, -, -, hst'⟩
  have hinv := congrFun (congrArg Inventory.hosts (inventory_putHost hfit)) (ckey h.cluster h.mac)
  simp only [Store.inventory, Inventory.withHost, Function.update_self] at hinv
  rw [hinv] at hk
  cases hk
  exact hst hst'

end Fewer

/-! ## The contract of a pass -/

/-- The others let no host of a pool come in flight. -/
def passContract : Contract medeaSig Ghost where
  drift m m' := m'.listing = m.listing ∧ Fewer m.store m'.store
  admits m e := m.store.Reachable ∧ Ev.Fits m.store e ∧ Orderly m (.act .executor e)
  allows m e := (Ev.after m.store e).OneProvisioning
  next m e := m.next (.act .executor e)
  drift_refl _ := ⟨rfl, .refl _⟩
  drift_trans h h' := ⟨h'.1.trans h.1, h.2.trans h'.2⟩

/-- The hosts of the pool that are in flight are among the given ones. -/
structure Among (cluster pool : String) (hosts : List Host) (m : Ghost) : Prop where
  one : m.store.OneProvisioning
  listing : m.listing = some (cluster, pool)
  among : ∀ k, pool ≠ "" → m.store.Provisioning cluster pool k →
    ∃ h ∈ hosts, h.state = .provisioning ∧ k = ckey cluster h.mac

namespace Among

variable {cluster pool : String} {hosts hosts' : List Host} {m m' : Ghost}

theorem fewer (h : Among cluster pool hosts m) (hl : m'.listing = m.listing)
    (hf : Fewer m.store m'.store) : Among cluster pool hosts m' where
  one := hf.one h.one
  listing := hl.trans h.listing
  among k hp hk := h.among k hp (hf _ _ _ hp hk)

theorem mono (h : Among cluster pool hosts m)
    (hsub : ∀ x ∈ hosts, x.state = .provisioning → x ∈ hosts') : Among cluster pool hosts' m where
  one := h.one
  listing := h.listing
  among k hp hk := by
    obtain ⟨x, hx, hst, hkey⟩ := h.among k hp hk
    exact ⟨x, hsub x hx hst, hst, hkey⟩

/-- Just after the listing. -/
theorem of_listHosts {hosts : List Host} (hone : m.store.OneProvisioning)
    (hreach : m.store.Reachable)
    (hfit : Ev.Fits m.store (ev (.store (.listHosts cluster pool)) (.ok hosts))) :
    Among cluster pool hosts (m.next (.act .executor
      (ev (.store (.listHosts cluster pool)) (.ok hosts)))) := by
  have hsame : Fewer m.store (Ev.after m.store (ev (.store (.listHosts cluster pool)) (.ok hosts))) :=
    .of_idle hfit trivial
  refine ⟨hsame.one hone, rfl, ?_⟩
  intro k hp hk
  obtain ⟨h, hk, hc, hpool, hst⟩ := hsame _ _ _ hp hk
  have hkey := hreach.host_key hk
  rw [hc] at hkey
  refine ⟨h, ?_, hst, hkey.symm⟩
  refine (mem_of_listHosts hfit).2 ⟨⟨k, hk, ?_⟩, Or.inr hpool⟩
  rw [← hkey]
  exact hasPrefix_ckey_self cluster h.mac

end Among

/-- What holds at the places of a pass. -/
def holds : Point → Ghost → Prop
  | .rest, m | .entered _, m | .opened _ _, m => m.store.OneProvisioning
  | .listed cluster pool hosts, m | .seen cluster pool hosts _, m => Among cluster pool hosts m
  | .advancing R todo count, m =>
    -- the parked hosts are those counted as in flight
    ∃ parked : List Host, parked.length = count.inflight ∧
      Among R.cluster R.pool (todo ++ parked) m

theorem holds_rest {p : Point} {m : Ghost} (h : holds p m) : m.store.OneProvisioning := by
  cases p with
  | rest | entered | opened => exact h
  | listed | seen => exact Among.one h
  | advancing R todo count =>
    obtain ⟨_, -, h⟩ := h
    exact h.one

theorem holds_fewer {p : Point} {m m' : Ghost} (h : holds p m) (hl : m'.listing = m.listing)
    (hf : Fewer m.store m'.store) : holds p m' := by
  cases p with
  | rest | entered | opened => exact hf.one h
  | listed | seen => exact Among.fewer h hl hf
  | advancing R todo count =>
    obtain ⟨parked, hlen, h⟩ := h
    exact ⟨parked, hlen, h.fewer hl hf⟩

theorem holds_drift {p : Point} {m m' : Ghost} (h : holds p m) (hm : passContract.drift m m') :
    holds p m' := holds_fewer h hm.1 hm.2

/-- The operations that put no host in flight and do not turn to another pool keep what holds. -/
def Steady (op : Op) : Prop := Idle op ∧ listingOf op = none

theorem holds_steady {p : Point} {m : Ghost} {e : Ev} (h : holds p m)
    (hadm : passContract.admits m e) (hop : Steady e.op) :
    passContract.allows m e ∧ holds p (passContract.next m e) := by
  obtain ⟨-, hfit, -⟩ := hadm
  have hf := Fewer.of_idle hfit hop.1
  refine ⟨hf.one (holds_rest h), holds_fewer h ?_ hf⟩
  show (listingOf e.op).or m.listing = m.listing
  rw [hop.2]
  rfl

theorem steady_of_quiet {op : Op} (h : op.quiet = true) : Steady op := by
  cases op with
  | store op => cases op <;> first | exact ⟨trivial, rfl⟩ | cases h
  | _ => exact ⟨trivial, rfl⟩

/-- A program of such operations. -/
theorem keeps_of_within {α : Type} {p : Point} {m : Ghost} {prog : Prog α}
    (hp : prog.Within (fun _ => True) Steady fun _ => True) (h : holds p m) :
    prog.Keeps passContract (fun _ => holds p) m :=
  (hp.steady holds_drift (fun h hop hadm => ⟨trivial, holds_steady h hadm hop⟩) h).mono fun _ _ h => h.2

/-! ## The pieces of a pass -/

section Advance

variable {m : Ghost} {R : Round} {h : Host} {todo : List Host} {count : HostCount}

/-- The first host of the list was put in another state: it is not among those in flight. -/
theorem advanced {count' : HostCount} {h' : Host} {rev r : Nat}
    (hm : holds (.advancing R (h :: todo) count) m)
    (hin : count'.inflight = count.inflight)
    (hfit : Ev.Fits m.store (ev (.store (.putHostDesired h' rev)) (.ok r)))
    (hkey : ckey h'.cluster h'.mac = ckey R.cluster h.mac) (hst : h'.state ≠ .provisioning) :
    holds (.advancing R todo count')
      (m.next (.act .executor (ev (.store (.putHostDesired h' rev)) (.ok r)))) := by
  obtain ⟨parked, hlen, hamong⟩ := hm
  have hf := Fewer.of_idle hfit (show Idle (.store (.putHostDesired h' rev)) from hst)
  refine ⟨parked, hlen.trans hin.symm, hf.one hamong.one, hamong.listing, ?_⟩
  intro k hp hk
  obtain ⟨x, hx, hxst, rfl⟩ := hamong.among k hp (hf _ _ _ hp hk)
  rcases List.mem_cons.1 hx with rfl | hx
  · rw [← hkey] at hk
    exact absurd hk (not_provisioning_put hfit hst)
  · exact ⟨x, hx, hxst, rfl⟩

/-- The first host of the list is read and put in another state. -/
theorem settle_keeps (edit : Host → Host) (count' : HostCount)
    (hm : holds (.advancing R (h :: todo) count) m) (hin : count'.inflight = count.inflight)
    (hst : ∀ host, (edit host).state ≠ .provisioning)
    (hnames : ∀ host, (edit host).cluster = host.cluster ∧ (edit host).mac = host.mac) :
    (editHost R.cluster h.mac edit).Keeps passContract
      (Ends (holds .rest) fun _ => holds (.advancing R todo count')) m := by
  refine editHost_keeps (A := holds (.advancing R (h :: todo) count))
    (B := fun host _ m => holds (.advancing R (h :: todo) count) m ∧
      ckey host.cluster host.mac = ckey R.cluster h.mac)
    holds_drift (fun hb hm => ⟨holds_drift hb.1 hm, hb.2⟩) holds_drift holds_drift ?_ ?_ hm
  · intro m rep ha hadm
    obtain ⟨hall, hnext⟩ := holds_steady ha hadm ⟨trivial, rfl⟩
    refine ⟨hall, ?_⟩
    rcases rep with e | ⟨_ | host, rev⟩
    · exact holds_rest hnext
    · exact holds_rest hnext
    · exact ⟨hnext, hadm.1.host_key (fits_getHost hadm.2.1).1⟩
  · intro m host rev rep hb hadm
    have hop : Steady (.store (.putHostDesired (edit host) rev)) := ⟨hst host, rfl⟩
    obtain ⟨hall, hnext⟩ := holds_steady hb.1 hadm hop
    refine ⟨hall, ?_⟩
    cases rep with
    | error e => exact holds_rest hnext
    | ok r =>
      refine advanced hb.1 hin hadm.2.1 ?_ (hst host)
      rw [(hnames host).1, (hnames host).2]
      exact hb.2

theorem bind_keeps {n : NodeInfo} (hm : holds (.advancing R (h :: todo) count) m) :
    (ProvisionReconciler.bind R.cluster R.pool h.mac n R.np.role).Keeps passContract
      (Ends (holds .rest) fun _ => holds (.advancing R todo (count.bound n))) m := by
  rw [ProvisionReconciler.bind]
  refine (settle_keeps (fun h => { h with addr := n.internalIP, state := .ready, message := "" })
    (count.bound n) hm rfl (fun _ => by simp) fun _ => ⟨rfl, rfl⟩).bind ?_
  rintro (e | ⟨⟩) m' hm'
  · exact fun _ hd => holds_drift (p := .rest) hm' hd
  -- the machine and the membership are written next, and no host
  refine (keeps_of_within (p := .advancing R todo (count.bound n)) ?_ hm').mono ?_
  · refine ⟨⟨trivial, rfl⟩, ?_⟩
    rintro (e | ⟨mc, rev⟩) -
    · trivial
    refine ⟨⟨trivial, rfl⟩, ?_⟩
    rintro (e | rev') -
    · trivial
    · exact editPool_within ⟨trivial, rfl⟩ fun _ _ => ⟨trivial, rfl⟩
  · rintro (e | ⟨⟩) m'' h''
    · exact holds_rest h''
    · exact h''

/-- The pool that was listed has nothing in flight: a host of it can be put in flight. -/
theorem one_staged {h' : Host} {rev r : Nat} (hamong : Among R.cluster R.pool [] m)
    (hfit : Ev.Fits m.store (ev (.store (.putHostDesired h' rev)) (.ok r)))
    (hpool : m.listing = some (h'.cluster, h'.pool)) :
    (Ev.after m.store (ev (.store (.putHostDesired h' rev)) (.ok r))).OneProvisioning := by
  rw [hamong.listing] at hpool
  obtain ⟨hcl, hpo⟩ := Prod.mk.inj (Option.some.inj hpool)
  have hnone : ∀ k, h'.pool ≠ "" → ¬m.store.Provisioning h'.cluster h'.pool k := by
    intro k hp hk
    rw [← hcl, ← hpo] at hk
    obtain ⟨x, hx, -⟩ := hamong.among k (hpo ▸ hp) hk
    cases hx
  intro c p k k' hp hk hk'
  rcases provisioning_after hfit hk with hold | ⟨_, _, _, heq, rfl, rfl, rfl, -⟩
  · rcases provisioning_after hfit hk' with hold' | ⟨_, _, _, heq, rfl, rfl, rfl, -⟩
    · exact hamong.one c p k k' hp hold hold'
    · cases heq
      exact absurd hold (hnone k hp)
  · cases heq
    rcases provisioning_after hfit hk' with hold' | ⟨_, _, _, heq, rfl, -⟩
    · exact absurd hold' (hnone k' hp)
    · cases heq
      rfl

theorem publish_keeps {host : Host} (r : ProvisionReconciler) (schematic version : String)
    (cfg : Bytes) (hm : holds (.advancing R [] count) m) (hclear : count.Clear) :
    (r.publish R.cl host schematic version cfg).Keeps passContract
      (fun _ => holds .rest) m := by
  intro m0 hm0 rep hadm
  obtain ⟨hall, hnext⟩ := holds_steady (holds_drift hm hm0) hadm ⟨trivial, rfl⟩
  refine ⟨hall, ?_⟩
  rcases rep with e | ⟨⟩
  · exact fun _ hd => holds_drift (p := .rest) (holds_rest hnext) hd
  refine (startProvisioning_keeps (A := holds (.advancing R [] count))
    (B := fun _ _ => holds (.advancing R [] count)) (E := holds .rest) (D := holds .rest)
    holds_drift holds_drift holds_drift holds_drift ?_ ?_ ?_ hnext).mono ?_
  · intro m rep ha hadm
    obtain ⟨hall, hnext⟩ := holds_steady ha hadm ⟨trivial, rfl⟩
    refine ⟨hall, ?_⟩
    rcases rep with e | ⟨_ | host, rev⟩
    · exact holds_rest hnext
    · exact holds_rest hnext
    · exact hnext
  · exact fun hb hadm => holds_steady hb hadm ⟨trivial, rfl⟩
  · intro m h h' rev rep hb hput hadm
    obtain ⟨hreach, hfit, -, haccept⟩ := hadm
    cases rep with
    | error e => exact ⟨holds_rest hb, holds_rest hb⟩
    | ok rev' =>
      obtain ⟨parked, hlen, hamong⟩ := hb
      have hempty : parked = [] := List.eq_nil_of_length_eq_zero (hlen.trans hclear.1)
      rw [hempty] at hamong
      have hst : h'.state = .provisioning := by
        obtain ⟨msg, started, rfl⟩ := hput
        rfl
      have hone := one_staged hamong hfit (haccept _ rfl hst)
      exact ⟨hone, hone⟩
  · rintro (e | ⟨⟩) m' h'
    · exact h'
    · exact h'

end Advance

/-- The outline of a pass. -/
def outline : Outline passContract where
  holds := holds
  drift := holds_drift
  quiet h hq hadm := holds_steady h hadm (steady_of_quiet hq)
  rests h := holds_rest h
  enters {m c cl rev} h hadm := by
    obtain ⟨cl₀, hk, hname⟩ := fits_getCluster hadm.2.1
    exact ⟨hname.trans (hadm.1.cluster_key hk), (holds_steady h hadm ⟨trivial, rfl⟩).2⟩
  opens {m c p np rev} h hadm := (holds_steady (p := .rest) h hadm ⟨trivial, rfl⟩).2
  listHosts {m c p rep} h hadm := by
    have hf := Fewer.of_idle hadm.2.1 (show Idle (.store (.listHosts c p)) from trivial)
    refine ⟨hf.one h, ?_⟩
    cases rep with
    | error e => exact hf.one h
    | ok hosts => exact Among.of_listHosts h hadm.1 hadm.2.1
  listNodes {m client c p hosts member nodes} h _ hadm :=
    (holds_steady (p := .listed c p hosts) h hadm ⟨trivial, rfl⟩).2
  listMachines {m R ms} h hadm := by
    have h' := (holds_steady h hadm ⟨trivial, rfl⟩).2
    refine ⟨[], rfl, ?_⟩
    rw [List.append_nil]
    exact h'
  skip {m R h todo count} hm hne := by
    obtain ⟨parked, hlen, hamong⟩ := hm
    refine ⟨parked, ?_, hamong.mono ?_⟩
    · rw [hlen, HostCount.passed]
      split <;> rfl
    · intro x hx hst
      rcases List.mem_cons.1 hx with rfl | hx
      · exact absurd hst hne
      · exact hx
  park {m R h todo count} hm _ := by
    obtain ⟨parked, hlen, hamong⟩ := hm
    refine ⟨h :: parked, by simp [hlen], hamong.mono ?_⟩
    intro x hx _
    simp only [List.cons_append, List.mem_cons, List.mem_append] at hx ⊢
    tauto
  bind hm _ _ := bind_keeps hm
  fail {m R h todo count} hm _ := by
    exact settle_keeps _ { count with failed := count.failed + 1 } hm rfl (fun _ => by simp)
      fun _ => ⟨rfl, rfl⟩
  release {m R count v} hm _ _ := by
    refine (keeps_of_within ?_ hm).mono fun _ _ h => holds_rest h
    refine ProvisionReconciler.unstage_within ⟨trivial, rfl⟩ ⟨trivial, rfl⟩ ⟨trivial, rfl⟩
      (fun _ _ => ⟨trivial, rfl⟩) ⟨trivial, rfl⟩ ?_
    intro host rev hst
    refine ⟨?_, rfl⟩
    show host.state ≠ .provisioning
    simp [hst]
  publish r schematic version cfg hm hclear _ _ := publish_keeps r schematic version cfg hm hclear

/-! ## The contract of a client -/

/-- What is found at an old revision is what was there. -/
structure Evolves (s s' : Store) : Prop where
  counter : s.db.revision ≤ s'.db.revision
  old : ∀ {key r v}, s'.db.entry key = some (r, v) → r ≤ s.db.revision →
    s.db.entry key = some (r, v)

theorem Evolves.refl (s : Store) : Evolves s s := ⟨Nat.le_refl _, fun h _ => h⟩

theorem Evolves.trans {s s' s'' : Store} (h : Evolves s s') (h' : Evolves s' s'') :
    Evolves s s'' where
  counter := Nat.le_trans h.counter h'.counter
  old he hle := h.old (h'.old he (Nat.le_trans hle h.counter)) hle

theorem Evolves.of_event {s : Store} {e : Ev} (hfit : Ev.Fits s e) : Evolves s (Ev.after s e) := by
  obtain ⟨op, rep⟩ := e
  cases op with
  | store op =>
    have hcall : (Access.call op rep).Fits s := hfit
    refine ⟨?_, ?_⟩
    · have hrev := Access.revision_after hcall
      show s.db.revision ≤ ((Access.call op rep).after s).db.revision
      omega
    · intro key r v he hle
      have hreg := congrArg Versioned.Registry.entry (Access.registry_after hcall)
      have hentry := (congrFun hreg key).symm.trans he
      rcases Versioned.Registry.entry_apply hentry with hold | ⟨-, hnew⟩
      · exact hold
      · -- a new entry carries a revision above the counter
        have hcounter : r = s.db.revision + 1 := hnew
        omega
  | _ => exact .refl s

/-- What a registration has read is what its swap replaces. -/
def Found (key : String) (cur : Option Host) (rev : Nat) (s : Store) : Prop :=
  ∀ c, cur = some c → 1 ≤ rev ∧ rev ≤ s.db.revision ∧
    ∀ v, s.db.entry (.host, key) = some (rev, v) → v = .host c

theorem Found.evolves {key : String} {cur : Option Host} {rev : Nat} {s s' : Store}
    (h : Found key cur rev s) (hs : Evolves s s') : Found key cur rev s' := by
  intro c hc
  obtain ⟨hpos, hle, hv⟩ := h c hc
  exact ⟨hpos, Nat.le_trans hle hs.counter, fun v he => hv v (hs.old he hle)⟩

theorem found_of_getHost {s : Store} {cluster mac : String} {cur : Option Host} {rev : Nat}
    (hs : s.Reachable) (hfit : Ev.Fits s (ev (.store (.getHost cluster mac)) (.ok (cur, rev)))) :
    Found (ckey cluster mac) cur rev s := by
  rintro c rfl
  obtain ⟨hk, rfl⟩ := fits_getHost hfit
  have he := DB.entry_of_host hk
  obtain ⟨hpos, hle⟩ := hs.revisions.range _ _ _ he
  refine ⟨hpos, hle, ?_⟩
  intro v hv
  rw [he] at hv
  exact (Prod.mk.inj (Option.some.inj hv)).2.symm

/-- Clients may do what they like to records at new revisions. -/
def clientContract (n : Nat) : Contract medeaSig Ghost where
  drift m m' := Evolves m.store m'.store
  admits m e := m.store.Reachable ∧ Ev.Fits m.store e ∧ Orderly m (.act (.client n) e)
  allows m e := Fewer m.store (Ev.after m.store e)
  next m e := m.next (.act (.client n) e)
  drift_refl _ := .refl _
  drift_trans := Evolves.trans

/-- A registration writes a host in flight only where it has read one. -/
theorem state_registered {req : RegisterHostRequest} {role : Role} {cur : Option Host}
    (h : (Server.registeredHost req role cur).state = .provisioning) :
    ∃ c, cur = some c ∧ c.state = .provisioning := by
  cases cur with
  | none => cases h
  | some c =>
    rw [Server.registeredHost] at h
    dsimp only at h
    split_ifs at h
    · exact ⟨c, rfl, h⟩

section Client

variable {n : Nat} {m : Ghost}

/-- A registration that is accepted puts no host in flight in another pool. -/
theorem registered_fewer {req : RegisterHostRequest} {role : Role} {cur : Option Host} {rev : Nat}
    {rep : (Op.store (.putHostDesired (Server.registeredHost req role cur) rev)).Reply}
    (hfound : Found (ckey req.cluster req.mac) cur rev m.store)
    (hadm : (clientContract n).admits m
      (ev (.store (.putHostDesired (Server.registeredHost req role cur) rev)) rep)) :
    Fewer m.store (Ev.after m.store
      (ev (.store (.putHostDesired (Server.registeredHost req role cur) rev)) rep)) := by
  obtain ⟨-, hfit, -, haccept⟩ := hadm
  intro cluster pool k hp hk
  rcases provisioning_after hfit hk with hold | ⟨h', rev', r, heq, rfl, rfl, rfl, hst⟩
  · exact hold
  cases heq
  obtain ⟨c, rfl, hcst⟩ := state_registered hst
  obtain ⟨hpos, -, hv⟩ := hfound c rfl
  -- the swap succeeded, so the version that was read is still there
  have hput : ((Desired.host (Server.registeredHost req role (some c))).put m.store rev).1 = .ok r :=
    Ev.Fits.ok hfit
  obtain ⟨-, hexp, -⟩ := CompareAndSwap.put_value hput
  have hkey := Server.registeredHost_names req role (some c)
  rw [Desired.key, hkey.1, hkey.2] at hexp
  rcases hexp with ⟨-, rfl⟩ | ⟨v, hentry⟩
  · exact absurd hpos (Nat.not_succ_le_zero 0)
  obtain rfl := hv v hentry
  have hstored : m.store.db.hosts[ckey req.cluster req.mac]? = some c := DB.host_of_entry hentry
  rw [hkey.1, hkey.2]
  have hold := haccept _ rfl c (by rw [hkey.1, hkey.2]; exact hstored) hcst
  rcases hold with hno | ⟨hcl, hpo⟩
  · exact absurd hno hp
  · exact ⟨c, hstored, (hkey.1.symm.trans hcl).symm, hpo.symm, hcst⟩

/-- An operation that puts no host in flight. -/
theorem call_keeps {α : Type} {op : Op} {next : op.Reply → Prog α} (h : Idle op)
    (hnext : ∀ r m', (next r).Keeps (clientContract n) (fun _ _ => True) m') :
    (call op >>= next).Keeps (clientContract n) (fun _ _ => True) m := by
  intro m' _ r hadm
  exact ⟨.of_idle hadm.2.1 h, hnext r _⟩

theorem editRegisteredHost_keeps (req : RegisterHostRequest) (role : Role) :
    (Server.editRegisteredHost req role).Keeps (clientContract n) (fun _ _ => True) m := by
  intro m1 _ rep hadm
  refine ⟨.of_idle hadm.2.1 trivial, ?_⟩
  rcases rep with e | ⟨cur, rev⟩
  · exact fun _ _ => trivial
  have hfound := (found_of_getHost hadm.1 hadm.2.1).evolves (.of_event hadm.2.1)
  intro m2 hm2 rep' hadm'
  refine ⟨registered_fewer (hfound.evolves hm2) hadm', ?_⟩
  cases rep' with
  | error | ok => exact fun _ _ => trivial

theorem rmwAttempts_keeps {α : Type} {body : Prog (Except BodyError α)} {expected : Nat}
    (h : ∀ m, body.Keeps (clientContract n) (fun _ _ => True) m) (attempts : Nat) :
    (Server.rmwAttempts body expected attempts).Keeps (clientContract n) (fun _ _ => True) m := by
  induction attempts generalizing m with
  | zero => exact fun _ _ => trivial
  | succ attempts ih =>
    refine (h m).bind ?_
    rintro (err | a) m' -
    · rcases err with e | st
      · cases e with
        | conflict =>
          dsimp only
          split_ifs
          · exact fun _ _ => trivial
          · exact ih
        | other msg => exact fun _ _ => trivial
      · exact fun _ _ => trivial
    · exact fun _ _ => trivial

theorem registerHost_keeps (req : RegisterHostRequest) :
    (Server.registerHost req).Keeps (clientContract n) (fun _ _ => True) m := by
  have hput : ∀ role m, (Server.putRegisteredHost req role).Keeps (clientContract n)
      (fun _ _ => True) m := by
    intro role m
    refine (rmwAttempts_keeps (fun _ => editRegisteredHost_keeps req role) 2).bind ?_
    rintro (e | host) m' -
    · exact fun _ _ => trivial
    · exact fun _ _ => trivial
  rw [Server.registerHost]
  split
  · exact fun _ _ => trivial
  refine call_keeps trivial ?_
  rintro (e | ⟨_ | c, rev⟩) m'
  · exact fun _ _ => trivial
  · exact fun _ _ => trivial
  rw [Server.orStatus]
  dsimp only
  split
  · refine call_keeps trivial ?_
    rintro (e | ⟨_ | np, rev'⟩) m''
    · exact fun _ _ => trivial
    · exact fun _ _ => trivial
    · exact hput _ m''
  · exact hput _ m'

theorem deregisterHost_keeps (cluster mac : String) :
    (Server.deregisterHost cluster mac).Keeps (clientContract n) (fun _ _ => True) m := by
  rw [Server.deregisterHost]
  split_ifs
  · exact fun _ _ => trivial
  · refine call_keeps trivial ?_
    rintro (e | ⟨⟩) m'
    · exact fun _ _ => trivial
    · exact fun _ _ => trivial

/-- Everything a client may start keeps the contract. -/
theorem activity_keeps (cfg : Settings) {a : Activity} (hmay : Actor.may (.client n) a = true)
    (ha : a.intake = true) :
    (cfg.activity a).Keeps (clientContract n) (fun _ _ => True) m := by
  have hrespond : ∀ result m, (call (.respond result)).Keeps (clientContract n)
      (fun _ _ => True) m :=
    fun result m m' _ r hadm => ⟨.of_idle hadm.2.1 trivial, fun _ _ => trivial⟩
  cases a with
  | pass => cases hmay
  | request req =>
    cases req with
    | registerHost req => exact (registerHost_keeps req).bind fun r m _ => hrespond r m
    | deregisterHost cluster mac =>
      exact (deregisterHost_keeps cluster mac).bind fun r m _ => hrespond r m
    | _ => cases ha
  | edit op =>
    refine call_keeps ?_ fun _ _ _ _ => trivial
    cases op <;> trivial

end Client

/-! ## Runs -/

/-- Passes and clients fit together: a client lets no host of a pool come in flight, and whoever
writes, records keep their revisions. -/
def supervision (cfg : Settings) : Supervision (provisioningPlane cfg) Ghost where
  contract
    | .executor => passContract
    | .client n => clientContract n
  mark := Ghost.next
  assumes := Orderly
  rel w m := w.store = m.store ∧ m.store.Reachable ∧ m.store.OneProvisioning
  idle
    | .executor, m => m.store.OneProvisioning
    | .client _, _ => True
  idle_drift {i m m'} h hm := by
    cases i with
    | executor => exact hm.2.one h
    | client n => trivial
  admits {i e w w' m} hord hrel hw := by
    obtain ⟨hfit, -⟩ := World.handles_event hw
    rw [hrel.1] at hfit
    cases i with
    | executor | client => exact ⟨hrel.2.1, hfit, hord⟩
  act {i e w w' m} hord hrel hw hall := by
    obtain ⟨hfit, hstore⟩ := World.handles_event hw
    rw [hrel.1] at hfit hstore
    cases i with
    | executor =>
      refine ⟨⟨hstore, hrel.2.1.after hfit, hall⟩, ?_⟩
      rintro (_ | k) hne
      · exact absurd rfl hne
      · exact Evolves.of_event hfit
    | client n =>
      refine ⟨⟨hstore, hrel.2.1.after hfit, hall.one hrel.2.2⟩, ?_⟩
      rintro (_ | k) -
      · exact ⟨rfl, hall⟩
      · exact Evolves.of_event hfit
  start {i a w m} hmay hord hrel hidle := by
    refine ⟨hrel, ?_, ?_⟩
    · cases i with
      | executor =>
        cases a with
        | pass =>
          exact (outline.runOnce_keeps cfg.provisioning hidle).bind fun _ _ h => outline.stop h
        | _ => cases hmay
      | client n => exact activity_keeps cfg hmay (hord.1 a rfl)
    · rintro (_ | k) -
      · exact ⟨rfl, .refl _⟩
      · exact .refl _
  crash {w m} _ hrel := by
    have hone : m.store.open.OneProvisioning := (Fewer.of_db rfl).one hrel.2.2
    refine ⟨⟨congrArg Store.open hrel.1, hrel.2.1.reopen, hone⟩, ?_⟩
    rintro (_ | n)
    · exact hone
    · trivial

theorem track_eq {cfg : Settings} (m : Ghost) (l : Act) :
    (supervision cfg).track m l = m.next l := by
  rcases l with ⟨i, a⟩ | ⟨_ | n, e⟩ | _
  · rfl
  · rfl
  · rfl
  · rfl

end OneProvisioning

open OneProvisioning

/-- At most one host of a pool is being provisioned. Start from any inventory without a PROVISIONING
host, and let passes, registrations, deregistrations and edits of other records run in any order, with
failures and crashes. If every registration leaves a host that is being provisioned in its pool (or
takes it out of all pools), and every host that a pass stages is still in the pool whose hosts the pass
has listed, then every pool has at most one PROVISIONING host in every state. -/
theorem one_provisioning (cfg : Settings) {s : Store} (hs : s.Reachable)
    (hnone : ∀ (k : String) (h : Host), s.db.hosts[k]? = some h → h.state ≠ .provisioning)
    {ls : List Act} {c : Scene} (hr : (provisioningPlane cfg).Runs (Scene.idle s) ls c)
    (hord : Along OneProvisioning.Ghost.next OneProvisioning.Orderly ⟨s, none⟩ ls) :
    c.world.store.OneProvisioning := by
  have hone : s.OneProvisioning := by
    rintro cluster pool k k' - ⟨h, hk, -, -, hst⟩
    exact absurd hst (hnone k h hk)
  have hinv : (supervision cfg).Inv (Scene.idle s) ⟨s, none⟩ := by
    refine Supervision.inv_idle _ ⟨rfl, hs, hone⟩ ?_
    rintro (_ | n)
    · exact hone
    · trivial
  obtain ⟨⟨hstore, -, hend⟩, -⟩ :=
    (supervision cfg).runs_inv track_eq hr hinv hord
  rw [hstore]
  exact hend

/-- One pass over the sample stages a host in each of the two pools. -/
def OneProvisioning.bothStaged : List (Cue Actor Activity Oracle) := Scene.pass 40 []

theorem both_staged_one :
    ((Scene.player Script.settings).play OneProvisioning.bothStaged
        (Scene.idle (storeAfter Scene.twoPools))).2.world.store.OneProvisioning ∧
      ((Scene.player Script.settings).play OneProvisioning.bothStaged
        (Scene.idle (storeAfter Scene.twoPools))).2.world.store.Provisioning "c" "p"
          (ckey "c" "a") := by
  refine ⟨?_, by decide +kernel⟩
  exact one_provisioning Script.settings Scene.twoPools_reachable
    (Store.forall_hosts (by decide +kernel)) (Player.play_runs _ _ _) (by decide +kernel)

/-- Then the host of the second pool is registered again, into the first. -/
def OneProvisioning.moved : List (Cue Actor Activity Oracle) :=
  OneProvisioning.bothStaged ++ Cue.task (.client 0)
    (.request (.registerHost { cluster := "c", mac := "b", pool := "p" })) 10
    (.working "v1.7.0" [])

/-- From an inventory without a PROVISIONING host, a pass and a registration leave a pool with two. -/
theorem registered_into_pool : ∃ s ls c, Store.Reachable s ∧
    (∀ (k : String) (h : Host), s.db.hosts[k]? = some h → h.state ≠ .provisioning) ∧
    (provisioningPlane Script.settings).Runs (Scene.idle s) ls c ∧
    (∀ l ∈ ls, ∀ a ∈ Act.activity l, a.intake = true) ∧ ¬c.world.store.OneProvisioning := by
  refine ⟨storeAfter Scene.twoPools, _, _, Scene.twoPools_reachable,
    Store.forall_hosts (by decide +kernel),
    (Scene.player Script.settings).play_runs moved _, by decide +kernel, ?_⟩
  intro h
  have hsame := h "c" "p" (ckey "c" "a") (ckey "c" "b") (by decide) (by decide +kernel)
    (by decide +kernel)
  exact absurd hsame (by decide)

end Medea
