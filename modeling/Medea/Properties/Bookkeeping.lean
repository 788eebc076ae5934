import Medea.ControlPlane.Oversight

/-!
# The books of the provisioner

A READY host has a Machine record in its pool and is a member of it, and no two hosts of a cluster carry
the same address. `books_in_order` says when this holds between the passes of the executor, in every run
from an inventory in order: as long as nothing fails or crashes between the first and the last write of a
`bind` or of a release, and nobody else touches hosts, machines and members. Nothing repairs a `bind`
that was cut short: later passes look at the state of the host alone. `bind_cut_short` is a run in which
the process crashes after the first write of a `bind`, and the passes that follow leave the READY host
without a machine. A release that was cut short is taken up by the next pass, if it picks the same host;
the books are out of order until then.

The argument: `Inventory.Tidy` is kept by a whole `bind` (`Tidy.bound`) and by a whole release
(`Tidy.dropped`), and in between the inventory is known exactly, because only the executor writes it.
-/

set_option autoImplicit false
set_option maxRecDepth 100000

namespace Medea

open Medea.Interaction
open ProvisionReconciler hiding bind

namespace Inventory

/-- The books are in order. -/
structure Consistent (v : Inventory) : Prop where
  /-- The address of a READY host has a machine in the pool of the host. -/
  machine : ∀ {k h}, v.hosts k = some h → h.state = .ready →
    ∃ mc, v.machines (ckey h.cluster h.addr) = some mc ∧ mc.pool = h.pool
  /-- It is listed among the members of that pool. -/
  member : ∀ {k h}, v.hosts k = some h → h.state = .ready →
    ∃ ms, v.members (ckey h.cluster h.pool) = some ms ∧ h.addr ∈ ms
  /-- No two hosts of a cluster carry the same address. -/
  distinct : ∀ {k k' h h'}, v.hosts k = some h → v.hosts k' = some h' → h.cluster = h'.cluster →
    h.addr = h'.addr → h.addr ≠ "" → k = k'

/-- Only READY hosts carry an address. -/
def Bare (v : Inventory) : Prop := ∀ k h, v.hosts k = some h → h.state ≠ .ready → h.addr = ""

structure Tidy (v : Inventory) : Prop extends v.Consistent where
  bare : v.Bare

namespace Tidy

variable {v : Inventory}

/-- A host without an address takes the place of another one. -/
theorem withBare {h : Host} (hv : v.Tidy) (haddr : h.addr = "") (hst : h.state ≠ .ready) :
    (v.withHost h).Tidy where
  machine {k x} hk hx := by
    rcases hosts_withHost hk with ⟨-, rfl⟩ | ⟨-, hold⟩
    · exact absurd hx hst
    · exact hv.machine hold hx
  member {k x} hk hx := by
    rcases hosts_withHost hk with ⟨-, rfl⟩ | ⟨-, hold⟩
    · exact absurd hx hst
    · exact hv.member hold hx
  distinct {k k' x x'} hk hk' hc ha hne := by
    rcases hosts_withHost hk with ⟨-, rfl⟩ | ⟨-, hold⟩
    · exact absurd haddr hne
    rcases hosts_withHost hk' with ⟨-, rfl⟩ | ⟨-, hold'⟩
    · exact absurd (ha.trans haddr) hne
    · exact hv.distinct hold hold' hc ha hne
  bare k x hk hx := by
    rcases hosts_withHost hk with ⟨-, rfl⟩ | ⟨-, hold⟩
    · exact haddr
    · exact hv.bare _ _ hold hx

/-- A whole `bind`: the host, the machine at a new address, and the membership. -/
theorem bound {h : Host} {mc : Machine} {ms ms' : List String} (hv : v.Tidy)
    (hst : h.state = .ready) (haddr : h.addr ≠ "")
    (hfree : v.machines (ckey h.cluster h.addr) = none)
    (hmc : mc.cluster = h.cluster ∧ mc.talosEndpoint = h.addr ∧ mc.pool = h.pool)
    (hms : v.members (ckey h.cluster h.pool) = some ms) (hsub : ms ⊆ ms') (hin : h.addr ∈ ms') :
    (((v.withHost h).withMachine mc).withMembers h.cluster h.pool ms').Tidy := by
  obtain ⟨hmcc, hmce, hmcp⟩ := hmc
  have hkey : ckey mc.cluster mc.talosEndpoint = ckey h.cluster h.addr := by rw [hmcc, hmce]
  -- no other host has the address: its machine would be there
  have hother : ∀ {k x}, v.hosts k = some x → x.cluster = h.cluster → x.addr ≠ h.addr := by
    intro k x hk hc ha
    by_cases hx : x.state = .ready
    · obtain ⟨mc', hmc', -⟩ := hv.machine hk hx
      rw [hc, ha, hfree] at hmc'
      cases hmc'
    · exact haddr (ha.symm.trans (hv.bare _ _ hk hx))
  refine { machine := ?_, member := ?_, distinct := ?_, bare := ?_ }
  · intro k x hk hx
    show ∃ mc', Function.update v.machines (ckey mc.cluster mc.talosEndpoint) (some mc)
      (ckey x.cluster x.addr) = some mc' ∧ _
    rw [hkey]
    rcases hosts_withHost hk with ⟨-, rfl⟩ | ⟨-, hold⟩
    · exact ⟨mc, Function.update_self .., hmcp⟩
    · obtain ⟨mc', hmc', hp⟩ := hv.machine hold hx
      refine ⟨mc', ?_, hp⟩
      rw [Function.update_of_ne, hmc']
      intro heq
      rw [heq, hfree] at hmc'
      cases hmc'
  · intro k x hk hx
    show ∃ l, Function.update v.members (ckey h.cluster h.pool) (some ms')
      (ckey x.cluster x.pool) = some l ∧ _
    rcases hosts_withHost hk with ⟨-, rfl⟩ | ⟨-, hold⟩
    · exact ⟨ms', Function.update_self .., hin⟩
    · obtain ⟨l, hl, hmem⟩ := hv.member hold hx
      by_cases heq : ckey x.cluster x.pool = ckey h.cluster h.pool
      · rw [heq, hms] at hl
        cases hl
        exact ⟨ms', by rw [heq, Function.update_self], hsub hmem⟩
      · exact ⟨l, by rw [Function.update_of_ne heq, hl], hmem⟩
  · intro k k' x x' hk hk' hc ha hne
    rcases hosts_withHost hk with ⟨rfl, rfl⟩ | ⟨-, hold⟩
    · rcases hosts_withHost hk' with ⟨rfl, -⟩ | ⟨-, hold'⟩
      · rfl
      · exact absurd ha.symm (hother hold' hc.symm)
    · rcases hosts_withHost hk' with ⟨-, rfl⟩ | ⟨-, hold'⟩
      · exact absurd ha (hother hold hc)
      · exact hv.distinct hold hold' hc ha hne
  · intro k x hk hx
    rcases hosts_withHost hk with ⟨-, rfl⟩ | ⟨-, hold⟩
    · exact absurd hst hx
    · exact hv.bare _ _ hold hx

/-- The machine and the membership of an address go that no READY host has. -/
theorem dropped {cluster pool addr : String} {ms : List String} (hv : v.Tidy)
    (hplain : ∀ {k h}, v.hosts k = some h → PlainName h.cluster) (hcluster : PlainName cluster)
    (hunused : ∀ {k h}, v.hosts k = some h → h.state = .ready → h.cluster = cluster →
      h.addr ≠ addr)
    (hms : v.members (ckey cluster pool) = some ms) :
    ((v.withoutMachine cluster addr).withMembers cluster pool (ms.filter (· != addr))).Tidy := by
  refine { machine := ?_, member := ?_, distinct := hv.distinct, bare := hv.bare }
  · intro k x hk hx
    obtain ⟨mc, hmc, hp⟩ := hv.machine hk hx
    refine ⟨mc, ?_, hp⟩
    show Function.update v.machines (ckey cluster addr) none (ckey x.cluster x.addr) = some mc
    rw [Function.update_of_ne, hmc]
    intro heq
    obtain ⟨hc, ha⟩ := ckey_inj (hplain hk) hcluster heq
    exact hunused hk hx hc ha
  · intro k x hk hx
    obtain ⟨l, hl, hmem⟩ := hv.member hk hx
    show ∃ l, Function.update v.members (ckey cluster pool) (some (ms.filter (· != addr)))
      (ckey x.cluster x.pool) = some l ∧ _
    by_cases heq : ckey x.cluster x.pool = ckey cluster pool
    · obtain ⟨hc, -⟩ := ckey_inj (hplain hk) hcluster heq
      rw [heq, hms] at hl
      cases hl
      refine ⟨_, by rw [heq, Function.update_self], List.mem_filter.2 ⟨hmem, ?_⟩⟩
      simpa using hunused hk hx hc
    · exact ⟨l, by rw [Function.update_of_ne heq, hl], hmem⟩

end Tidy

end Inventory

open Inventory

namespace Bookkeeping

/-- The condition on a step. -/
structure Undisturbed (s : Store) (l : Act) : Prop where
  plain : s.Plain
  /-- No write of the executor fails once the books are out of order. -/
  unfailing : ∀ op rep, l = .act .executor ⟨.store op, rep⟩ → ¬s.inventory.Consistent →
    ∃ v, rep = .ok v
  /-- The process does not crash then. -/
  uncut : l = .crash → s.inventory.Consistent
  /-- Nobody else writes hosts, machines or members. -/
  alone : ∀ n e, l = .act (.client n) e → (Ev.after s e).inventory = s.inventory

/-! ## The contract of a pass -/

def passContract : Contract medeaSig Store where
  drift s s' := s'.inventory = s.inventory
  admits s e := s.Reachable ∧ Ev.Fits s e ∧ Undisturbed s (.act .executor e)
  allows s e := (Ev.after s e).inventory.Bare
  next s e := Ev.after s e
  drift_refl _ := rfl
  drift_trans h h' := h'.trans h

/-- The pool that the pass works on. -/
structure Opened (cluster pool : String) (v : Inventory) : Prop where
  tidy : v.Tidy
  plain : PlainName cluster
  named : pool ≠ ""
  recorded : ∃ ms, v.members (ckey cluster pool) = some ms

/-- The host is stored as it was listed. -/
structure Stored (cluster pool : String) (v : Inventory) (h : Host) : Prop where
  here : v.hosts (ckey cluster h.mac) = some h
  cluster : h.cluster = cluster
  pool : h.pool = pool

structure Listed (cluster pool : String) (hosts : List Host) (v : Inventory) : Prop
    extends Opened cluster pool v where
  stored : ∀ h ∈ hosts, Stored cluster pool v h
  apart : hosts.Pairwise fun h h' => h.mac ≠ h'.mac

/-- In the loop: the hosts still to come and those that were not in flight are stored as listed, and
the addresses of the machines of the cluster are claimed. -/
structure Working (R : Round) (todo : List Host) (count : HostCount) (v : Inventory) : Prop
    extends Listed R.cluster R.pool todo v where
  settled : ∀ h ∈ R.hosts, h.state ≠ .provisioning → Stored R.cluster R.pool v h
  claimed : ∀ {a mc}, v.machines (ckey R.cluster a) = some mc → a ∈ count.claimed

/-- What holds at the places of a pass. -/
def holds (p : Point) (s : Store) : Prop :=
  match p with
  | .rest => s.inventory.Tidy
  | .entered cluster => s.inventory.Tidy ∧ PlainName cluster
  | .opened cluster pool => Opened cluster pool s.inventory
  | .listed cluster pool hosts | .seen cluster pool hosts _ => Listed cluster pool hosts s.inventory
  | .advancing R todo count => Working R todo count s.inventory

theorem holds_tidy {p : Point} {s : Store} (h : holds p s) : s.inventory.Tidy := by
  cases p with
  | rest => exact h
  | entered => exact h.1
  | opened => exact Opened.tidy h
  | listed | seen => exact (Listed.toOpened h).tidy
  | advancing => exact (Working.toListed h).tidy

theorem holds_same {p : Point} {s s' : Store} (h : holds p s) (hs : s'.inventory = s.inventory) :
    holds p s' := by
  cases p <;> (simp only [holds, hs]; exact h)

/-- An event that leaves the inventory alone. -/
theorem holds_idle {p : Point} {s : Store} {e : Ev} (h : holds p s)
    (hs : (Ev.after s e).inventory = s.inventory) :
    passContract.allows s e ∧ holds p (passContract.next s e) := by
  refine ⟨?_, holds_same h hs⟩
  show (Ev.after s e).inventory.Bare
  rw [hs]
  exact (holds_tidy h).bare

theorem holds_quiet {p : Point} {s : Store} (h : holds p s) (op : Op) (rep : op.Reply)
    (hq : op.quiet = true) :
    passContract.allows s ⟨op, rep⟩ ∧ holds p (passContract.next s ⟨op, rep⟩) :=
  holds_idle h (inventory_of_db (db_after_quiet hq rep))

/-! ## Listings -/

section Listing

variable {s : Store} {cluster pool : String} {hosts : List Host}

theorem apart_of_listed (hs : s.Reachable) (hplain : s.Plain) (hcluster : PlainName cluster) :
    (s.listHosts cluster pool).Pairwise fun h h' => h.mac ≠ h'.mac := by
  refine (nodup_listHosts hs).imp_of_mem ?_
  intro h h' hm hm' hne hmac
  obtain ⟨⟨k, hk, hlead⟩, -⟩ := Store.mem_listHosts.1 hm
  obtain ⟨⟨k', hk', hlead'⟩, -⟩ := Store.mem_listHosts.1 hm'
  -- hosts of one cluster with one address of their card have one key
  have hkey : k = k' := by
    rw [← hs.host_key hk, ← hs.host_key hk', cluster_of_listed hs hplain hcluster hk hlead,
      cluster_of_listed hs hplain hcluster hk' hlead', hmac]
  rw [hkey, hk'] at hk
  exact hne (Option.some.inj hk).symm

theorem listed_of_listHosts (hs : s.Reachable) (hplain : s.Plain)
    (hfit : Ev.Fits s (ev (.store (.listHosts cluster pool)) (.ok hosts)))
    (hopen : Opened cluster pool s.inventory) : Listed cluster pool hosts s.inventory where
  toOpened := hopen
  stored h hh := by
    obtain ⟨⟨k, hk, hlead⟩, hp⟩ := (mem_of_listHosts hfit).1 hh
    have hc := cluster_of_listed hs hplain hopen.plain hk hlead
    refine ⟨?_, hc, hp.resolve_left hopen.named⟩
    rw [← hc, hs.host_key hk]
    exact hk
  apart := by
    have hread : s.listHosts cluster pool = hosts := Except.ok.inj (Ev.Fits.ok hfit)
    rw [← hread]
    exact apart_of_listed hs hplain hopen.plain

end Listing

/-! ## The pieces of a pass -/

section Pieces

variable {s : Store} {v v' : Inventory} {R : Round} {h : Host} {todo : List Host}
  {count count' : HostCount}

/-- The first host of the list was written; the others are as they were. -/
theorem Working.next (host : Host) (hw : Working R (h :: todo) count v) (hst : h.state = .provisioning)
    (hnames : host.cluster = R.cluster ∧ host.mac = h.mac)
    (hhosts : v'.hosts = (v.withHost host).hosts) (htidy : v'.Tidy)
    (hpool : ∃ ms, v'.members (ckey R.cluster R.pool) = some ms)
    (hclaimed : ∀ {a mc}, v'.machines (ckey R.cluster a) = some mc → a ∈ count'.claimed) :
    Working R todo count' v' := by
  have hfirst := hw.stored h List.mem_cons_self
  have hapart := List.pairwise_cons.1 hw.apart
  -- hosts under other keys
  have hkeep : ∀ {x : Host}, x.mac ≠ h.mac → Stored R.cluster R.pool v x →
      Stored R.cluster R.pool v' x := by
    intro x hne hx
    refine ⟨?_, hx.cluster, hx.pool⟩
    rw [hhosts, withHost, hnames.1, hnames.2]
    dsimp only
    rw [Function.update_of_ne fun heq => hne (ckey_right heq)]
    exact hx.here
  refine { tidy := htidy, plain := hw.plain, named := hw.named, recorded := hpool,
           stored := ?_, apart := hapart.2, settled := ?_, claimed := hclaimed }
  · intro x hx
    exact hkeep (hapart.1 x hx).symm (hw.stored x (List.mem_cons_of_mem _ hx))
  · intro x hx hne
    have hstored := hw.settled x hx hne
    refine hkeep ?_ hstored
    intro hmac
    have hsame := hstored.here
    rw [hmac, hfirst.here] at hsame
    cases hsame
    exact hne hst

/-- A skipped host. -/
theorem Working.skip (hw : Working R (h :: todo) count v)
    (hcount : count'.claimed = count.claimed) : Working R todo count' v :=
  { hw with
    stored := fun x hx => hw.stored x (List.mem_cons_of_mem _ hx)
    apart := (List.pairwise_cons.1 hw.apart).2
    claimed := fun hmc => by
      rw [hcount]
      exact hw.claimed hmc }

end Pieces

section Programs

variable {s : Store} {v : Inventory} {cluster pool : String} {E D : Inventory → Prop}

/-- No write fails once the books are out of order. -/
theorem ok_of_broken {op : StoreOp} {rep : (Op.store op).Reply}
    (hadm : passContract.admits s (ev (.store op) rep)) (h : ¬s.inventory.Consistent) :
    ∃ val, rep = .ok val := hadm.2.2.unfailing op rep rfl h

theorem bare_withHost {h : Host} (hv : v.Bare) (h' : h.state ≠ .ready → h.addr = "") :
    (v.withHost h).Bare := by
  intro k x hk hx
  rcases hosts_withHost hk with ⟨-, rfl⟩ | ⟨-, hold⟩
  · exact h' hx
  · exact hv k x hold hx

/-- A host that is known is read, changed and swapped in. -/
theorem editHost_keeps {mac : String} {h : Host} {edit : Host → Host} {P : Inventory → Prop}
    (hP : ∀ {v}, P v → v.Bare ∧ v.hosts (ckey cluster mac) = some h)
    (hbare : (edit h).state ≠ .ready → (edit h).addr = "")
    (hput : ∀ {s rev r}, P s.inventory →
      passContract.admits s (ev (.store (.putHostDesired (edit h) rev)) (.ok r)) →
      D (s.inventory.withHost { edit h with revision := s.db.revision + 1 }))
    (hfail : ∀ {s rev e}, P s.inventory →
      passContract.admits s (ev (.store (.putHostDesired (edit h) rev)) (.error e)) → E s.inventory)
    (hs : P s.inventory) :
    (editHost cluster mac edit).Keeps passContract
      (Ends (fun s => E s.inventory) fun _ s => D s.inventory) s := by
  intro s1 hd1 rep1 hadm1
  have h1 : P s1.inventory := hd1 ▸ hs
  have hread := inventory_read (s := s1) rfl rep1
  refine ⟨?_, ?_⟩
  · show (Ev.after s1 _).inventory.Bare
    rw [hread]
    exact (hP h1).1
  obtain ⟨⟨cur, rev⟩, rfl⟩ := ok_of_read rfl hadm1.2.1
  have hcur : cur = some h := by
    have hget : s1.getHost cluster mac = (cur, rev) := Except.ok.inj (Ev.Fits.ok hadm1.2.1)
    have hk : s1.db.hosts[ckey cluster mac]? = some h := (hP h1).2
    rw [Store.getHost, hk] at hget
    exact (Prod.mk.inj hget).1.symm
  subst hcur
  intro s2 hd2 rep2 hadm2
  have h2 : P s2.inventory := by
    rw [hd2]
    exact hread ▸ h1
  cases rep2 with
  | error e =>
    refine ⟨(hP h2).1, fun s3 hd3 => ?_⟩
    show E s3.inventory
    rw [hd3]
    exact hfail h2 hadm2
  | ok r =>
    have hwritten := inventory_putHost hadm2.2.1
    refine ⟨?_, fun s3 hd3 => ?_⟩
    · show (Ev.after s2 _).inventory.Bare
      rw [hwritten]
      exact bare_withHost (hP h2).1 hbare
    · show D s3.inventory
      rw [hd3]
      show D (Ev.after s2 _).inventory
      rw [hwritten]
      exact hput h2 hadm2

/-- A pool that is known is read, and changed unless there is nothing to change. -/
theorem editPool_keeps {ms : List String} {edit : NodePool → Option NodePool} (hbare : v.Bare)
    (hms : v.members (ckey cluster pool) = some ms)
    (hnone : ∀ np, np.members = ms → edit np = none → D v)
    (hsome : ∀ np np', np.members = ms → edit np = some np' → np'.cluster = np.cluster ∧
      np'.name = np.name ∧ ¬v.Consistent ∧ D (v.withMembers cluster pool np'.members))
    (hs : s.inventory = v) :
    (editPool cluster pool edit).Keeps passContract
      (Ends (fun s => E s.inventory) fun _ s => D s.inventory) s := by
  intro s1 hd1 rep1 hadm1
  have h1 : s1.inventory = v := hd1.trans hs
  have hread := (inventory_read (s := s1) rfl rep1).trans h1
  refine ⟨?_, ?_⟩
  · show (Ev.after s1 _).inventory.Bare
    rw [hread]
    exact hbare
  obtain ⟨⟨cur, rev⟩, rfl⟩ := ok_of_read rfl hadm1.2.1
  -- the pool is there, with the members that are known
  have hmembers : s1.db.nodePools[ckey cluster pool]?.map (·.members) = some ms := by
    rw [← h1] at hms
    exact hms
  obtain ⟨np, hnp, hnpm⟩ := Option.map_eq_some_iff.1 hmembers
  have hcur : cur = some np := by
    have hget : s1.getNodePool cluster pool = (cur, rev) := Except.ok.inj (Ev.Fits.ok hadm1.2.1)
    rw [Store.getNodePool, hnp] at hget
    exact (Prod.mk.inj hget).1.symm
  subst hcur
  have hkey := hadm1.1.nodePool_key hnp
  dsimp only [Program.bind]
  cases hedit : edit np with
  | none =>
    intro s2 hd2
    show D s2.inventory
    rw [hd2.trans hread]
    exact hnone np hnpm hedit
  | some np' =>
    obtain ⟨hc, hn, hbroken, hdone⟩ := hsome np np' hnpm hedit
    intro s2 hd2 rep2 hadm2
    have h2 : s2.inventory = v := hd2.trans hread
    obtain ⟨r, rfl⟩ := ok_of_broken hadm2 (h2 ▸ hbroken)
    have hwritten := inventory_putNodePool hadm2.2.1
    rw [h2, withMembers, hc, hn, hkey] at hwritten
    refine ⟨?_, fun s3 hd3 => ?_⟩
    · show (Ev.after s2 _).inventory.Bare
      rw [hwritten]
      exact hbare
    · show D s3.inventory
      rw [hd3]
      show D (Ev.after s2 _).inventory
      rw [hwritten]
      exact hdone

end Programs

section Pieces

variable {s : Store} {v : Inventory} {R : Round} {h : Host} {todo : List Host} {count : HostCount}

/-- A host in flight has no address. -/
theorem Working.bare_first (hw : Working R (h :: todo) count v) (hst : h.state = .provisioning) :
    h.addr = "" := by
  refine hw.tidy.bare _ h (hw.stored h List.mem_cons_self).here ?_
  rw [hst]
  simp

theorem fail_keeps (hw : Working R (h :: todo) count s.inventory) (hst : h.state = .provisioning) :
    (setHostState R.cluster h.mac .failed
        "provision timed out: node did not join").Keeps passContract
      (Ends (holds .rest) fun _ =>
        holds (.advancing R todo { count with failed := count.failed + 1 })) s := by
  refine editHost_keeps (P := Working R (h :: todo) count) (h := h) (E := Inventory.Tidy)
    (D := Working R todo { count with failed := count.failed + 1 }) ?_ ?_ ?_ ?_ hw
  · exact fun hw => ⟨hw.tidy.bare, (hw.stored h List.mem_cons_self).here⟩
  · intro _
    exact hw.bare_first hst
  · intro s rev r hw _
    have hfirst := hw.stored h List.mem_cons_self
    exact hw.next
      { h with
        state := .failed, message := "provision timed out: node did not join"
        revision := s.db.revision + 1 }
      hst ⟨hfirst.cluster, rfl⟩ rfl (hw.tidy.withBare (hw.bare_first hst) (by simp)) hw.recorded
      hw.claimed
  · exact fun hw _ => hw.tidy

/-- The address of a node that has just joined has no machine. -/
theorem Working.free {n : NodeInfo} (hw : Working R todo count v)
    (hn : newJoinedNode R.nodes count.claimed R.np.role = some n) :
    v.machines (ckey R.cluster n.internalIP) = none := by
  cases hmc : v.machines (ckey R.cluster n.internalIP) with
  | none => rfl
  | some mc => exact absurd (hw.claimed hmc) (newJoinedNode_some hn).2.2

/-- The host as `bind` writes it. -/
structure Bound (R : Round) (h : Host) (n : NodeInfo) (host : Host) : Prop where
  cluster : host.cluster = R.cluster
  mac : host.mac = h.mac
  pool : host.pool = R.pool
  addr : host.addr = n.internalIP
  ready : host.state = .ready

section Binding

variable {n : NodeInfo} {host : Host} {mc : Machine} {ms ms' : List String}

/-- The books are out of order while a bound host has no machine. -/
theorem Bound.broken (hhost : Bound R h n host)
    (hfree : v.machines (ckey R.cluster n.internalIP) = none) : ¬(v.withHost host).Consistent := by
  intro hc
  have hself : (v.withHost host).hosts (ckey host.cluster host.mac) = some host :=
    Function.update_self ..
  obtain ⟨mc, hmc, -⟩ := hc.machine hself hhost.ready
  rw [hhost.cluster, hhost.addr] at hmc
  have hnone : (none : Option Machine) = some mc := hfree.symm.trans hmc
  cases hnone

/-- The books are out of order while the address of a bound host is no member. -/
theorem Bound.broken_members (hhost : Bound R h n host)
    (hms : v.members (ckey R.cluster R.pool) = some ms) (hout : n.internalIP ∉ ms) :
    ¬((v.withHost host).withMachine mc).Consistent := by
  intro hc
  have hself : (v.withHost host).hosts (ckey host.cluster host.mac) = some host :=
    Function.update_self ..
  obtain ⟨l, hl, hin⟩ := hc.member hself hhost.ready
  rw [hhost.cluster, hhost.pool] at hl
  rw [hhost.addr] at hin
  have hsame : some ms = some l := hms.symm.trans hl
  cases hsame
  exact hout hin

/-- The host, the machine and the membership together. -/
theorem Working.bound (hw : Working R (h :: todo) count v) (hst : h.state = .provisioning)
    (hn : newJoinedNode R.nodes count.claimed R.np.role = some n) (hhost : Bound R h n host)
    (hmc : mc.cluster = R.cluster ∧ mc.talosEndpoint = n.internalIP ∧ mc.pool = R.pool)
    (hms : v.members (ckey R.cluster R.pool) = some ms) (hsub : ms ⊆ ms')
    (hin : n.internalIP ∈ ms') :
    Working R todo (count.bound n)
      (((v.withHost host).withMachine mc).withMembers R.cluster R.pool ms') := by
  have hfree := hw.free hn
  refine hw.next host hst ⟨hhost.cluster, hhost.mac⟩ rfl ?_ ⟨ms', Function.update_self ..⟩ ?_
  · obtain ⟨hmcc, hmce, hmcp⟩ := hmc
    rw [← hhost.cluster, ← hhost.pool]
    refine hw.tidy.bound hhost.ready ?_ ?_ ?_ ?_ hsub (hhost.addr ▸ hin)
    · rw [hhost.addr]
      exact (newJoinedNode_some hn).2.1
    · rw [hhost.cluster, hhost.addr]
      exact hfree
    · rw [hhost.cluster, hhost.addr, hhost.pool]
      exact ⟨hmcc, hmce, hmcp⟩
    · rw [hhost.cluster, hhost.pool]
      exact hms
  · intro a mc' hmc'
    by_cases ha : a = n.internalIP
    · rw [ha]
      exact List.mem_cons_self
    · have hne : ckey R.cluster a ≠ ckey mc.cluster mc.talosEndpoint := by
        rw [hmc.1, hmc.2.1]
        exact fun heq => ha (ckey_right heq)
      have hold : v.machines (ckey R.cluster a) = some mc' :=
        (Function.update_of_ne hne ..).symm.trans hmc'
      exact List.mem_cons_of_mem _ (hw.claimed hold)

theorem addMember_keeps (hw : Working R (h :: todo) count v) (hst : h.state = .provisioning)
    (hn : newJoinedNode R.nodes count.claimed R.np.role = some n) (hhost : Bound R h n host)
    (hmc : mc.cluster = R.cluster ∧ mc.talosEndpoint = n.internalIP ∧ mc.pool = R.pool)
    (hs : s.inventory = (v.withHost host).withMachine mc) :
    (addMember R.cluster R.pool n.internalIP).Keeps passContract
      (Ends (holds .rest) fun _ => holds (.advancing R todo (count.bound n))) s := by
  obtain ⟨ms, hms⟩ := hw.recorded
  have hbare : (v.withHost host).Bare :=
    bare_withHost hw.tidy.bare fun hne => absurd hhost.ready hne
  refine editPool_keeps (v := (v.withHost host).withMachine mc) (E := Inventory.Tidy)
    (D := Working R todo (count.bound n)) hbare hms ?_ ?_ hs
  · intro np hnp hedit
    -- the address is a member already
    split_ifs at hedit with hmem
    have hin : n.internalIP ∈ ms := by
      rw [← hnp]
      simpa using hmem
    have hdone := hw.bound hst hn hhost hmc hms (List.Subset.refl ms) hin
    rw [withMembers_same (v := (v.withHost host).withMachine mc) hms] at hdone
    exact hdone
  · intro np np' hnp hedit
    split_ifs at hedit with hmem
    cases hedit
    have hout : n.internalIP ∉ ms := by
      rw [← hnp]
      simpa using hmem
    refine ⟨rfl, rfl, hhost.broken_members hms hout, hw.bound hst hn hhost hmc hms ?_ ?_⟩
    · intro x hx
      rw [← hnp] at hx
      simp [sortStrings, hx]
    · simp [sortStrings]

theorem bind_keeps (hw : Working R (h :: todo) count s.inventory) (hst : h.state = .provisioning)
    (hn : newJoinedNode R.nodes count.claimed R.np.role = some n) :
    (ProvisionReconciler.bind R.cluster R.pool h.mac n R.np.role).Keeps passContract
      (Ends (holds .rest) fun _ => holds (.advancing R todo (count.bound n))) s := by
  have hedit : (editHost R.cluster h.mac fun h =>
      { h with addr := n.internalIP, state := .ready, message := "" }).Keeps passContract
      (Ends (fun s => s.inventory.Tidy) fun _ s => ∃ v host,
        Working R (h :: todo) count v ∧ Bound R h n host ∧ s.inventory = v.withHost host) s := by
    refine editHost_keeps (P := Working R (h :: todo) count) (h := h) (E := Inventory.Tidy)
      (D := fun w => ∃ v host, Working R (h :: todo) count v ∧ Bound R h n host ∧
        w = v.withHost host) ?_ ?_ ?_ ?_ hw
    · exact fun hw => ⟨hw.tidy.bare, (hw.stored h List.mem_cons_self).here⟩
    · exact fun hne => absurd rfl hne
    · intro s rev r hw _
      have hfirst := hw.stored h List.mem_cons_self
      refine ⟨s.inventory, _, hw, ?_, rfl⟩
      exact ⟨hfirst.cluster, rfl, hfirst.pool, rfl, rfl⟩
    · exact fun hw _ => hw.tidy
  rw [ProvisionReconciler.bind]
  refine hedit.bind ?_
  rintro (e | u) s' hs'
  · exact fun _ hd => holds_same (p := .rest) hs' hd
  obtain ⟨v, host, hw, hhost, hinv⟩ := hs'
  have hbare : (v.withHost host).Bare :=
    bare_withHost hw.tidy.bare fun hne => absurd hhost.ready hne
  -- there is no machine yet, so a new record is written
  intro s1 hd1 rep1 hadm1
  have h1 : s1.inventory = v.withHost host := hd1.trans hinv
  have hread := (inventory_read (s := s1) rfl rep1).trans h1
  refine ⟨?_, ?_⟩
  · show (Ev.after s1 _).inventory.Bare
    rw [hread]
    exact hbare
  obtain ⟨⟨cur, mrev⟩, rfl⟩ := ok_of_read rfl hadm1.2.1
  have hcur : cur = none := by
    have hk : s1.db.machines[ckey R.cluster n.internalIP]? = none :=
      (congrFun (congrArg machines h1) _).trans (hw.free hn)
    rw [fits_getMachine hadm1.2.1, hk]
    rfl
  subst hcur
  intro s2 hd2 rep2 hadm2
  have h2 : s2.inventory = v.withHost host := hd2.trans hread
  obtain ⟨r, rfl⟩ := ok_of_broken hadm2 (h2 ▸ hhost.broken (hw.free hn))
  have hwritten := inventory_putMachine hadm2.2.1
  rw [h2] at hwritten
  refine ⟨?_, ?_⟩
  · show (Ev.after s2 _).inventory.Bare
    rw [hwritten]
    exact hbare
  · exact addMember_keeps hw hst hn hhost ⟨rfl, rfl, rfl⟩ hwritten

end Binding

/-- A host that is not READY is put in flight. -/
theorem publish_keeps {host : Host} (r : ProvisionReconciler) (schematic version : String)
    (cfg : Bytes) (hw : Working R [] count s.inventory) (hname : R.cl.name = R.cluster)
    (hpick : pickAvailable R.hosts R.np.selector = some host) :
    (r.publish R.cl host schematic version cfg).Keeps passContract (fun _ => holds .rest) s := by
  obtain ⟨hmem, hreg⟩ := pickAvailable_some hpick
  intro s0 hd0 rep hadm
  obtain ⟨hall, hnext⟩ := holds_idle (p := .advancing R [] count) (e := ⟨_, rep⟩)
    (holds_same (p := .advancing R [] count) hw hd0) rfl
  refine ⟨hall, ?_⟩
  rcases rep with e | ⟨⟩
  · exact fun _ hd => holds_same (p := .rest) (holds_tidy hnext) hd
  rw [hname]
  refine (startProvisioning_keeps (A := holds (.advancing R [] count))
    (B := fun x _ s => holds (.advancing R [] count) s ∧ x = host) (E := holds .rest)
    (D := holds .rest) holds_same (fun hb hd => ⟨holds_same hb.1 hd, hb.2⟩) holds_same holds_same
    ?_ ?_ ?_ hnext).mono ?_
  · intro s rep ha hadm
    obtain ⟨hall, hnext⟩ := holds_quiet ha (.store (.getHost R.cluster host.mac)) rep rfl
    refine ⟨hall, ?_⟩
    rcases rep with e | ⟨_ | x, rev⟩
    · exact holds_tidy hnext
    · exact holds_tidy hnext
    · refine ⟨hnext, ?_⟩
      have hstored := (ha.settled host hmem (by rw [hreg]; simp)).here
      have hread : s.inventory.hosts (ckey R.cluster host.mac) = some x := (fits_getHost hadm.2.1).1
      rw [hread] at hstored
      exact Option.some.inj hstored
  · intro s x rev t hb hadm
    obtain ⟨hall, hnext⟩ := holds_quiet hb.1 .now t rfl
    exact ⟨hall, hnext, hb.2⟩
  · intro s x x' rev rep hb hput hadm
    obtain ⟨ha, rfl⟩ := hb
    cases rep with
    | error e => exact holds_idle (p := .rest) (holds_tidy ha) rfl
    | ok rev' =>
      have hstored := (ha.settled x hmem (by rw [hreg]; simp)).here
      have haddr : x.addr = "" := ha.tidy.bare _ _ hstored (by rw [hreg]; simp)
      have htidy : (Ev.after s (ev (.store (.putHostDesired x' rev)) (.ok rev'))).inventory.Tidy := by
        rw [inventory_putHost hadm.2.1]
        obtain ⟨msg, started, rfl⟩ := hput
        exact ha.tidy.withBare haddr (by simp)
      exact ⟨htidy.bare, htidy⟩
  · rintro (e | ⟨⟩) s' hs'
    · exact hs'
    · exact hs'

/-- The last write of a release: the host has no address any more. -/
theorem releaseHost_keeps {x : Host} (hP : v.Bare ∧ v.hosts (ckey R.cluster x.mac) = some x)
    (hput : ∀ {s : Store} {host : Host}, s.Plain → s.inventory = v → host.cluster = x.cluster →
      host.mac = x.mac → host.addr = "" → host.state ≠ .ready → (v.withHost host).Tidy)
    (hfail : ¬v.Consistent ∨ v.Tidy) (hs : s.inventory = v) :
    (releaseHost R.cluster x.mac).Keeps passContract
      (fun _ => holds .rest) s := by
  refine (editHost_keeps (P := fun w => w = v) (h := x) (E := Inventory.Tidy)
    (D := Inventory.Tidy) ?_ ?_ ?_ ?_ hs).mono ?_
  · rintro w rfl
    exact hP
  · exact fun _ => rfl
  · rintro s rev r rfl hadm
    exact hput hadm.2.2.plain rfl rfl rfl rfl (by simp)
  · rintro s rev e rfl hadm
    rcases hfail with hbroken | htidy
    · obtain ⟨_, hok⟩ := ok_of_broken hadm hbroken
      cases hok
    · exact htidy
  · rintro (e | ⟨⟩) s' hs'
    · exact hs'
    · exact hs'

theorem unstage_keeps {x : Host} (hw : Working R [] count s.inventory)
    (hvictim : victimOf R.hosts = some x) :
    (unstage R.cluster R.pool x).Keeps passContract (fun _ => holds .rest) s := by
  obtain ⟨hmem, hready, -⟩ := victimOf_some hvictim
  intro s0 hd0 rep hadm
  obtain ⟨hall, hnext⟩ := holds_idle (p := .advancing R [] count) (e := ⟨_, rep⟩)
    (holds_same (p := .advancing R [] count) hw hd0) rfl
  refine ⟨hall, ?_⟩
  rcases rep with e | ⟨⟩
  · exact fun _ hd => holds_same (p := .rest) (holds_tidy hnext) hd
  clear hadm hall hd0
  show (forget R.cluster R.pool x.addr x.mac).Keeps _ _ _
  -- from here on the inventory is known
  generalize hv : (passContract.next s0 _).inventory = v
  have hw : Working R [] count v := hv ▸ hnext
  have hstored := hw.settled x hmem (by rw [hready]; simp)
  rw [forget]
  split_ifs with haddr
  · intro s1 hd1 rep1 hadm1
    have h1 : s1.inventory = v := hd1.trans hv
    rcases rep1 with e | u
    · refine ⟨?_, fun _ hd => ?_⟩
      · show (Ev.after s1 _).inventory.Bare
        exact h1 ▸ hw.tidy.bare
      · exact holds_same (p := .rest) (s := s1) (show s1.inventory.Tidy from h1 ▸ hw.tidy) hd
    have hdeleted := inventory_deleteMachine hadm1.2.1
    rw [h1] at hdeleted
    refine ⟨?_, ?_⟩
    · show (Ev.after s1 _).inventory.Bare
      rw [hdeleted]
      exact hw.tidy.bare
    obtain ⟨ms, hms⟩ := hw.recorded
    -- the READY host has no machine until it is released
    have hbroken : ∀ w : Inventory, w.hosts = v.hosts →
        w.machines = (v.withoutMachine R.cluster x.addr).machines → ¬w.Consistent := by
      intro w hh hm hc
      obtain ⟨mc, hmc, -⟩ := hc.machine (hh ▸ hstored.here) hready
      rw [hm, hstored.cluster] at hmc
      exact absurd ((Function.update_self ..).symm.trans hmc) (by simp)
    have hremoved : (removeMember R.cluster R.pool x.addr).Keeps passContract
        (Ends (fun _ => False) fun _ s => s.inventory =
          (v.withoutMachine R.cluster x.addr).withMembers R.cluster R.pool
            (ms.filter (· != x.addr)))
        (Ev.after s1 (ev (.store (.deleteMachine R.cluster x.addr)) (.ok u))) := by
      refine editPool_keeps (v := v.withoutMachine R.cluster x.addr) (E := fun _ => False)
        (D := fun w => w = (v.withoutMachine R.cluster x.addr).withMembers R.cluster R.pool
          (ms.filter (· != x.addr))) hw.tidy.bare hms ?_ ?_ hdeleted
      · intro np _ hedit
        cases hedit
      · intro np np' hnp hedit
        cases hedit
        exact ⟨rfl, rfl, hbroken _ rfl rfl, by rw [hnp]⟩
    refine hremoved.bind ?_
    rintro (e | ⟨⟩) s2 hs2
    · exact absurd hs2 id
    refine releaseHost_keeps (v := (v.withoutMachine R.cluster x.addr).withMembers R.cluster R.pool _)
      ⟨hw.tidy.bare, hstored.here⟩ ?_ (Or.inl (hbroken _ rfl rfl)) hs2
    intro s3 host hplain hs3 hc hmac hbare hst
    have htidy : (v.withHost host).Tidy := hw.tidy.withBare hbare hst
    refine htidy.dropped ?_ hw.plain ?_ hms
    · intro k y hk
      rcases hosts_withHost hk with ⟨-, rfl⟩ | ⟨-, hold⟩
      · rw [hc, hstored.cluster]
        exact hw.plain
      · refine hplain.hosts (k := k) ?_
        exact (congrFun (congrArg hosts hs3) k).trans hold
    · intro k y hk hy hyc hya
      rcases hosts_withHost hk with ⟨-, rfl⟩ | ⟨hne, hold⟩
      · exact hst hy
      · refine hne ?_
        rw [hc, hmac, hstored.cluster]
        exact hw.tidy.distinct hold hstored.here (hyc.trans hstored.cluster.symm) hya
          (hya ▸ haddr)
  · refine releaseHost_keeps ⟨hw.tidy.bare, hstored.here⟩ ?_ (Or.inr hw.tidy) hv
    intro s1 host _ _ _ _ hbare hst
    exact hw.tidy.withBare hbare hst

end Pieces

/-- The outline of a pass. -/
def outline : Outline passContract where
  holds := holds
  drift := holds_same
  quiet {p s op r} h hq _ := holds_quiet h op r hq
  rests h := holds_tidy h
  enters {s c cl rev} h hadm := by
    obtain ⟨cl₀, hk, hname⟩ := fits_getCluster hadm.2.1
    have hkey := hadm.1.cluster_key hk
    refine ⟨hname.trans hkey, holds_same (p := .rest) h (inventory_read rfl _), ?_⟩
    rw [← hkey]
    exact hadm.2.2.plain.clusters hk
  opens {s c p np rev} h hadm := by
    have hk := fits_getNodePool hadm.2.1
    have hsame := inventory_read (s := s) rfl
      (show (Op.store (.getNodePool c p)).Reply from .ok (some np, rev))
    obtain ⟨-, hname⟩ := ckey_inj (hadm.2.2.plain.nodePools hk) h.2 (hadm.1.nodePool_key hk)
    show Opened c p (Ev.after s _).inventory
    rw [hsame]
    refine ⟨h.1, h.2, hname ▸ (hadm.1.named (DB.entry_of_nodePool hk)).2, np.members, ?_⟩
    show s.db.nodePools[ckey c p]?.map _ = _
    rw [hk]
    rfl
  listHosts {s c p rep} h hadm := by
    have hsame := inventory_read (s := s) rfl rep
    obtain ⟨hall, hnext⟩ := holds_idle (p := .opened c p) h hsame
    refine ⟨hall, ?_⟩
    cases rep with
    | error e => exact holds_tidy hnext
    | ok hosts =>
      exact holds_same (p := .listed c p hosts)
        (listed_of_listHosts hadm.1 hadm.2.2.plain hadm.2.1 h) hsame
  listNodes h _ _ := h
  listMachines {s R ms} h hadm := by
    refine holds_same (p := .advancing R R.hosts _) (s := s) ?_ (inventory_read rfl _)
    exact { h with
      settled := fun x hx _ => h.stored x hx
      claimed := fun hmc => List.mem_append_left _
        (endpoint_of_key hadm.1 hadm.2.2.plain h.plain hadm.2.1 hmc) }
  skip {s R h todo count} hw _ := by
    refine Working.skip hw ?_
    rw [HostCount.passed]
    split <;> rfl
  park hw _ := Working.skip hw rfl
  bind hw hst hn := bind_keeps hw hst hn
  fail hw hst := fail_keeps hw hst
  release hw _ hvictim := unstage_keeps hw hvictim
  publish r schematic version cfg hw _ hname hpick :=
    publish_keeps r schematic version cfg hw hname hpick

/-! ## Runs -/

/-- The executor and clients that leave its records alone. -/
def oversight : Oversight Store where
  pass := passContract
  outline := outline
  store s := s
  next := Act.after
  assumes := Undisturbed
  Inv s := s.inventory.Bare
  next_start := rfl
  next_pass := rfl
  store_next := rfl
  admits hund hs hfit := ⟨hs, hfit, hund⟩
  allowed hall := hall
  client {s n e} hund hbare := by
    have hsame := hund.alone n e rfl
    refine ⟨?_, hsame⟩
    show (Ev.after s e).inventory.Bare
    rw [hsame]
    exact hbare
  crash hund hbare := ⟨hbare, hund.uncut rfl, hbare⟩

end Bookkeeping

open Bookkeeping

/-- The books of the provisioner are in order between its passes. Start from any inventory in order in
which only READY hosts carry an address, and let passes, API calls, edits, failures and crashes come in
any order. If no write of the executor fails and nothing crashes while the books are out of order, and
nobody else writes hosts, machines or members, then whenever the executor has finished a pass every READY
host has its machine and its membership, and no two hosts of a cluster share an address. -/
theorem books_in_order (cfg : Settings) {s : Store} (hs : s.Reachable) (htidy : s.inventory.Tidy)
    {ls : List Act} {c : Scene} (hr : (provisioningPlane cfg).Runs (Scene.idle s) ls c)
    (hund : Along Act.after Bookkeeping.Undisturbed s ls) (hidle : c.proc .executor = .done ()) :
    c.world.store.inventory.Consistent := by
  obtain ⟨hstore, hend⟩ := oversight.runs_inv hr hs htidy.bare htidy hund
  have htidy : (ls.foldl Act.after s).inventory.Tidy := hend hidle
  rw [hstore]
  exact htidy.toConsistent

namespace Bookkeeping

/-- Nothing is written by clients, nothing fails and nothing crashes. -/
def undisturbed : Act → Bool
  | .act .executor ⟨.store _, .error _⟩ => false
  | .act .executor _ => true
  | .start _ _ => true
  | _ => false

/-- A condition that is met by such runs and can be computed. -/
def Calm (s : Store) (l : Act) : Prop :=
  undisturbed l = true ∧ s.PlainRecords

instance (s : Store) (l : Act) : Decidable (Calm s l) := inferInstanceAs (Decidable (_ ∧ _))

theorem Calm.undisturbed {s : Store} {l : Act} (h : Calm s l) : Undisturbed s l := by
  obtain ⟨hl, hplain⟩ := h
  refine ⟨hplain.plain, ?_, ?_, ?_⟩
  · rintro op (e | v) rfl -
    · cases hl
    · exact ⟨v, rfl⟩
  · rintro rfl
    cases hl
  · rintro n e rfl
    cases hl

/-- Hosts that were only registered leave nothing to keep books about. -/
theorem tidy_of_registered {s : Store}
    (h : ∀ kv ∈ s.db.hosts.toList, kv.2.state = .registered ∧ kv.2.addr = "") :
    s.inventory.Tidy := by
  have hall := fun k host => Store.forall_hosts (P := fun x => x.state = .registered ∧ x.addr = "")
    h k host
  refine { machine := ?_, member := ?_, distinct := ?_, bare := ?_ }
  · intro k host hk hst
    rw [(hall k host hk).1] at hst
    cases hst
  · intro k host hk hst
    rw [(hall k host hk).1] at hst
    cases hst
  · intro k k' host host' hk _ _ _ hne
    exact absurd (hall k host hk).2 hne
  · exact fun k host hk _ => (hall k host hk).2

/-- A worker that has joined. -/
def worker : NodeInfo := ⟨"n2", "10.0.0.2", "worker", "v1.30.0", true⟩

/-- A host of each pool is staged, and a pass binds the node that has joined. -/
def bound : List (Cue Actor Activity Oracle) := Scene.pass 40 [] ++ Scene.pass 60 [worker]

end Bookkeeping

theorem bound_in_order :
    ((Scene.player Script.settings).play Bookkeeping.bound
        (Scene.idle (storeAfter Scene.twoPools))).2.world.store.inventory.Consistent ∧
      (((Scene.player Script.settings).play Bookkeeping.bound
        (Scene.idle (storeAfter Scene.twoPools))).2.world.store.db.hosts[ckey "c" "a"]?.map
          fun h => (h.state, h.addr)) = some (.ready, "10.0.0.2") := by
  refine ⟨?_, by decide +kernel⟩
  refine books_in_order Script.settings Scene.twoPools_reachable
    (tidy_of_registered (by decide +kernel)) (Player.play_runs _ _ _) ?_ ?_
  · have hcalm : Along Act.after Bookkeeping.Calm (storeAfter Scene.twoPools)
        ((Scene.player Script.settings).play bound
          (Scene.idle (storeAfter Scene.twoPools))).1 := by decide +kernel
    exact hcalm.mono fun _ _ h => h.undisturbed
  · rfl

namespace Bookkeeping

/-- A crash falls between the first and the second write of a `bind`. -/
def cut : List (Cue Actor Activity Oracle) :=
  Scene.pass 40 [] ++ Scene.pass 10 [worker] ++ [.crash]

end Bookkeeping

/-- From books in order a run leads to a pass over every pool that meets no error and ends with books
out of order: the host that was bound when the process crashed has no machine in its pool, and the pass
has bound another host to the same address. -/
theorem bind_cut_short : ∃ s ls ls' c c', Store.Reachable s ∧ s.inventory.Tidy ∧
    (provisioningPlane Script.settings).Runs (Scene.idle s) ls c ∧
    (provisioningPlane Script.settings).Runs c ls' c' ∧
    ls'.head? = some (.start .executor .pass) ∧ ls'.all Bookkeeping.undisturbed = true ∧
    c'.proc .executor = .done () ∧ ¬c'.world.store.inventory.Consistent := by
  refine ⟨storeAfter Scene.twoPools, _, _, _, _, Scene.twoPools_reachable,
    tidy_of_registered (by decide +kernel),
    (Scene.player Script.settings).play_runs cut _,
    (Scene.player Script.settings).play_runs (Scene.pass 60 [worker]) _,
    rfl, by decide +kernel, rfl, ?_⟩
  intro h
  have hsame : ckey "c" "a" = ckey "c" "b" := h.distinct rfl rfl rfl rfl (by decide +kernel)
  exact absurd hsame (by decide)

end Medea
