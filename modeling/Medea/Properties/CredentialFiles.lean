import Medea.Server.FileStore

/-!
# Credentials of one cluster are safe from calls for another

The names of clusters are joined into paths, and a path may lead anywhere. `isolated_iff_apart` says for which
two names the calls for the one never change what is read for the other, and touch nothing outside the
directory of the store. `apart_of_plain`: for names that are plain path components that is always so.
-/

set_option autoImplicit false

namespace Medea

open Medea.Interaction Medea.Files

def CredsOp.cluster : CredsOp → String
  | .talosConfig c | .kubeConfig c | .secrets c | .put c _ _ | .putSecrets c _ | .delete c => c

namespace FileStore

variable {f : FileStore} {cwd : Place} {c d : String}

/-- Only calls for one cluster. -/
def Only (c : String) : Files.Tree Bytes → Label (fileSig Bytes) Nat CredsOp → Files.Tree Bytes → Prop
  | _, .start _ op, _ => op.cluster = c
  | _, _, _ => True

/-- Whatever calls for `c` are made, by whomever, interrupted or not: what is read for `d` stays the
same, and so does everything outside the directory of the store. -/
def Isolated (f : FileStore) (cwd : Place) (c d : String) : Prop :=
  ∀ (t : Files.Tree Bytes) (ls : List (Label (fileSig Bytes) Nat CredsOp))
    (e : Config (fileSig Bytes) (Files.Tree Bytes) Nat),
    t.node (f.home cwd) = some .dir →
    (f.system cwd).RunsWith (Only c) (Config.idle (fileSig Bytes) Nat t) ls e →
    (∀ name ∈ files, f.returns cwd e.world d name = f.returns cwd t d name) ∧
      ∀ q, ¬f.home cwd <+: q → e.world.node q = t.node q

/-- What the calls for a cluster write or remove: its directory, or the files in it where the directory
itself cannot be removed. -/
def reach (f : FileStore) (cwd : Place) (c : String) : List Place :=
  if endsWithDot (f.folder c) then files.map fun name => f.place cwd c ++ [name] else [f.place cwd c]

/-- The files of one cluster are in the store, and out of the way of those of another. -/
structure Apart (f : FileStore) (cwd : Place) (c d : String) : Prop where
  /-- A directory that cannot be made has those above it made. -/
  inside : f.home cwd <+: f.place cwd c ∨
    (¬Legal (f.place cwd c) ∧ legalPart (f.place cwd c) <+: f.home cwd)
  /-- What is written or removed for the one is no file of the other, nor above one. -/
  away : Legal (f.place cwd d) → ∀ r ∈ f.reach cwd c, ∀ name ∈ files, ¬r <+: f.place cwd d ++ [name]
  /-- Making the directory of the one does not make a directory of a file of the other. -/
  clear : ∀ name ∈ files, f.place cwd d ++ [name] <+: legalPart (f.place cwd c) →
    f.place cwd d ++ [name] <+: f.home cwd

theorem isPrefix_of_mem_reach {r : Place} (h : r ∈ f.reach cwd c) : f.place cwd c <+: r := by
  unfold reach at h
  split at h
  · obtain ⟨name, -, rfl⟩ := List.mem_map.1 h
    exact List.prefix_append ..
  · rw [List.mem_singleton.1 h]

/-- Plain names are apart. -/
theorem apart_of_plain (hc : Plain c) (hd : Plain d) (hne : c ≠ d) : f.Apart cwd c d := by
  have hplaces : f.place cwd c = f.home cwd ++ [c] ∧ f.place cwd d = f.home cwd ++ [d] :=
    ⟨walk_plain hc, walk_plain hd⟩
  constructor
  · rw [hplaces.1]
    exact Or.inl (List.prefix_append ..)
  · intro _ r hr name _ h
    have hpre := (isPrefix_of_mem_reach hr).trans h
    rw [hplaces.1, hplaces.2, List.append_assoc, List.prefix_append_right_inj] at hpre
    simp [hne] at hpre
  · intro name _ h
    have hlen := (h.trans (legalPart_isPrefix _)).length_le
    rw [hplaces.1, hplaces.2] at hlen
    simp at hlen

/-! ## Calls leave the other cluster alone -/

/-- What a call for the cluster asks of the file system. -/
def Touches (f : FileStore) (c : String) : FileOp Bytes → Prop
  | .mkdirAll path => path = f.folder c
  | .writeFile path _ => ∃ name ∈ files, path = joinPath (f.folder c) name
  | .removeAll path => path = f.folder c
  | .readFile _ => True

abbrev Asks {α : Type} (f : FileStore) (c : String) (p : FileProg α) : Prop :=
  p.Within (fun _ => True) (f.Touches c) fun _ => True

theorem mkdir_asks {α : Type} {k : Except String Unit → FileProg α} (hk : ∀ rep, f.Asks c (k rep)) :
    f.Asks c (Program.perform (S := fileSig Bytes) (.mkdirAll (f.folder c)) >>= k) :=
  ⟨rfl, fun rep _ => hk rep⟩

theorem write_asks {name : String} (hname : name ∈ files) (data : Bytes) :
    f.Asks c (writeSecret (joinPath (f.folder c) name) data) :=
  ⟨⟨name, hname, rfl⟩, fun _ _ => trivial⟩

/-- A call asks for nothing but the directory of its cluster and the files in it. -/
theorem serve_asks (op : CredsOp) : f.Asks op.cluster (discard (f.serve op)) := by
  have hall : f.Asks op.cluster (f.serve op) := by
    cases op with
    | talosConfig | kubeConfig | secrets => exact ⟨trivial, fun _ _ => trivial⟩
    | put cl talos kube =>
      apply mkdir_asks
      rintro (e | ⟨⟩)
      · trivial
      apply (write_asks (by decide) talos).bind
      rintro (e | ⟨⟩) -
      · trivial
      · exact write_asks (by decide) kube
    | putSecrets cl bundle =>
      apply mkdir_asks
      rintro (e | ⟨⟩)
      · trivial
      · exact write_asks (by decide) bundle
    | delete cl =>
      show f.Asks cl (f.delete cl)
      rw [delete]
      split
      · trivial
      · refine ⟨rfl, ?_⟩
        rintro (e | ⟨⟩) -
        · trivial
        · trivial
  exact hall.bind fun _ _ => trivial

/-- What has not changed since the tree was `t₀`. -/
structure Kept (home d : Place) (t₀ t : Files.Tree Bytes) : Prop where
  outside : ∀ q, ¬home <+: q → t.node q = t₀.node q
  entry : Legal d → ∀ name ∈ files, t.node (d ++ [name]) = t₀.node (d ++ [name])
  above : Legal d → ∀ name ∈ files, ∀ q, q <+: d ++ [name] → t.isFile q = t₀.isFile q

section Kept

variable {t₀ t t' : Files.Tree Bytes} (h : Kept (f.home cwd) (f.place cwd d) t₀ t)
  (hapart : f.Apart cwd c d)

include h hapart

theorem Kept.grows (hhome : t₀.node (f.home cwd) = some .dir)
    (ht : t.Grows (legalPart (f.place cwd c)) t') : Kept (f.home cwd) (f.place cwd d) t₀ t' := by
  have habove : ∀ q, q <+: f.home cwd → t₀.node q = some .dir := by
    intro q hq
    by_cases hne : q = f.home cwd
    · rw [hne, hhome]
    · exact Tree.dir_of_isPrefix (by rw [hhome]; simp) hq hne
  constructor
  · intro q hq
    rcases ht q with hsame | ⟨hqc, hnone, -⟩
    · rw [hsame, h.outside q hq]
    · -- a place above the store is there already
      have hup : q <+: f.home cwd := by
        rcases hapart.inside with hin | ⟨-, hover⟩
        · exact (List.prefix_or_prefix_of_prefix (hqc.trans (legalPart_isPrefix _)) hin).resolve_right hq
        · exact hqc.trans hover
      rw [h.outside q hq, habove q hup] at hnone
      cases hnone
  · intro hd name hname
    rcases ht (f.place cwd d ++ [name]) with hsame | ⟨hqc, hnone, -⟩
    · rw [hsame, h.entry hd name hname]
    · rw [h.entry hd name hname, habove _ (hapart.clear name hname hqc)] at hnone
      cases hnone
  · intro hd name hname q hq
    rw [← h.above hd name hname q hq]
    rcases ht q with hsame | ⟨-, hnone, hdir⟩
    · rw [Tree.isFile, Tree.isFile, hsame]
    · rw [Tree.isFile, Tree.isFile, hnone, hdir]

/-- Changes to what the calls for the one cluster write or remove. -/
theorem Kept.below (hlegal : Legal (f.place cwd c))
    (ht : ∀ q, (∀ r ∈ f.reach cwd c, ¬r <+: q) → t'.node q = t.node q) :
    Kept (f.home cwd) (f.place cwd d) t₀ t' := by
  have hin : f.home cwd <+: f.place cwd c := hapart.inside.resolve_right fun hbad => hbad.1 hlegal
  have hfar : Legal (f.place cwd d) → ∀ name ∈ files, ∀ q, q <+: f.place cwd d ++ [name] →
      t'.node q = t.node q := fun hd name hname q hq =>
    ht q fun r hr hrq => hapart.away hd r hr name hname (hrq.trans hq)
  constructor
  · intro q hq
    rw [ht q fun r hr hrq => hq ((hin.trans (isPrefix_of_mem_reach hr)).trans hrq), h.outside q hq]
  · intro hd name hname
    rw [hfar hd name hname _ List.prefix_rfl, h.entry hd name hname]
  · intro hd name hname q hq
    rw [← h.above hd name hname q hq, Tree.isFile, Tree.isFile, hfar hd name hname q hq]

theorem Kept.handles {e : Event (fileSig Bytes)} (hhome : t₀.node (f.home cwd) = some .dir)
    (ht : t.handles cwd e t') (hop : f.Touches c e.op) :
    Kept (f.home cwd) (f.place cwd d) t₀ t' := by
  obtain ⟨op, rep⟩ := e
  cases op with
  | mkdirAll path =>
    cases hop
    obtain ⟨hgrows, -⟩ := ht
    rw [resolve_folder] at hgrows
    exact h.grows hapart hhome hgrows
  | writeFile path data =>
    obtain ⟨name, hname, rfl⟩ := hop
    simp only [Tree.handles, resolve_file (plain_of_mem_files hname)] at ht
    split at ht
    next hlegal =>
      refine h.below hapart (legal_concat.1 hlegal).1 fun q hq => ht.1.rest q ?_
      rintro rfl
      by_cases hdot : endsWithDot (f.folder c) = true
      · refine hq (f.place cwd c ++ [name]) ?_ List.prefix_rfl
        rw [reach, if_pos hdot]
        exact List.mem_map_of_mem hname
      · refine hq (f.place cwd c) ?_ (List.prefix_append ..)
        rw [reach, if_neg hdot]
        exact List.mem_singleton_self _
    next =>
      rw [ht.1]
      exact h
  | removeAll path =>
    cases hop
    simp only [Tree.handles, resolve_folder] at ht
    split at ht
    next hlegal =>
      refine h.below hapart hlegal.1 fun q hq => (ht.1 q).resolve_right fun hbelow => ?_
      refine hq (f.place cwd c) ?_ hbelow.1
      rw [reach, if_neg (by rw [hlegal.2]; exact Bool.false_ne_true)]
      exact List.mem_singleton_self _
    next =>
      rw [ht.1]
      exact h
  | readFile path =>
    obtain ⟨rfl, -⟩ := ht
    exact h

omit hapart in
theorem Kept.returns {name : String} (hname : name ∈ files) :
    f.returns cwd t d name = f.returns cwd t₀ d name := by
  have hread : t.read (f.place cwd d ++ [name]) = t₀.read (f.place cwd d ++ [name]) := by
    unfold Tree.read
    split
    next hlegal =>
      have hd := (legal_concat.1 hlegal).1
      exact Tree.readFile_congr (h.entry hd name hname) (h.above hd name hname)
    next => rfl
  simp only [FileStore.returns, resolve_read (plain_of_mem_files hname), hread]

end Kept

/-- Callers that keep to the directory of `c`. -/
def callers (f : FileStore) (cwd : Place) (c d : String) (t₀ : Files.Tree Bytes)
    (hapart : f.Apart cwd c d) (hhome : t₀.node (f.home cwd) = some .dir) : Accord (f.system cwd) where
  inv := Kept (f.home cwd) (f.place cwd d) t₀
  assumes := Only c
  rely _ _ _ := True
  guarantee _ _ _ t' := Kept (f.home cwd) (f.place cwd d) t₀ t'
  idle _ _ := True
  rely_refl _ _ := trivial
  rely_trans _ _ := trivial
  idle_rely _ _ := trivial
  act _ _ _ hg := ⟨hg, fun _ _ => trivial⟩
  start {i op w} _ _ honly _ := by
    obtain rfl : op.cluster = c := honly
    refine Program.Sustains.mono (fun _ _ _ => trivial)
      (Program.Within.sustains (J := fun _ => True) ?_ ?_ (serve_asks op) trivial)
    · exact fun _ _ => trivial
    · intro w w' e _ hop ht
      exact ⟨Kept.handles ht.1 hapart hhome ht.2.2 hop, trivial⟩
  crash h _ := ⟨h, fun _ => trivial⟩

theorem isolated_of_apart (hapart : f.Apart cwd c d) : f.Isolated cwd c d := by
  intro t ls e hhome hr
  have hstart : Kept (f.home cwd) (f.place cwd d) t t :=
    ⟨fun _ _ => rfl, fun _ _ _ => rfl, fun _ _ _ _ _ => rfl⟩
  have hend := (callers f cwd c d t hapart hhome).runs_inv (R := fun _ _ => True) (fun _ => trivial)
    (fun _ _ => trivial) (fun _ => trivial) hr (Accord.inv_idle _ hstart fun _ => trivial)
  exact ⟨fun name hname => Kept.returns hend.1.1 hname, hend.1.1.outside⟩

/-! ## Calls that reach another cluster -/

/-- A tree with the directories down to two places. -/
def bare (p q : Place) : Files.Tree Bytes where
  node r := if r <+: p ∨ r <+: q then some .dir else none
  root := by simp
  parent {r a} hr := by
    by_cases h : r ++ [a] <+: p ∨ r ++ [a] <+: q
    · exact if_pos (h.imp (List.prefix_append ..).trans (List.prefix_append ..).trans)
    · rw [if_neg h] at hr
      exact absurd rfl hr

theorem bare_left (p q : Place) : (bare p q).node p = some .dir := if_pos (Or.inl List.prefix_rfl)

theorem bare_right (p q : Place) : (bare p q).node q = some .dir := if_pos (Or.inr List.prefix_rfl)

/-- A part of a call that changes what is read, or something outside. -/
theorem not_isolated_of_moves (op : CredsOp) (tr : Trace (fileSig Bytes)) {t : Files.Tree Bytes}
    (t' : Files.Tree Bytes) {q : FileProg Unit} (hop : op.cluster = c) (hhome : t.node (f.home cwd) = some .dir)
    (hmoves : System.Moves (Tree.handles cwd) ((f.system cwd).task op) t tr q t')
    (hchange : (∃ name ∈ files, t'.read (f.place cwd d ++ [name]) ≠
        t.read (f.place cwd d ++ [name])) ∨
      ∃ q, ¬f.home cwd <+: q ∧ t'.node q ≠ t.node q) : ¬f.Isolated cwd c d := by
  intro h
  obtain ⟨e, hr, rfl⟩ := System.runsWith_task (A := f.system cwd) (i := 0) (C := Only c) trivial hop
    (fun _ _ _ => trivial) hmoves
  obtain ⟨hreads, houtside⟩ := h t _ e hhome hr
  rcases hchange with ⟨name, hname, hne⟩ | ⟨q, hq, hne⟩
  · have hread := hreads name hname
    rw [returns, returns, resolve_read (plain_of_mem_files hname)] at hread
    exact hne (readReply_inj hread)
  · exact hne (houtside q hq)

/-- At most one of the names is the way to a place. -/
theorem exists_file_off (p q : Place) : ¬p ++ [secretsFile] <+: q ∨ ¬p ++ [talosFile] <+: q := by
  by_contra hboth
  rw [not_or, not_not, not_not] at hboth
  rcases List.prefix_or_prefix_of_prefix hboth.1 hboth.2 with h | h
  · rw [List.prefix_append_right_inj] at h
    exact absurd h (by decide)
  · rw [List.prefix_append_right_inj] at h
    exact absurd h (by decide)

theorem bare_isFile (p q r : Place) : (bare p q).isFile r = false := by
  by_cases h : r <+: p ∨ r <+: q
  · have hnode : (bare p q).node r = some .dir := if_pos h
    rw [Tree.isFile, hnode]
  · have hnode : (bare p q).node r = none := if_neg h
    rw [Tree.isFile, hnode]

/-- What a call that puts credentials writes in a directory that is there. -/
theorem exists_written {t : Files.Tree Bytes} {names : List String}
    (hnames : names ∈ [[talosFile], [talosFile, kubeFile], [secretsFile]])
    (hlegal : Legal (f.place cwd c)) (hdir : t.node (f.place cwd c) = some .dir)
    (hfree : ∀ name ∈ names, t.node (f.place cwd c ++ [name]) = none) :
    ∃ (op : CredsOp) (tr : Trace (fileSig Bytes)) (q : FileProg Unit) (t' : Files.Tree Bytes),
      op.cluster = c ∧ System.Moves (Tree.handles cwd) ((f.system cwd).task op) t tr q t' ∧
      ∀ name ∈ names, t'.node (f.place cwd c ++ [name]) = some (.file []) := by
  have hmade : t.handles cwd ⟨.mkdirAll (f.folder c), .ok ()⟩ t :=
    Tree.handles_there (by rwa [resolve_folder]) (by rwa [resolve_folder])
  have hwritten : ∀ (name : String) (u : Files.Tree Bytes) (hd : u.node (f.place cwd c) = some .dir)
      (hn : u.node (f.place cwd c ++ [name]) ≠ some .dir), name ∈ files →
      u.handles cwd ⟨.writeFile (joinPath (f.folder c) name) [], .ok ()⟩
        (u.written (f.place cwd c) name [] hd hn) := fun name u hd hn hname =>
    Tree.handles_written (resolve_file (plain_of_mem_files hname))
      (legal_concat.2 ⟨hlegal, (by decide : ∀ n ∈ files, legalName n = true) name hname⟩) hd hn
  have hfile : ∀ name ∈ names, t.node (f.place cwd c ++ [name]) ≠ some .dir := fun name hname => by
    simp [hfree name hname]
  simp only [List.mem_cons, List.not_mem_nil, or_false] at hnames
  rcases hnames with rfl | rfl | rfl
  · exact ⟨.put c [] [], [⟨.mkdirAll (f.folder c), .ok ()⟩, ⟨.writeFile _ _, .ok ()⟩], _, _, rfl,
      ⟨_, _, rfl, hmade, _, _, rfl, hwritten talosFile t hdir (hfile _ (by simp)) (by decide), rfl, rfl⟩,
      fun name hname => if_pos (by rw [List.mem_singleton.1 hname])⟩
  · have hdir' : (t.written _ talosFile [] hdir (hfile _ (by simp))).node (f.place cwd c) = some .dir :=
      (if_neg (by simp)).trans hdir
    have hfile' : (t.written _ talosFile [] hdir (hfile _ (by simp))).node
        (f.place cwd c ++ [kubeFile]) ≠ some .dir := by
      rw [Tree.node_written, if_neg (by simp [talosFile, kubeFile])]
      exact hfile _ (by simp)
    refine ⟨.put c [] [], [⟨.mkdirAll (f.folder c), .ok ()⟩, ⟨.writeFile _ _, .ok ()⟩,
      ⟨.writeFile _ _, .ok ()⟩], _, _, rfl,
      ⟨_, _, rfl, hmade, _, _, rfl, hwritten talosFile t hdir (hfile _ (by simp)) (by decide), _, _, rfl,
        hwritten kubeFile _ hdir' hfile' (by decide), rfl, rfl⟩, ?_⟩
    simp [Tree.node_written]
  · exact ⟨.putSecrets c [], [⟨.mkdirAll (f.folder c), .ok ()⟩, ⟨.writeFile _ _, .ok ()⟩], _, _, rfl,
      ⟨_, _, rfl, hmade, _, _, rfl, hwritten secretsFile t hdir (hfile _ (by simp)) (by decide), rfl, rfl⟩,
      fun name hname => if_pos (by rw [List.mem_singleton.1 hname])⟩

/-- A name that leads out of the store: a file is written outside. -/
theorem home_isPrefix_of_isolated (h : f.Isolated cwd c d) (hlegal : Legal (f.place cwd c)) :
    f.home cwd <+: f.place cwd c := by
  by_contra hout
  have hwrite : ∀ name, [name] ∈ [[talosFile], [talosFile, kubeFile], [secretsFile]] →
      f.place cwd c ++ [name] <+: f.home cwd := by
    intro name hname
    by_contra hoff
    have hnone : (bare (f.home cwd) (f.place cwd c)).node (f.place cwd c ++ [name]) = none :=
      if_neg (not_or.2 ⟨hoff, not_concat_isPrefix _ name⟩)
    obtain ⟨op, tr, q, t', hop, hmoves, hfile⟩ := exists_written hname hlegal (bare_right ..)
      (fun n hn => by rwa [List.mem_singleton.1 hn])
    refine not_isolated_of_moves op tr t' hop (bare_left ..) hmoves
      (Or.inr ⟨f.place cwd c ++ [name], ?_, ?_⟩) h
    · rw [List.prefix_concat_iff, not_or]
      exact ⟨fun heq => hoff (by rw [heq]), hout⟩
    · rw [hfile name (List.mem_singleton_self name), hnone]
      simp
  rcases exists_file_off (f.place cwd c) (f.home cwd) with hoff | hoff
  · exact hoff (hwrite secretsFile (by decide))
  · exact hoff (hwrite talosFile (by decide))

/-- The directories that a call makes, whatever else it does. -/
theorem not_isolated_of_made {t : Files.Tree Bytes} (hhome : t.node (f.home cwd) = some .dir)
    (hnone : ∀ q, t.isFile q = false)
    (hchange : (∃ name ∈ files, (t.made (legalPart (f.place cwd c))).read (f.place cwd d ++ [name]) ≠
        t.read (f.place cwd d ++ [name])) ∨
      ∃ q, ¬f.home cwd <+: q ∧ (t.made (legalPart (f.place cwd c))).node q ≠ t.node q) :
    ¬f.Isolated cwd c d := by
  obtain ⟨rep, hmade⟩ := Tree.handles_made cwd (f.folder c) hnone
  rw [resolve_folder] at hmade
  exact not_isolated_of_moves (.putSecrets c []) [⟨.mkdirAll (f.folder c), rep⟩] _ rfl hhome
    ⟨_, _, rfl, hmade, rfl, rfl⟩ hchange

theorem inside_of_isolated (h : f.Isolated cwd c d) : f.home cwd <+: f.place cwd c ∨
    (¬Legal (f.place cwd c) ∧ legalPart (f.place cwd c) <+: f.home cwd) := by
  by_cases hlegal : Legal (f.place cwd c)
  · exact Or.inl (home_isPrefix_of_isolated h hlegal)
  by_cases hin : f.home cwd <+: f.place cwd c
  · exact Or.inl hin
  refine Or.inr ⟨hlegal, ?_⟩
  by_contra hoff
  refine not_isolated_of_made (bare_left _ (f.home cwd)) (bare_isFile _ _)
    (Or.inr ⟨legalPart (f.place cwd c), fun hpre => hin (hpre.trans (legalPart_isPrefix _)), ?_⟩) h
  simp [Tree.node_made, bare, hoff]

/-- A name whose directory holds a file of the other cluster: it goes with the directory. -/
theorem not_below_of_isolated (hc : c ≠ "") (h : f.Isolated cwd c d) (hd : Legal (f.place cwd d))
    (hdot : endsWithDot (f.folder c) = false) :
    ∀ name ∈ files, ¬f.place cwd c <+: f.place cwd d ++ [name] := by
  intro name hname hbelow
  have hfile : Legal (f.place cwd d ++ [name]) :=
    legal_concat.2 ⟨hd, (by decide : ∀ n ∈ files, legalName n = true) name hname⟩
  have hlegal : Legal (resolve cwd (f.folder c)) := by
    rw [resolve_folder]
    exact hfile.of_isPrefix hbelow
  -- a tree with the file, or with a directory in its place if the store lies below it
  obtain ⟨t, hhome, hentry⟩ : ∃ t : Files.Tree Bytes, t.node (f.home cwd) = some .dir ∧
      t.node (f.place cwd d ++ [name]) ≠ none := by
    by_cases hoff : f.place cwd d ++ [name] <+: f.home cwd
    · exact ⟨bare (f.home cwd) (f.home cwd), bare_left .., by simp [bare, hoff]⟩
    · have hlong := not_concat_isPrefix (f.place cwd d) name
      have hnone : (bare (f.home cwd) (f.place cwd d)).node (f.place cwd d ++ [name]) = none :=
        if_neg (not_or.2 ⟨hoff, hlong⟩)
      refine ⟨(bare (f.home cwd) (f.place cwd d)).written (f.place cwd d) name [] (bare_right ..)
        (by simp [hnone]), ?_, ?_⟩
      · refine (if_neg ?_).trans (bare_left ..)
        intro heq
        exact hoff (by rw [heq])
      · simp [Tree.written]
  obtain ⟨next, htask⟩ :
      ∃ next, (f.system cwd).task (.delete c) = .request (.removeAll (f.folder c)) next := by
    show ∃ next, discard (f.delete c) = _
    rw [delete, if_neg hc]
    exact ⟨_, rfl⟩
  obtain ⟨rep, hremoved⟩ := t.handles_removed hlegal hdot
  refine not_isolated_of_moves (.delete c) [⟨.removeAll (f.folder c), rep⟩] _ rfl hhome
    ⟨_, _, htask, hremoved, rfl, rfl⟩ (Or.inl ⟨name, hname, ?_⟩) h
  rw [resolve_folder, Tree.read, Tree.read, if_pos hfile, if_pos hfile]
  refine (Tree.readFile_ne hentry (if_pos ⟨hbelow, ?_⟩)).symm
  simp

/-- A name with a file at or above one of the other cluster: it is written. -/
theorem not_above_of_isolated (h : f.Isolated cwd c d) (hd : Legal (f.place cwd d)) :
    ∀ own ∈ files, ∀ name ∈ files, ¬f.place cwd c ++ [own] <+: f.place cwd d ++ [name] := by
  intro own hown name hname hbelow
  have hfile : Legal (f.place cwd d ++ [name]) :=
    legal_concat.2 ⟨hd, (by decide : ∀ n ∈ files, legalName n = true) name hname⟩
  have hlegal : Legal (f.place cwd c) := (legal_concat.1 (hfile.of_isPrefix hbelow)).1
  have hin := home_isPrefix_of_isolated h hlegal
  have hfree : ∀ n q, f.place cwd c ++ [n] <+: q →
      (bare (f.home cwd) (f.place cwd c)).node q = none := by
    refine fun n q hq => if_neg ?_
    rintro (hup | hup)
    · exact not_concat_isPrefix _ _ (hq.trans (hup.trans hin))
    · exact not_concat_isPrefix _ _ (hq.trans hup)
  obtain ⟨names, hnames, hmem⟩ : ∃ names ∈ [[talosFile], [talosFile, kubeFile], [secretsFile]],
      own ∈ names := (by decide : ∀ n ∈ files, ∃ names ∈ [[talosFile], [talosFile, kubeFile],
        [secretsFile]], n ∈ names) own hown
  obtain ⟨op, tr, q, t', hop, hmoves, hwritten⟩ := exists_written hnames hlegal (bare_right ..)
    (fun n _ => hfree n _ List.prefix_rfl)
  refine not_isolated_of_moves op tr t' hop (bare_left ..) hmoves (Or.inl ⟨name, hname, ?_⟩) h
  have hbefore : (bare (f.home cwd) (f.place cwd c)).readFile (f.place cwd d ++ [name]) =
      .error .notExist := by
    simp [Tree.readFile, hfree own _ hbelow, bare_isFile]
  have hisFile : t'.isFile (f.place cwd c ++ [own]) = true := by
    rw [Tree.isFile, hwritten own hmem]
  rw [Tree.read, Tree.read, if_pos hfile, if_pos hfile, hbefore]
  exact Tree.readFile_ne_notExist hisFile hbelow

theorem away_of_isolated (hc : c ≠ "") (h : f.Isolated cwd c d) (hd : Legal (f.place cwd d)) :
    ∀ r ∈ f.reach cwd c, ∀ name ∈ files, ¬r <+: f.place cwd d ++ [name] := by
  intro r hr
  unfold reach at hr
  split at hr
  next hdot =>
    obtain ⟨own, hown, rfl⟩ := List.mem_map.1 hr
    exact not_above_of_isolated h hd own hown
  next hdot =>
    rw [List.mem_singleton.1 hr]
    exact not_below_of_isolated hc h hd (by simpa using hdot)

/-- A name whose directory is made below a file of the other cluster. -/
theorem clear_of_isolated (h : f.Isolated cwd c d) : ∀ name ∈ files,
    f.place cwd d ++ [name] <+: legalPart (f.place cwd c) →
      f.place cwd d ++ [name] <+: f.home cwd := by
  intro name hname habove
  by_contra hoff
  have hfile : Legal (f.place cwd d ++ [name]) := (legal_legalPart _).of_isPrefix habove
  have hnone : (bare (f.home cwd) (f.home cwd)).node (f.place cwd d ++ [name]) = none :=
    if_neg (not_or.2 ⟨hoff, hoff⟩)
  refine not_isolated_of_made (bare_left _ (f.home cwd)) (bare_isFile _ _) (Or.inl ⟨name, hname, ?_⟩) h
  rw [Tree.read, Tree.read, if_pos hfile, if_pos hfile]
  refine Tree.readFile_ne ?_ hnone
  simp [Tree.node_made, habove]

/-- Calls for `c` are no danger to `d` and to what lies outside of the store if and only if the
directory of `c` is in the store, nothing that is written or removed for `c` is at or above a file of `d`,
and no directory that is made for `c` is one. -/
theorem isolated_iff_apart (f : FileStore) (cwd : Place) {c : String} (d : String) (hc : c ≠ "") :
    f.Isolated cwd c d ↔ f.Apart cwd c d := by
  constructor
  · intro h
    exact ⟨inside_of_isolated h, away_of_isolated hc h, clear_of_isolated h⟩
  · exact isolated_of_apart

/-- A store with the secrets of one cluster. -/
def store : FileStore := ⟨"/var/lib/medea/creds", by decide⟩

def stored : Files.Tree Bytes :=
  (bare (store.home []) (store.place [] "prod")).written (store.place [] "prod") secretsFile [1]
    (by decide +kernel) (by decide +kernel)

theorem staging_isolated : store.Isolated [] "staging" "prod" :=
  (isolated_iff_apart store [] "prod" (by decide)).2 (apart_of_plain
    ⟨by decide, by decide, by decide, by decide⟩ ⟨by decide, by decide, by decide, by decide⟩ (by decide))

/-- Deleting the cluster `.` removes the credentials of every cluster. -/
theorem dot_not_isolated :
    (∃ e, (store.system []).RunsWith (Only ".") (Config.idle (fileSig Bytes) Nat stored)
        [.start 0 (.delete "."), .act 0 ⟨.removeAll "/var/lib/medea/creds", .ok ()⟩] e ∧
      store.returns [] stored "prod" secretsFile = .ok [1] ∧
      store.returns [] e.world "prod" secretsFile = .error ("read secrets.yaml for \"prod\": " ++
        "open /var/lib/medea/creds/prod/secrets.yaml: no such file or directory")) ∧
    ¬store.Isolated [] "." "prod" := by
  have hresolve : resolve [] "/var/lib/medea/creds" = ["var", "lib", "medea", "creds"] := by
    decide +kernel
  have hremoved : stored.handles [] ⟨.removeAll "/var/lib/medea/creds", .ok ()⟩
      (stored.removed ["var", "lib", "medea", "creds"]) := by
    have hcan : Legal (resolve [] "/var/lib/medea/creds") ∧
        endsWithDot "/var/lib/medea/creds" = false := by decide +kernel
    simp only [Tree.handles, if_pos hcan]
    refine ⟨?_, fun _ q hq => ?_⟩
    · rw [hresolve]
      exact Tree.removed_shrinks
    · rw [hresolve] at hq
      refine if_pos ⟨hq, ?_⟩
      rintro rfl
      exact absurd hq (by decide)
  obtain ⟨next, htask⟩ : ∃ next, (store.system []).task (.delete ".") =
      .request (.removeAll "/var/lib/medea/creds") next := by
    show ∃ next, discard (store.delete ".") = _
    rw [delete, if_neg (by decide), show store.folder "." = "/var/lib/medea/creds" by decide +kernel]
    exact ⟨_, rfl⟩
  have hmoves : System.Moves (store.system []).handle ((store.system []).task (.delete ".")) stored
      [⟨.removeAll "/var/lib/medea/creds", .ok ()⟩] _ _ := ⟨next, _, htask, hremoved, rfl, rfl⟩
  have honly : Only "." stored (.start 0 (.delete ".")) stored := rfl
  obtain ⟨e, hr, hworld⟩ := System.runsWith_task trivial honly (fun _ _ _ => trivial) hmoves
  have hafter : store.returns [] e.world "prod" secretsFile = .error ("read secrets.yaml for \"prod\": " ++
      "open /var/lib/medea/creds/prod/secrets.yaml: no such file or directory") := by
    rw [hworld]
    decide +kernel
  have hbefore : store.returns [] stored "prod" secretsFile = .ok [1] := by decide +kernel
  refine ⟨⟨e, hr, hbefore, hafter⟩, fun h => ?_⟩
  have hsame := (h stored _ e (by decide +kernel) hr).1 secretsFile (by decide)
  rw [hafter, hbefore] at hsame
  cases hsame

end FileStore

end Medea
