import ScriptDeps.Proofs.Clean.DryRun
import ScriptDeps.Proofs.Courses

/-! # What a clean-up leaves alone

    Each target names the paths that it may take away: the root of the cache,
    or items of it.  As long as no link stands for the directories of a cache,
    such a path leads to the item and to nothing else, so that whatever a
    clean-up does up to some moment, and whatever has failed until then, only
    items are lost (`Remains`).  A link that is an item is lost itself; what it
    leads to is another location. -/

namespace ScriptDeps

open FileSystem

/-! ## Section 1: Model -/

/-- The names in all directories are names that an entry can have. -/
def FileSystem.Named (fs : FileSystem) : Prop :=
  ∀ loc n, (fs.at? (loc ++ [n])).isSome → Path.IsPlainName n

/-- The root of the store is a directory, `top`, and no link stands for the
    directories of its items. -/
structure Store.IsReal (s : Store) (cwd top : Location) (fs : FileSystem) : Prop where
  root    : fs.findNode cwd false s.root = .ok (top, .directory)
  folders : ∀ i : Item, NoLink fs (top ++ [i.folder])

namespace Tool

namespace Target

/-- Whether a target may take an item away: of the unused items this can be any, and
    of the others the markers with certain names. -/
def MayTake (cwd : Path) (x : Target) (i : Item) : Prop :=
  x = .unused ∨ ∃ n, i = .marker n ∧ x.hits cwd n = true

/-- The path `p` is one that a target may take away. -/
def Names (s : Store) (cwd : Path) (x : Target) (p : Path) : Prop :=
  x = .all ∧ p = s.root ∨ ∃ i : Item, x.MayTake cwd i ∧ Path.IsPlainName i.name ∧ p = i.path s

/-- A target accounts for the loss of the node at `loc`: it takes the whole cache away,
    or an item that is there or that is a directory above. -/
def Covers (cwd : Path) (top : Location) (fs : FileSystem) (x : Target) (loc : Location) : Prop :=
  x = .all ∧ top <+: loc ∨ ∃ i : Item, x.MayTake cwd i ∧
    (loc = i.loc top ∨ fs.at? (i.loc top) = some .directory ∧ i.loc top <+: loc)

end Target

/-- `fs'` is what a clean-up of the targets `xs` may have left of `fs`. -/
structure Remains (c : Clean) (cwd : Path) (top : Location) (xs : List Target)
    (fs fs' : FileSystem) : Prop where
  loses : Loses fs fs'
  taken : ∀ loc, fs'.at? loc ≠ fs.at? loc → c.dryRun = false ∧ ∃ x ∈ xs, x.Covers cwd top fs loc

end Tool

/-! ## Section 2: Where the paths lead -/

namespace Store

/-- What is found at the path of an item is the item. -/
theorem IsReal.findNode_item {s : Store} {cwd top loc : Location} {fs fs' : FileSystem}
    {node : Node} (hreal : s.IsReal cwd top fs) (hloses : Loses fs fs') {i : Item}
    (hn : Path.IsPlainName i.name)
    (hfound : fs'.findNode cwd false (i.path s) = .ok (loc, node)) :
    loc = i.loc top ∧ fs.at? loc = some node := by
  obtain ⟨dir, hleads, rfl, hnode⟩ := exists_of_findNode_child hn hfound
  have hdir := (leads_of_findNode hreal.root).of_child (isEntryName_folder i).1
    (hreal.folders i) (hleads.mono hloses.keeps)
  refine ⟨?_, hloses _ _ hnode⟩
  rw [hdir, Item.loc, List.append_assoc]
  rfl

end Store

namespace Tool

variable {s : Store} {c : Clean} {cwd' top loc : Location} {cwd p : Path} {x : Target}
  {xs : List Target} {fs fs' fs'' : FileSystem} {node : Node} {n : Name} {h : Host}
  {F : Request → Prop} {J : FileSystem → Prop}

theorem Target.Covers.inside (hx : x.Covers cwd top fs loc) : top <+: loc := by
  obtain ⟨_, hfront⟩ | ⟨i, _, rfl | ⟨_, hfront⟩⟩ := hx
  · exact hfront
  · exact List.prefix_append ..
  · exact (List.prefix_append ..).trans hfront

/-- What is lost at a path that a target names is covered by the target. -/
theorem covers_of_found (hreal : s.IsReal cwd' top fs) (hloses : Loses fs fs')
    (hp : x.Names s cwd p) (hfound : fs'.findNode cwd' false p = .ok (loc, node))
    {l : Location} (hl : l = loc ∨ node = .directory ∧ loc <+: l) : x.Covers cwd top fs l := by
  obtain ⟨rfl, rfl⟩ | ⟨i, hi, hn, rfl⟩ := hp
  · obtain ⟨rfl, _⟩ := hloses.findNode_directory hreal.root hfound
    refine .inl ⟨rfl, ?_⟩
    rcases hl with rfl | ⟨_, hfront⟩
    · exact List.prefix_refl _
    · exact hfront
  · obtain ⟨rfl, hnode⟩ := hreal.findNode_item hloses hn hfound
    refine .inr ⟨i, hi, hl.imp_right fun ⟨hdir, hfront⟩ => ⟨?_, hfront⟩⟩
    rw [hnode, hdir]

/-- One removal takes away no more than the targets cover. -/
theorem Remains.of_removal (hremains : Remains c cwd top xs fs fs')
    (hreal : s.IsReal h.cwd top fs) (hremove : c.dryRun = false) (hx : x ∈ xs)
    (hp : x.Names s cwd p) {r : Request} (hr : r = .removeFile p ∨ r = .removeTree p)
    {answer : r.Answer} (hserved : Served h F fs' r answer fs'') :
    Remains c cwd top xs fs fs'' := by
  rcases hserved.strips hr with rfl | ⟨loc, node, hfound, hstrips⟩
  · exact hremains
  · refine ⟨hremains.loses.trans hstrips.loses, fun l hdiff => ?_⟩
    -- What is lost has been lost before, or is lost by this removal.
    by_cases hl : fs''.at? l = fs'.at? l
    · exact hremains.taken l (hl ▸ hdiff)
    · exact ⟨hremove, x, hx,
        covers_of_found hreal hremains.loses hp hfound (hstrips.within l hl)⟩

theorem Remains.named (hremains : Remains c cwd top xs fs fs') (hnamed : fs.Named) :
    fs'.Named := by
  intro loc n hthere
  obtain ⟨node, hnode⟩ := Option.isSome_iff_exists.1 hthere
  exact hnamed loc n (by rw [hremains.loses _ _ hnode]; rfl)

/-! ## Section 3: Listings -/

/-- A directory holds only names that entries can have. -/
theorem isPlainName_of_list (hnamed : fs.Named) {names : List Name}
    (hlist : fs.list cwd' p = .ok names) : ∀ n ∈ names, Path.IsPlainName n := by
  intro n hn
  unfold FileSystem.list at hlist
  split at hlist
  · cases hlist
    exact hnamed _ n (mem_names.1 (List.mem_mergeSort.1 hn))
  · cases hlist
  · cases hlist

theorem keeps_listDirectory (hJ : ∀ fs, J fs → fs.Named) (dir : Path) :
    (Store.listDirectory dir).Keeps (.faulty h F) J
      fun ps => ∀ p ∈ ps, ∃ n, Path.IsPlainName n ∧ p = dir.child n := by
  have hlist : (Action.ask (.list dir)).Keeps (.faulty h F) J
      fun answer => ∀ names, answer = .ok names → ∀ n ∈ names, Path.IsPlainName n := by
    refine Action.keeps_ask fun fs answer fs' hfs hserved => ?_
    refine ⟨(Service.faulty h F).looks hserved rfl ▸ hfs, ?_⟩
    cases hserved with
    | well => exact fun names hnames => isPlainName_of_list (hJ fs hfs) hnames
    | refused _ hx => cases hx; exact nofun
  refine hlist.bind fun answer hanswer => ?_
  split
  · next names =>
    refine Action.keeps_pure fun p hp => ?_
    obtain ⟨n, hn, rfl⟩ := List.mem_map.1 hp
    exact ⟨n, hanswer names rfl n hn, rfl⟩
  · exact Action.keeps_pure nofun
  · exact Action.keeps_throw _

theorem keeps_readMarker (s : Store) (p : Path) :
    (s.readMarker p).Keeps (.faulty h F) J fun m => m.path = p := by
  refine (Action.keeps_look rfl).bind fun answer _ => ?_
  split
  · exact (Action.keeps_look rfl).bind fun _ _ => Action.keeps_pure rfl
  · exact Action.keeps_pure rfl

theorem keeps_listMarkers (hJ : ∀ fs, J fs → fs.Named) (s : Store) :
    s.listMarkers.Keeps (.faulty h F) J
      fun ms => ∀ m ∈ ms, ∃ n, Path.IsPlainName n ∧ m.path = (Item.marker n).path s := by
  refine (keeps_listDirectory hJ s.markers).bind fun ps hps => ?_
  refine Action.keeps_mapM fun p hp => ?_
  obtain ⟨n, hn, rfl⟩ := hps p hp
  exact (keeps_readMarker s _).mono fun m hm => ⟨n, hn, hm⟩

theorem keeps_ephemeralMarkers (hJ : ∀ fs, J fs → fs.Named) (s : Store) (cwd : Path) :
    s.ephemeralMarkers.Keeps (.faulty h F) J
      fun ms => ∀ m ∈ ms, Target.ephemeral.Names s cwd m.path := by
  refine (keeps_listMarkers hJ s).bind fun ms hms => Action.keeps_pure fun m hm => ?_
  obtain ⟨hm, hephemeral⟩ := List.mem_filter.1 hm
  obtain ⟨n, hn, hpath⟩ := hms m hm
  refine .inr ⟨.marker n, .inr ⟨n, rfl, ?_⟩, hn, hpath⟩
  rwa [Marker.isEphemeral, hpath, Store.isEphemeralMarker_path s hn] at hephemeral

theorem keeps_unused (hJ : ∀ fs, J fs → fs.Named) (s : Store) (cwd : Path) :
    s.unused.Keeps (.faulty h F) J
      fun u => ∀ p ∈ u.dangling ++ u.entries, Target.unused.Names s cwd p := by
  refine (keeps_listMarkers hJ s).bind fun ms hms => ?_
  refine (keeps_listDirectory hJ s.entries).bind fun ps hps => Action.keeps_pure fun p hp => ?_
  rcases List.mem_append.1 hp with hp | hp
  · obtain ⟨m, hm, rfl⟩ := List.mem_map.1 hp
    obtain ⟨n, hn, hpath⟩ := hms m (List.mem_filter.1 hm).1
    exact .inr ⟨.marker n, .inl rfl, hn, hpath⟩
  · obtain ⟨n, hn, rfl⟩ := hps p (List.mem_filter.1 hp).1
    exact .inr ⟨.entry n, .inl rfl, hn, rfl⟩

/-! ## Section 4: Clean-ups -/

section
variable (hreal : c.store.IsReal h.cwd top fs) (hnamed : fs.Named)
include hreal

theorem keeps_removePath (hremove : c.dryRun = false) (hx : x ∈ xs)
    (hp : x.Names c.store cwd p) :
    (Store.removePath p).Keeps (.faulty h F) (Remains c cwd top xs fs) fun _ => True := by
  have hremoval : ∀ r : Request, r = .removeFile p ∨ r = .removeTree p →
      (Action.ask r).Keeps (.faulty h F) (Remains c cwd top xs fs) fun _ => True :=
    fun r hr => Action.keeps_ask fun _ _ _ hremains hserved =>
      ⟨hremains.of_removal hreal hremove hx hp hr hserved, trivial⟩
  have hrest : ∀ removed : Except IoError Unit, Action.Keeps (.faulty h F) (Remains c cwd top xs fs)
      (fun _ => True) (Action.orFail removed (.io ("removing " ++ p.display)) >>= fun _ =>
        pure true) :=
    fun removed => (Action.keeps_orFail _ _).bind fun _ _ => Action.keeps_pure trivial
  refine (Action.keeps_look rfl).bind fun answer _ => ?_
  split
  · exact Action.keeps_pure trivial
  · exact Action.keeps_throw _
  · dsimp only
    split
    · exact (hremoval _ (.inr rfl)).bind fun removed _ => hrest removed
    · exact (hremoval _ (.inl rfl)).bind fun removed _ => hrest removed

theorem keeps_remove (hx : x ∈ xs) (hp : x.Names c.store cwd p) (t : Tally) :
    (c.remove t p).Keeps (.faulty h F) (Remains c cwd top xs fs) fun _ => True := by
  cases hdry : c.dryRun with
  | true => exact (Clean.looks_remove hdry t p).keeps
  | false =>
    rw [Clean.remove_eq, hdry]
    refine (Action.keeps_look rfl).bind fun answer _ => ?_
    cases answer with
    | error e => exact Action.keeps_pure trivial
    | ok status =>
      have hsize : Action.Keeps (.faulty h F) (Remains c cwd top xs fs) (fun _ => True)
          (if status.kind = .directory then Store.diskUsage p else pure 0) := by
        split
        · exact (Action.keeps_look rfl).bind fun _ _ => Action.keeps_pure trivial
        · exact Action.keeps_pure trivial
      refine hsize.bind fun size _ => (keeps_removePath hreal hdry hx hp).bind fun gone _ => ?_
      unfold Clean.announce
      split
      · exact (Action.keeps_look rfl).bind fun _ _ => Action.keeps_pure trivial
      · exact Action.keeps_pure trivial

theorem keeps_removeAll (hx : x ∈ xs) {ps : List Path} (hps : ∀ p ∈ ps, x.Names c.store cwd p)
    (t : Tally) :
    (c.removeAll t ps).Keeps (.faulty h F) (Remains c cwd top xs fs) fun _ => True := by
  induction ps generalizing t with
  | nil => exact Action.keeps_pure trivial
  | cons p ps ih =>
    exact (keeps_remove hreal hx (hps p (List.mem_cons_self ..)) t).bind fun _ _ =>
      ih (fun p hp => hps p (List.mem_cons_of_mem _ hp)) _

include hnamed

theorem keeps_target (hx : x ∈ xs) (t : Tally) :
    (c.target cwd t x).Keeps (.faulty h F) (Remains c cwd top xs fs) fun _ => True := by
  have hJ : ∀ fs', Remains c cwd top xs fs fs' → fs'.Named :=
    fun fs' hremains => hremains.named hnamed
  -- What is removed comes from a listing, except for the root and the marker of a script.
  cases x with
  | all =>
    exact (keeps_remove hreal hx (.inl ⟨rfl, rfl⟩) t).bind fun _ _ => Action.keeps_pure trivial
  | ephemeral =>
    refine (keeps_ephemeralMarkers hJ c.store cwd).bind fun ms hms => ?_
    refine keeps_removeAll hreal hx (fun p hp => ?_) t
    obtain ⟨m, hm, rfl⟩ := List.mem_map.1 hp
    exact hms m hm
  | unused =>
    exact (keeps_unused hJ c.store cwd).bind fun u hu => keeps_removeAll hreal hx hu t
  | script q =>
    refine (Action.keeps_orFail _ _).bind fun full hfull => ?_
    have hhits : (Target.script q).hits cwd (Utf8.encode (Identity.ofPath full).markerName) =
        true := by
      rw [Target.hits, hfull]
      exact decide_eq_true rfl
    have hnames : (Target.script q).Names c.store cwd
        (c.store.markerPath (Identity.ofPath full)) :=
      .inr ⟨.marker _, .inr ⟨_, rfl, hhits⟩, Clean.isPlainName_ofPath full, rfl⟩
    refine (keeps_remove hreal hx hnames t).bind fun found _ => ?_
    dsimp only
    split
    · exact (Action.keeps_look rfl).bind fun _ _ => Action.keeps_pure trivial
    · exact Action.keeps_pure trivial

theorem keeps_targets {ys : List Target} (hys : ∀ y ∈ ys, y ∈ xs) (t : Tally) :
    (c.targets cwd t ys).Keeps (.faulty h F) (Remains c cwd top xs fs) fun _ => True := by
  induction ys generalizing t with
  | nil => exact Action.keeps_pure trivial
  | cons y ys ih =>
    exact (keeps_target hreal hnamed (hys y (List.mem_cons_self ..)) t).bind fun t _ =>
      ih (fun y hy => hys y (List.mem_cons_of_mem _ hy)) t

end

/-! ## Section 5: The whole -/

variable {e : Environment} {settings : Settings}

theorem keeps_clean (hreal : (store e settings).IsReal h.cwd top fs) (hnamed : fs.Named)
    (args : List Text) (dryRun keepUnused : Bool) :
    (clean e settings args dryRun keepUnused).Keeps (.faulty h F)
      (Remains ⟨store e settings, dryRun⟩ e.cwd top (Target.plan args !keepUnused) fs)
      fun _ => True :=
  (keeps_targets (c := ⟨store e settings, dryRun⟩) hreal hnamed (fun _ hx => hx) {}).bind
    fun _ _ => (Clean.looks_sayAll _).keeps

theorem Remains.outside (hremains : Remains c cwd top xs fs fs') (hloc : ¬ top <+: loc) :
    fs'.at? loc = fs.at? loc := by
  refine Decidable.byContradiction fun hdiff => ?_
  obtain ⟨_, x, _, hcovers⟩ := hremains.taken loc hdiff
  exact hloc hcovers.inside

/-- What can be read without the cache is read as before. -/
theorem Remains.read (hremains : Remains c cwd top xs fs fs') {q : Path} {content : Bytes}
    (hread : (fs.without [top]).read cwd' q = .ok content) : fs'.read cwd' q = .ok content := by
  refine read_of_kept (fun loc node hnode => ?_) hread
  by_cases hroot : loc = []
  · rw [hroot, at?_root] at hnode ⊢
    exact hnode
  · obtain ⟨hstruck, hnode⟩ := (at?_without_eq_some hroot).1 hnode
    have hloc : ¬ top <+: loc := fun hfront => by
      rw [isStruck_iff.2 ⟨top, List.mem_singleton_self top, hfront⟩] at hstruck
      cases hstruck
    rw [hremains.outside hloc, hnode]

/-- Targets that take away markers alone leave all entries. -/
theorem Remains.entries (hremains : Remains c cwd top xs fs fs')
    (hxs : ∀ x ∈ xs, x ≠ .all ∧ x ≠ .unused) (hloc : ¬ top ++ [Store.markersName] <+: loc) :
    fs'.at? loc = fs.at? loc := by
  refine Decidable.byContradiction fun hdiff => hloc ?_
  obtain ⟨_, x, hx, hcovers⟩ := hremains.taken loc hdiff
  have hmarker : ∀ n, top ++ [Store.markersName] <+: (Item.marker n).loc top :=
    fun n => ⟨[n], List.append_assoc ..⟩
  rcases hcovers with ⟨hall, _⟩ | ⟨i, hunused | ⟨n, rfl, _⟩, hi⟩
  · exact absurd hall (hxs x hx).1
  · exact absurd hunused (hxs x hx).2
  · rcases hi with rfl | ⟨_, hfront⟩
    · exact hmarker n
    · exact (hmarker n).trans hfront

/-- At every moment of a clean-up, whatever has failed until then, files have only
    been lost, and none outside the root of the cache.  Each is an item that a
    target takes away, or lies below an item that is a directory: what a link
    leads to is no part of it.  Files that can be read without the cache, such as
    scripts, are read as before; and targets that name markers leave all entries. -/
theorem clean_stays_in_cache (hreal : (store e settings).IsReal h.cwd top fs)
    (hnamed : fs.Named) (args : List Text) (dryRun keepUnused : Bool)
    {p : Program (Except Failure PUnit)}
    (hreach : Program.Reaches (.faulty h F)
      (ExceptT.run (clean e settings args dryRun keepUnused)) fs p fs') :
    Loses fs fs' ∧
    (∀ loc, ¬ top <+: loc → fs'.at? loc = fs.at? loc) ∧
    (∀ loc, fs'.at? loc ≠ fs.at? loc →
      dryRun = false ∧ ∃ x ∈ Target.plan args !keepUnused, x.Covers e.cwd top fs loc) ∧
    (∀ dir q content, (fs.without [top]).read dir q = .ok content →
      fs'.read dir q = .ok content) ∧
    ((∀ x ∈ Target.plan args !keepUnused, x ≠ .all ∧ x ≠ .unused) →
      ∀ loc, ¬ top ++ [Store.markersName] <+: loc → fs'.at? loc = fs.at? loc) := by
  have hstart : Remains ⟨store e settings, dryRun⟩ e.cwd top (Target.plan args !keepUnused) fs fs :=
    ⟨Loses.refl fs, fun loc hdiff => absurd rfl hdiff⟩
  have hremains := (keeps_clean hreal hnamed args dryRun keepUnused).of_reaches hstart hreach
  exact ⟨hremains.loses, fun _ hloc => hremains.outside hloc, hremains.taken,
    fun _ _ _ hread => hremains.read hread, fun hxs _ hloc => hremains.entries hxs hloc⟩

/-! ## Section 6: An entry with a link -/

/-- The names in files whose nodes are listed can be checked. -/
theorem named_of_nodes (hnodes : ∀ e ∈ fs.nodes, ∀ n, e.1.getLast? = some n → Path.IsPlainName n) :
    fs.Named := by
  intro loc n hthere
  obtain ⟨node, hnode⟩ := Option.isSome_iff_exists.1 hthere
  exact hnodes _ (mem_nodes_of_at? hnode (by simp)) n List.getLast?_concat

/-- The entry `k`. -/
def linkedEntry : Location := (Item.entry (Utf8.encode "k".toList)).loc cacheTop

/-- A marker, an entry that holds a link to `/x`, and the file there. -/
def linkedNodes : List (Location × Node) :=
  [(linkedEntry, .directory), (linkedEntry ++ [Utf8.encode "l".toList], .link "/x"),
    markerNode "stdin--1".toList "k".toList,
    ([Utf8.encode "x".toList], .file [1] 0 plainMode)]

theorem isReal_linkedNodes : (store cacheEnvironment cacheSettings).IsReal cacheHost.cwd cacheTop
    (cacheOf linkedNodes) := by
  have hroot : (cacheOf linkedNodes).Leads cacheHost.cwd "/" [] := ⟨_, .root _ (.nil _ _)⟩
  have hdirs : ∀ i : Item, (cacheOf linkedNodes).at? (cacheTop ++ [i.folder]) =
      some .directory := fun i => by cases i <;> rfl
  refine ⟨?_, fun i target hlink => ?_⟩
  · exact findNode_child (n := Utf8.encode "c".toList) hroot (by decide) (by decide) false nofun
  · rw [hdirs i] at hlink
    cases hlink

/-- The marker and the entry are removed, and what the entry links to stays. -/
theorem clean_stays_in_cache_linked :
    let files := ((clean cacheEnvironment cacheSettings [] false false).run cacheHost
      ⟨cacheOf linkedNodes, []⟩).2.files
    files.at? linkedEntry = none ∧
      files.at? [Utf8.encode "x".toList] = some (.file [1] 0 plainMode) := by
  have hcache := isCache_cacheOf linkedNodes (by decide +kernel)
  have hleft := gives_reached (m := ⟨cacheOf linkedNodes, []⟩) hcache List.not_mem_nil false false
  have hnamed : (cacheOf linkedNodes).Named := named_of_nodes (by decide +kernel)
  have hreach := Program.reaches_run cacheHost (fun _ => True)
    (ExceptT.run (clean cacheEnvironment cacheSettings [] false false)) ⟨cacheOf linkedNodes, []⟩
  obtain ⟨_, houtside, _⟩ := clean_stays_in_cache isReal_linkedNodes hnamed [] false false hreach
  refine ⟨?_, houtside [Utf8.encode "x".toList] (by decide)⟩
  unfold Gives at hleft
  rw [hleft]
  exact (by decide +kernel : ((cleaner cacheEnvironment cacheSettings false).left
    cacheEnvironment.cwd cacheTop (cacheOf linkedNodes) (reached [] false)).at? linkedEntry = none)

end Tool
end ScriptDeps
