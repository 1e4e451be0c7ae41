import ScriptDeps.Proofs.Clean.Listing
import ScriptDeps.Proofs.Clean.Small
import ScriptDeps.Proofs.Store.Markers

/-! # The markers as a map

    The markers of a store are a map from scripts to the entries that they use
    last.  Calls that make markers, one after the other, leave the map in which
    each script has the hash of its last call (`exists_run_writeMarkers`), and a
    listing shows this map in the order of the names (`markers_hold_last_hash`).
    A script whose marker the system refuses is not in it. -/

namespace ScriptDeps

open FileSystem

namespace Store

variable {s : Store} {cwd top loc : Location} {fs fs' : FileSystem} {n : Name} {hash : Text}
  {h : Host} {m : Machine} {i : Identity} {calls : List (Identity × Text)}

/-! ## Section 1: Model -/

/-- Makes a marker for each of the calls, in order. -/
def writeMarkers (s : Store) (calls : List (Identity × Text)) : Action PUnit :=
  calls.forM fun call => s.writeMarker call.1 call.2

/-- The calls whose markers can be made. -/
def taken (top : Location) (fs : FileSystem) (calls : List (Identity × Text)) :
    List (Identity × Text) :=
  calls.filter fun call => Takes top fs (Utf8.encode call.1.markerName)

/-- The hash of the last call for a script. -/
def lastHash (calls : List (Identity × Text)) (i : Identity) : Option Text :=
  calls.reverse.lookup i

/-- What calls have made of the files `fs`. -/
structure Written (s : Store) (cwd top : Location) (calls : List (Identity × Text))
    (fs fs' : FileSystem) : Prop where
  markable : s.IsMarkable cwd top fs'
  links    : ∀ i hash, lastHash calls i = some hash →
    LinksTo fs' top (Utf8.encode i.markerName) hash
  others   : ∀ j : Item, (∀ call ∈ calls, j ≠ .marker (Utf8.encode call.1.markerName)) →
    fs'.at? (j.loc top) = fs.at? (j.loc top)

/-- The marker that a look at a name shows, be it a link or not. -/
def shownAt (s : Store) (cwd top : Location) (fs : FileSystem) (n : Name) : Marker :=
  match fs.at? ((Item.marker n).loc top) with
  | some (.link target) => ⟨s.markers.child n, target.fileName?.map Utf8.decodeLossy,
      fs.isPresent cwd (s.markers.join target)⟩
  | _ => ⟨s.markers.child n, none, false⟩

/-- What is listed after calls, given what was listed before and whether an
    entry is there. -/
structure Lists (s : Store) (live : Text → Bool) (calls : List (Identity × Text))
    (before after : List Marker) : Prop where
  /-- Every marker is listed once, in the order of the paths. -/
  sorted  : after.Pairwise fun a b => a.path.bytes < b.path.bytes
  /-- Each script that was written has the marker of its last call, and no other. -/
  written : ∀ mk, (mk ∈ after ∧ ∃ call ∈ calls, mk.path = s.markerPath call.1) ↔
    ∃ i hash, lastHash calls i = some hash ∧ mk = ⟨s.markerPath i, some hash, live hash⟩
  /-- Whatever else is listed names what it named before. -/
  others  : ∀ path hash, (∀ call ∈ calls, path ≠ s.markerPath call.1) →
    ((∃ b, ⟨path, hash, b⟩ ∈ after) ↔ ∃ b, ⟨path, hash, b⟩ ∈ before)

/-! ## Section 2: Last calls -/

theorem lastHash_cons (call : Identity × Text) (calls : List (Identity × Text)) (i : Identity) :
    lastHash (call :: calls) i =
      (lastHash calls i).or (if i = call.1 then some call.2 else none) := by
  unfold lastHash
  rw [List.reverse_cons, List.lookup_append, List.lookup_cons, List.lookup_nil]
  by_cases hi : i = call.1
  · simp [hi]
  · have hne : (i == call.1) = false := beq_eq_false_iff_ne.2 hi
    simp [hi, hne]

theorem mem_of_lastHash (hlast : lastHash calls i = some hash) : (i, hash) ∈ calls := by
  obtain ⟨front, back, hcalls, _⟩ := List.lookup_eq_some_iff.1 hlast
  rw [← List.mem_reverse, hcalls]
  simp

theorem exists_lastHash {call : Identity × Text} (hcall : call ∈ calls) :
    ∃ hash, lastHash calls call.1 = some hash := by
  have hfound : (calls.reverse.lookup call.1).isSome :=
    List.lookup_isSome_iff.2 ⟨call, List.mem_reverse.2 hcall, beq_self_eq_true _⟩
  exact Option.isSome_iff_exists.1 hfound

/-! ## Section 3: Runs of calls -/

/-- A call makes no difference to which markers can be made. -/
theorem takes_iff_of_call (honly : s.OnlyMarker cwd top n fs fs')
    (hown : if Takes top fs n then LinksTo fs' top n hash
      else fs'.at? ((Item.marker n).loc top) = fs.at? ((Item.marker n).loc top)) (k : Name) :
    Takes top fs' k ↔ Takes top fs k := by
  have hsame : fs'.at? ((Item.marker k).loc top) = fs.at? ((Item.marker k).loc top) →
      (Takes top fs' k ↔ Takes top fs k) := by
    intro hsame
    unfold Takes
    rw [hsame]
  by_cases hk : k = n
  · subst hk
    by_cases htakes : Takes top fs k
    · rw [if_pos htakes] at hown
      simp only [htakes, iff_true]
      exact ⟨htakes.1, by rw [hown]; simp⟩
    · rw [if_neg htakes] at hown
      exact hsame hown
  · exact hsame (honly.item (by simpa using hk))

/-- A call before others: its marker stays unless one of them is for the same
    script. -/
theorem Written.cons {call : Identity × Text} {fs₁ : FileSystem}
    (hcalls : ∀ c ∈ call :: calls, c.1.IsOfScript)
    (honly : s.OnlyMarker cwd top (Utf8.encode call.1.markerName) fs fs₁)
    (hlink : LinksTo fs₁ top (Utf8.encode call.1.markerName) call.2)
    (hrest : s.Written cwd top calls fs₁ fs') : s.Written cwd top (call :: calls) fs fs' := by
  refine ⟨hrest.markable, ?_, ?_⟩
  · intro i hash hlast
    rw [lastHash_cons] at hlast
    cases hlater : lastHash calls i with
    | some later =>
      rw [hlater, Option.some_or] at hlast
      cases hlast
      exact hrest.links i _ hlater
    | none =>
      rw [hlater, Option.none_or] at hlast
      split at hlast
      · next hi =>
        subst hi
        cases hlast
        show fs'.at? _ = _
        rw [hrest.others, hlink]
        -- Names that are the same would be those of one script, which has no later call.
        intro c hc hname
        have hsame := Identity.markerName_injective (hcalls call (List.mem_cons_self ..))
          (hcalls c (List.mem_cons_of_mem _ hc)) (Utf8.encode_injective (Item.marker.inj hname))
        obtain ⟨later, hfound⟩ := exists_lastHash hc
        rw [← hsame, hlater] at hfound
        cases hfound
      · cases hlast
  · intro j hj
    rw [hrest.others j fun c hc => hj c (List.mem_cons_of_mem _ hc)]
    exact honly.item (hj call (List.mem_cons_self ..))

/-- A call whose marker is refused leaves everything to the calls after it. -/
theorem Written.of_refused {call : Identity × Text} {fs₁ : FileSystem}
    (honly : s.OnlyMarker cwd top (Utf8.encode call.1.markerName) fs fs₁)
    (hown : fs₁.at? ((Item.marker (Utf8.encode call.1.markerName)).loc top) =
      fs.at? ((Item.marker (Utf8.encode call.1.markerName)).loc top))
    (hrest : s.Written cwd top calls fs₁ fs') : s.Written cwd top calls fs fs' := by
  refine ⟨hrest.markable, hrest.links, ?_⟩
  intro j hj
  rw [hrest.others j hj]
  by_cases hjn : j = .marker (Utf8.encode call.1.markerName)
  · rw [hjn, hown]
  · exact honly.item hjn

/-- Calls leave the markers of the last ones among them. -/
theorem exists_run_writeMarkers (hfs : s.IsMarkable h.cwd top m.files)
    (hcalls : ∀ call ∈ calls, call.1.IsOfScript ∧ Path.IsEntryName (Utf8.encode call.2)) :
    ∃ m', (s.writeMarkers calls).run h m = (.ok (), m') ∧
      s.Written h.cwd top (taken top m.files calls) m.files m'.files := by
  -- A call changes only its own marker, so the same later calls are taken after it.
  induction calls generalizing m with
  | nil =>
    refine ⟨m, rfl, hfs, ?_, fun _ _ => rfl⟩
    intro i hash hlast
    cases hlast
  | cons call calls ih =>
    obtain ⟨hi, hhash⟩ := hcalls call (List.mem_cons_self ..)
    obtain ⟨m₁, hrun₁, honly, hown⟩ := exists_run_writeMarker hfs hi hhash
    obtain ⟨m', hrun, hrest⟩ :=
      ih honly.markable fun c hc => hcalls c (List.mem_cons_of_mem _ hc)
    have htaken : taken top m₁.files calls = taken top m.files calls := by
      apply List.filter_congr
      intro c _
      simp only [takes_iff_of_call honly hown]
    rw [htaken] at hrest
    refine ⟨m', ?_, ?_⟩
    · show ((s.writeMarker call.1 call.2) >>= fun _ => s.writeMarkers calls).run h m = _
      rw [Action.run_bind_ok hrun₁, hrun]
    · unfold taken
      rw [List.filter_cons]
      by_cases htakes : Takes top m.files (Utf8.encode call.1.markerName)
      · rw [if_pos htakes] at hown
        rw [if_pos (decide_eq_true htakes)]
        refine hrest.cons ?_ honly hown
        intro c hc
        rcases List.mem_cons.1 hc with rfl | hc
        · exact hi
        · exact (hcalls c (List.mem_cons_of_mem _ (List.mem_filter.1 hc).1)).1
      · rw [if_neg htakes] at hown
        rw [if_neg (by simpa using htakes)]
        exact hrest.of_refused honly hown

/-! ## Section 4: Listing -/

/-- Two ways to one directory: what is below it is there on both, or on neither. -/
theorem isPresent_grandchild {p q : Path} {links : Nat} {f : Name}
    (hp : Route fs linkLimit cwd p.components links loc)
    (hq : Route fs linkLimit cwd q.components links loc) (hf : Path.IsPlainName f)
    (hn : Path.IsPlainName n) (hpfits : ((p.child f).child n).Fits)
    (hqfits : ((q.child f).child n).Fits) :
    fs.isPresent cwd ((p.child f).child n) = fs.isPresent cwd ((q.child f).child n) := by
  have hsteps : ∀ r : Path, ((r.child f).child n).steps = r.components ++ [.name f, .name n] := by
    intro r
    rw [Path.steps_child _ hn, Path.components_child _ hf, List.append_assoc]
    rfl
  unfold isPresent FileSystem.findNode
  rw [find_eq_walk hpfits, find_eq_walk hqfits, hsteps, hsteps,
    hp.walk_append true (List.cons_ne_nil _ _), hq.walk_append true (List.cons_ne_nil _ _)]

/-- From the directory of the markers the target of one goes to the entry. -/
theorem IsMarkable.isPresent_target (hfs : s.IsMarkable cwd top fs)
    (hdir : fs.at? (top ++ [markersName]) = some .directory)
    (hhash : Path.IsEntryName (Utf8.encode hash)) :
    fs.isPresent cwd (s.markers.join (markerTarget hash)) = fs.isPresent cwd (s.entry hash) := by
  obtain ⟨links, hroute⟩ := (hfs.stands hdir).leads_root
  have hup : Route fs linkLimit cwd
      (⟨s.markers.bytes ++ Path.slash :: Path.upName⟩ : Path).components links top := by
    have hback : Route fs links (top ++ [markersName]) [.up] links top := by
      have hnil : Route fs links (top ++ [markersName]).dropLast [] links top := by
        rw [List.dropLast_concat]
        exact .nil links top
      exact .up hnil
    rw [Path.components_append_slash _ _ (bytes_markers_ne_nil s)]
    have hmarkers : Route fs linkLimit cwd s.markers.components links (top ++ [markersName]) := by
      rw [components_markers]
      exact hroute.append (.enter isEntryName_markersName.2.2 hdir (.nil _ _))
    exact hmarkers.append hback
  have hentry : (s.entry hash).Fits := by
    have hroom : s.entries.HasRoom 272 :=
      Path.HasRoom.child (hfs.room.mono (by decide)) isEntryName_storeName
    have hlength : (Utf8.encode hash).length ≤ 255 := hhash.2.2
    exact (hroom.mono (by omega)).fits_child hhash
  rw [markers_join_markerTarget hhash.1]
  exact isPresent_grandchild hup hroute isEntryName_storeName.1 hhash.1
    (fits_target hfs.room hhash) hentry

theorem IsMarkable.list (hfs : s.IsMarkable cwd top fs) :
    fs.list cwd s.markers =
      if fs.at? (top ++ [markersName]) = none then .error .noEntry
      else .ok (markerNames fs top) := by
  have hfits : s.markers.Fits := by
    have hroom : s.root.HasRoom (markersName.length + 1 + 0) := hfs.room.mono (by decide)
    exact hroom.fits_child isEntryName_markersName
  rcases hfs.folder with hnone | hdir
  · have hfind : fs.findNode cwd true s.markers = .error .noEntry := by
      rcases hfs.located with habsent | hstands
      · exact habsent.findNode_folder isEntryName_markersName hfits true
      · show fs.findNode cwd true (s.root.child markersName) = _
        rw [findNode_child hstands.leads_root isEntryName_markersName hfits true]
        · rw [hnone]
        · intro _ target hlink
          rw [hnone] at hlink
          cases hlink
    rw [if_pos hnone, FileSystem.list, hfind]
  · rw [if_neg (by simp [hdir]), FileSystem.list, (hfs.leads hdir).findNode hfits hdir]
    rfl

theorem IsMarkable.isEntryName (hfs : s.IsMarkable cwd top fs) (hn : n ∈ markerNames fs top) :
    Path.IsEntryName n :=
  hfs.names n (mem_markerNames.1 hn)

theorem run_readMarker_shownAt (hfs : s.IsMarkable h.cwd top m.files)
    (hn : n ∈ markerNames m.files top) :
    (s.readMarker (s.markers.child n)).run h m = (.ok (s.shownAt h.cwd top m.files n), m) := by
  have hname := hfs.isEntryName hn
  obtain ⟨node, hnode⟩ := Option.isSome_iff_exists.1 (mem_markerNames.1 hn)
  have hdir : m.files.at? (top ++ [markersName]) = some .directory := by
    apply hfs.tree.isTree.wellFormed _ n
    rw [← loc_marker, hnode]
    rfl
  have hfind := findNode_child (hfs.leads hdir) hname (hfs.fits_marker hname) false (by simp)
  rw [← loc_marker, hnode] at hfind
  have hask : (Action.ask (.readLink (s.markers.child n))).run h m =
      (.ok (m.files.readLink h.cwd (s.markers.child n)), m) := rfl
  unfold readMarker shownAt
  rw [Action.run_bind_ok hask, hnode, FileSystem.readLink, hfind]
  cases node with
  | link target => rfl
  | _ => rfl

theorem run_listMarkers_shownAt (hfs : s.IsMarkable h.cwd top m.files) :
    s.listMarkers.run h m =
      (.ok ((markerNames m.files top).map (s.shownAt h.cwd top m.files)), m) := by
  have hlist : (listDirectory s.markers).run h m =
      (.ok ((markerNames m.files top).map s.markers.child), m) := by
    have hask : (Action.ask (.list s.markers)).run h m =
        (.ok (m.files.list h.cwd s.markers), m) := rfl
    unfold listDirectory
    rw [Action.run_bind_ok hask, hfs.list]
    by_cases hnone : m.files.at? (top ++ [markersName]) = none
    · have hnil : markerNames m.files top = [] :=
        sortedNames_eq_nil hfs.tree.isTree.wellFormed (by simp [hnone])
      rw [if_pos hnone, hnil]
      rfl
    · rw [if_neg hnone]
      rfl
  have hreads := run_mapM (f := fun n => s.readMarker (s.markers.child n)) fun n hn =>
    run_readMarker_shownAt hfs hn
  unfold listMarkers
  rw [Action.run_bind_ok hlist, List.mapM_map]
  exact hreads

theorem shownAt_path (s : Store) (cwd top : Location) (fs : FileSystem) (n : Name) :
    (s.shownAt cwd top fs n).path = s.markers.child n := by
  unfold shownAt
  split <;> rfl

theorem shownAt_hash (s : Store) (cwd top : Location) (fs : FileSystem) (n : Name) :
    (s.shownAt cwd top fs n).hash = linked? fs top n := by
  unfold shownAt linked?
  cases fs.at? ((Item.marker n).loc top) with
  | none => rfl
  | some node => cases node <;> rfl

theorem shownAt_of_linksTo (hfs : s.IsMarkable cwd top fs) (hlink : LinksTo fs top n hash)
    (hhash : Path.IsEntryName (Utf8.encode hash)) :
    s.shownAt cwd top fs n = ⟨s.markers.child n, some hash, fs.isPresent cwd (s.entry hash)⟩ := by
  have hdir : fs.at? (top ++ [markersName]) = some .directory := by
    apply hfs.tree.isTree.wellFormed _ n
    rw [← loc_marker, hlink]
    rfl
  unfold shownAt
  rw [hlink]
  dsimp only
  rw [fileName?_markerTarget hhash.1, Option.map_some, Utf8.decodeLossy_encode,
    hfs.isPresent_target hdir hhash]

theorem child_markers_inj {k : Name} (hn : Path.IsPlainName n) (hk : Path.IsPlainName k)
    (h : s.markers.child n = s.markers.child k) : n = k := by
  have hitem : Item.marker n = .marker k := path_inj hn hk h
  exact Item.marker.inj hitem

/-- The paths of markers differ in their last name only, and are in its order. -/
theorem pairwise_shownAt (hfs : s.IsMarkable cwd top fs) :
    ((markerNames fs top).map (s.shownAt cwd top fs)).Pairwise fun a b =>
      a.path.bytes < b.path.bytes := by
  have hlast : s.markers.bytes.getLast? ≠ some Path.slash :=
    Path.getLast?_bytes_child s.root isEntryName_markersName.1
  have hbytes : ∀ n ∈ markerNames fs top,
      (s.shownAt cwd top fs n).path.bytes = s.markers.bytes ++ Path.slash :: n := by
    intro n hn
    rw [shownAt_path, child_eq_append (bytes_markers_ne_nil s) hlast (hfs.isEntryName hn).1]
  rw [List.pairwise_map]
  apply (hfs.tree.isTree.pairwise_lt_sortedNames _).imp_of_mem
  intro a b ha hb hlt
  rw [hbytes a ha, hbytes b hb]
  exact List.append_left_lt (List.cons_lt_cons_self.2 hlt)

/-- What is listed of a path, but for whether the entry is there. -/
theorem exists_mem_shown_iff {path : Path} {hash : Option Text} :
    (∃ b, ⟨path, hash, b⟩ ∈ (markerNames fs top).map (s.shownAt cwd top fs)) ↔
      ∃ n ∈ markerNames fs top, path = s.markers.child n ∧ hash = linked? fs top n := by
  constructor
  · intro ⟨b, hmem⟩
    obtain ⟨n, hn, hshown⟩ := List.mem_map.1 hmem
    refine ⟨n, hn, ?_, ?_⟩
    · rw [← shownAt_path, hshown]
    · rw [← shownAt_hash, hshown]
  · intro ⟨n, hn, hpath, hhash⟩
    refine ⟨(s.shownAt cwd top fs n).live, List.mem_map.2 ⟨n, hn, ?_⟩⟩
    rw [hpath, hhash, ← shownAt_path s cwd top fs, ← shownAt_hash s cwd top fs]

/-- What is written is listed. -/
theorem Written.lists
    (hcalls : ∀ call ∈ calls, call.1.IsOfScript ∧ Path.IsEntryName (Utf8.encode call.2))
    (hwritten : s.Written cwd top calls fs fs') :
    s.Lists (fun hash => fs'.isPresent cwd (s.entry hash)) calls
      ((markerNames fs top).map (s.shownAt cwd top fs))
      ((markerNames fs' top).map (s.shownAt cwd top fs')) := by
  have hshown : ∀ i hash, lastHash calls i = some hash →
      s.shownAt cwd top fs' (Utf8.encode i.markerName) =
        ⟨s.markerPath i, some hash, fs'.isPresent cwd (s.entry hash)⟩ := fun i hash hlast =>
    shownAt_of_linksTo hwritten.markable (hwritten.links i hash hlast)
      (hcalls _ (mem_of_lastHash hlast)).2
  refine ⟨pairwise_shownAt hwritten.markable, ?_, ?_⟩
  · intro mk
    constructor
    · intro ⟨hmk, call, hcall, hpath⟩
      obtain ⟨n, hn, rfl⟩ := List.mem_map.1 hmk
      rw [shownAt_path] at hpath
      have hname := child_markers_inj (hwritten.markable.isEntryName hn).1
        (hcalls call hcall).1.isPlainName hpath
      obtain ⟨hash, hlast⟩ := exists_lastHash hcall
      refine ⟨call.1, hash, hlast, ?_⟩
      rw [hname, hshown _ _ hlast]
    · intro ⟨i, hash, hlast, hmk⟩
      rw [hmk, ← hshown i hash hlast]
      refine ⟨List.mem_map_of_mem ?_, (i, hash), mem_of_lastHash hlast, shownAt_path ..⟩
      exact mem_markerNames_of_linksTo (hwritten.links i hash hlast)
  · intro path hash hother
    rw [exists_mem_shown_iff, exists_mem_shown_iff]
    -- At the names of other markers nothing has changed.
    have hsame : ∀ n, path = s.markers.child n →
        fs'.at? ((Item.marker n).loc top) = fs.at? ((Item.marker n).loc top) := by
      intro n hpath
      apply hwritten.others
      intro call hcall heq
      apply hother call hcall
      rw [hpath, Item.marker.inj heq]
      rfl
    apply exists_congr
    intro n
    by_cases hpath : path = s.markers.child n
    · unfold linked?
      rw [mem_markerNames, mem_markerNames, hsame n hpath]
    · simp [hpath]

/-! ## Section 5: The map -/

/-- Markers hold the last hash of each script.  After any calls a listing shows, in
    order, one marker for each script whose marker can be made, with the hash of its
    last call, and it is live if the entry is there; scripts that differ have markers
    that differ.  A call does not fail, whatever the system refuses it, and at no
    moment is another item of the store touched. -/
theorem markers_hold_last_hash (hfs : s.IsMarkable h.cwd top m.files)
    (hcalls : ∀ call ∈ calls, call.1.IsOfScript ∧ Path.IsEntryName (Utf8.encode call.2)) :
    (∃ m' before after, s.listMarkers.run h m = (.ok before, m) ∧
      (s.writeMarkers calls).run h m = (.ok (), m') ∧ s.listMarkers.run h m' = (.ok after, m') ∧
      s.Lists (fun hash => m'.files.isPresent h.cwd (s.entry hash)) (taken top m.files calls)
        before after) ∧
    (∀ i j : Identity, i.IsOfScript → j.IsOfScript → i.markerName = j.markerName → i = j) ∧
    ∀ (F : Request → Prop) (i : Identity) (hash : Text) (p : Program (Except Failure PUnit))
      (fs' : FileSystem), i.IsOfScript →
      Program.Reaches (.faulty h F) (ExceptT.run (s.writeMarker i hash)) m.files p fs' →
      (∀ x, p = .done x → x = .ok ()) ∧
        ∀ j : Item, j ≠ .marker (Utf8.encode i.markerName) →
          fs'.at? (j.loc top) = m.files.at? (j.loc top) := by
  refine ⟨?_, ?_, ?_⟩
  · obtain ⟨m', hrun, hwritten⟩ := exists_run_writeMarkers hfs hcalls
    refine ⟨m', _, _, run_listMarkers_shownAt hfs, hrun,
      run_listMarkers_shownAt hwritten.markable, hwritten.lists ?_⟩
    intro call hcall
    exact hcalls call (List.mem_filter.1 hcall).1
  · intro i j hi hj hname
    exact Identity.markerName_injective hi hj hname
  · intro F i hash p fs' hi hreach
    refine ⟨?_, fun j hj => (onlyMarker_of_reaches hfs hi hreach).item hj⟩
    rintro x rfl
    exact (gives_writeMarker s i hash).of_reaches hreach

/-! ## Section 6: Small stores -/

theorem IsCache.isMarkable (hc : s.IsCache cwd top fs) (hcwd : fs.at? cwd = some .directory) :
    s.IsMarkable cwd top fs :=
  ⟨⟨hc.tree, hcwd⟩, hc.located, hc.room, hc.folders _ (by simp), fun n hn =>
    (hc.markers n _ (Option.some_get hn).symm).1⟩

end Store

namespace Tool

open Store

/-- A machine with an empty cache. -/
def emptyCache : Machine := ⟨cacheOf [], []⟩

theorem isMarkable_emptyCache :
    (store cacheEnvironment cacheSettings).IsMarkable cacheHost.cwd cacheTop emptyCache.files :=
  (isCache_cacheOf [] (by decide)).isMarkable (by decide)

/-- A script that is piped in twice, and one that is given on the command line with the
    same content as the first. -/
def pipedCalls : List (Identity × Text) :=
  [(.stdin (List.replicate 64 '0'), "k".toList), (.inlined (List.replicate 64 '0'), "k".toList),
    (.stdin (List.replicate 64 '0'), "l".toList)]

/-- The script that is piped in has the marker of its second call. -/
theorem last_of_pipedCalls_listed :
    ∃ m' after, ((store cacheEnvironment cacheSettings).writeMarkers pipedCalls).run cacheHost
        emptyCache = (.ok (), m') ∧
      (store cacheEnvironment cacheSettings).listMarkers.run cacheHost m' = (.ok after, m') ∧
      ⟨(store cacheEnvironment cacheSettings).markerPath (.stdin (List.replicate 64 '0')),
        some "l".toList, m'.files.isPresent cacheHost.cwd
          ((store cacheEnvironment cacheSettings).entry "l".toList)⟩ ∈ after := by
  have hscripts : ∀ call ∈ pipedCalls,
      call.1.IsOfScript ∧ Path.IsEntryName (Utf8.encode call.2) := by
    have hdigits : Identity.IsDiscriminator (List.replicate 64 '0') := by
      refine ⟨List.length_replicate, fun c hc => ?_⟩
      rw [List.eq_of_mem_replicate hc]
      rfl
    simp only [pipedCalls, List.mem_cons, List.not_mem_nil, or_false, forall_eq_or_imp, forall_eq]
    exact ⟨⟨.stdin hdigits, by decide⟩, ⟨.inlined hdigits, by decide⟩, .stdin hdigits, by decide⟩
  have hlast : lastHash (taken cacheTop emptyCache.files pipedCalls)
      (.stdin (List.replicate 64 '0')) = some "l".toList := by decide +kernel
  obtain ⟨⟨m', before, after, _, hrun, hlist, hlists⟩, _⟩ :=
    markers_hold_last_hash isMarkable_emptyCache hscripts
  exact ⟨m', after, hrun, hlist, ((hlists.written _).2 ⟨_, _, hlast, rfl⟩).1⟩

/-- A script whose stem is as long as 200 letters. -/
def longScript : Path := ⟨Utf8.encode ('/' :: List.replicate 200 'a' ++ ".swift".toList)⟩

set_option maxRecDepth 4000 in
theorem not_takes_longScript (top : Location) (fs : FileSystem) :
    ¬ Takes top fs (Utf8.encode (Identity.ofPath longScript).markerName) := by
  intro htakes
  have hname : (Utf8.encode (Identity.ofPath longScript).name).length = 200 := by
    rw [Identity.ofPath_name]
    decide +kernel
  have hdigest : (Utf8.encode (Identity.ofPath longScript).discriminator).length = 64 := by
    rw [Identity.ofPath_discriminator, length_encode_hex (isHex_sha256Hex _), length_sha256Hex]
  have hle : (Utf8.encode (Identity.ofPath longScript).markerName).length ≤ 255 := htakes.1.2.2
  have hlength := Identity.length_encode_markerName (.ofPath longScript)
  omega

/-- A call for a script with a name that is too long succeeds, and leaves no marker. -/
theorem long_name_not_listed :
    ∃ m', (Identity.ofPath longScript).IsOfScript ∧ Path.IsEntryName (Utf8.encode "k".toList) ∧
      (store cacheEnvironment cacheSettings).IsMarkable cacheHost.cwd cacheTop emptyCache.files ∧
      lastHash [(.ofPath longScript, "k".toList)] (.ofPath longScript) = some "k".toList ∧
      ((store cacheEnvironment cacheSettings).writeMarkers
        [(.ofPath longScript, "k".toList)]).run cacheHost emptyCache = (.ok (), m') ∧
      (store cacheEnvironment cacheSettings).listMarkers.run cacheHost m' = (.ok [], m') := by
  have hscript : (Identity.ofPath longScript).IsOfScript := .file (by decide +kernel)
  have hhash : Path.IsEntryName (Utf8.encode "k".toList) := by decide
  have hcalls : ∀ call ∈ [(Identity.ofPath longScript, "k".toList)],
      call.1.IsOfScript ∧ Path.IsEntryName (Utf8.encode call.2) := by
    intro call hcall
    rw [List.mem_singleton.1 hcall]
    exact ⟨hscript, hhash⟩
  obtain ⟨m', hrun, hwritten⟩ := exists_run_writeMarkers isMarkable_emptyCache hcalls
  have hnone : taken cacheTop emptyCache.files [(Identity.ofPath longScript, "k".toList)] = [] := by
    simp [taken, not_takes_longScript]
  rw [hnone] at hwritten
  have hnames : markerNames m'.files cacheTop = [] := by
    rw [List.eq_nil_iff_forall_not_mem]
    intro n hn
    -- The cache had no markers, and there is no call that could have made one.
    rw [mem_markerNames, hwritten.others (.marker n) nofun, ← mem_markerNames] at hn
    have hempty : emptyCache.files.names (cacheTop ++ [markersName]) = [] := by decide +kernel
    rw [markerNames, sortedNames, List.mem_mergeSort, hempty] at hn
    cases hn
  refine ⟨m', hscript, hhash, isMarkable_emptyCache, ?_, hrun, ?_⟩
  · simp [lastHash]
  · rw [run_listMarkers_shownAt hwritten.markable, hnames]
    rfl

end Tool
end ScriptDeps
