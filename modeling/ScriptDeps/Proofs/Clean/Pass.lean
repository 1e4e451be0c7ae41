import ScriptDeps.Proofs.Clean.Listing
import ScriptDeps.Tool.Clean

/-! # Targets of a clean-up

    A target strikes items: markers, told by their names, or what no script
    needs.  A clean-up says a line for each item that is struck, counts it,
    and takes it away unless it is a dry run (`run_target`); so a list of
    targets leaves what `left` says and reports what `notices` says
    (`run_targets`). -/

namespace ScriptDeps

open FileSystem

variable {s : Store} {top : Location} {fs : FileSystem} {i : Item} {n : Name}
  {is : List Item} {h : Host} {m : Machine}

/-! ## Section 1: Removing a path -/

/-- The size that is reported of a path at which `node` is. -/
def FileSystem.sizeAt (fs : FileSystem) (cwd : Location) (p : Path) (node : Node) : Nat :=
  if node.isDirectory then fs.diskUsage cwd p else 0

theorem Store.run_status {p : Path} {loc : Location} {node : Node}
    (hfind : m.files.findNode h.cwd false p = .ok (loc, node)) :
    (Action.ask (.status p false)).run h m = (.ok (.ok (Machine.statusOf node)), m) := by
  rw [Action.run_status, hfind]
  rfl

theorem Store.run_removePath (hwf : m.files.WellFormed) {p : Path} {loc : Location} {node : Node}
    (hfind : m.files.findNode h.cwd false p = .ok (loc, node)) :
    (Store.removePath p).run h m = (.ok true, { m with files := m.files.without [loc] }) := by
  unfold Store.removePath
  rw [Action.run_bind_ok (Store.run_status hfind)]
  cases node with
  | directory =>
    have hremove : (Action.ask (.removeTree p)).run h m =
        (.ok (.ok ()), { m with files := m.files.without [loc] }) := by
      show (Except.ok (m.change (m.files.removeTree h.cwd p)).1, (m.change _).2) = _
      rw [removeTree_eq_without hfind]
      rfl
    exact Action.run_bind_ok hremove
  | _ =>
    have hremove : (Action.ask (.removeFile p)).run h m =
        (.ok (.ok ()), { m with files := m.files.without [loc] }) := by
      show (Except.ok (m.change (m.files.removeFile h.cwd p)).1, (m.change _).2) = _
      rw [removeFile_eq_without hwf hfind (by simp)]
      rfl
    exact Action.run_bind_ok hremove

/-- The size of an item is that of its regular files. -/
theorem Store.IsCache.sizeAt_item {cwd : Location} (hc : s.IsCache cwd top fs) {node : Node}
    (hnode : fs.at? (i.loc top) = some node) :
    fs.sizeAt cwd (i.path s) node = fs.bytesAt (i.loc top) := by
  cases i with
  | marker n =>
    obtain ⟨_, hash, rfl, _⟩ := hc.markers n node hnode
    rw [hc.tree.bytesAt_leaf (Item.loc_ne_nil top _) hnode (by simp)]
    rfl
  | entry n =>
    have husage := hc.diskUsage_entry hnode
    obtain ⟨rfl, _⟩ := hc.entries n node hnode
    exact husage

namespace Tool

/-- What a clean-up says about a path that it removes, or about a script that
    has no marker. -/
inductive Notice where
  | removed (p : Path) (size : Nat)
  | missing (script : Path)
deriving DecidableEq, Repr

namespace Clean

variable {c : Clean} {t : Tally} {cwd : Path}

/-- What is left once the items have been dealt with. -/
def keep (c : Clean) (top : Location) (fs : FileSystem) (is : List Item) : FileSystem :=
  if c.dryRun then fs else fs.without (is.map (Item.loc top))

def line (c : Clean) : Notice → Text
  | .removed p size => c.itemLine p size
  | .missing p => "No cache entry for " ++ p.display

/-- The tally after a notice. -/
def count (t : Tally) : Notice → Tally
  | .removed _ size => ⟨t.items + 1, t.bytes + size⟩
  | .missing _ => t

/-- The machine after items have been dealt with and notices given. -/
def after (c : Clean) (top : Location) (m : Machine) (is : List Item) (ns : List Notice) :
    Machine :=
  ⟨c.keep top m.files is, m.seen ++ ns.map fun n => .said (c.line n)⟩

/-- The notice about an item that is there. -/
def notice (s : Store) (top : Location) (fs : FileSystem) (i : Item) : Notice :=
  .removed (i.path s) (fs.bytesAt (i.loc top))

/-- Says that an item is gone, and counts it. -/
def announce (c : Clean) (t : Tally) (p : Path) (size : Nat) (gone : Bool) :
    Action (Bool × Tally) :=
  if gone then do
    Action.ask (.say (c.itemLine p size))
    return (true, ⟨t.items + 1, t.bytes + size⟩)
  else return (false, t)

/-- To remove is to measure, to take away, and to say so. -/
theorem remove_eq (c : Clean) (t : Tally) (p : Path) :
    c.remove t p = Action.ask (.status p false) >>= fun answer =>
      match answer with
      | .error _ => pure (false, t)
      | .ok status =>
          (if status.kind = .directory then Store.diskUsage p else pure 0) >>= fun size =>
            (if c.dryRun then pure true else Store.removePath p) >>= c.announce t p size := by
  unfold remove
  refine congrArg (Action.ask _ >>= ·) (funext fun answer => ?_)
  cases answer with
  | error e => rfl
  | ok status =>
    dsimp only
    split <;> split <;> rfl

/-- What is there is taken away, unless it is a dry run, and reported. -/
theorem run_remove_found (hwf : m.files.WellFormed) {p : Path} {loc : Location} {node : Node}
    (hfind : m.files.findNode h.cwd false p = .ok (loc, node)) :
    (c.remove t p).run h m =
      (.ok (true, count t (.removed p (m.files.sizeAt h.cwd p node))),
        ⟨if c.dryRun then m.files else m.files.without [loc],
          m.seen ++ [.said (c.line (.removed p (m.files.sizeAt h.cwd p node)))]⟩) := by
  have hsize : Action.run (if (Machine.statusOf node).kind = .directory
      then Store.diskUsage p else pure 0) h m = (.ok (m.files.sizeAt h.cwd p node), m) := by
    cases node <;> rfl
  have hgone : Action.run (if c.dryRun then pure true else Store.removePath p) h m =
      (.ok true, { m with files := if c.dryRun then m.files else m.files.without [loc] }) := by
    cases c.dryRun with
    | true => rfl
    | false => exact Store.run_removePath hwf hfind
  rw [remove_eq, Action.run_bind_ok (Store.run_status hfind)]
  dsimp only
  rw [Action.run_bind_ok hsize, Action.run_bind_ok hgone]
  rfl

/-- Where nothing is, nothing is reported. -/
theorem run_remove_nothing {p : Path} {e : IoError}
    (hfind : m.files.findNode h.cwd false p = .error e) :
    (c.remove t p).run h m = (.ok (false, t), m) := by
  have hstatus : (Action.ask (.status p false)).run h m = (.ok (.error e), m) := by
    rw [Action.run_status, hfind]
    rfl
  unfold remove
  rw [Action.run_bind_ok hstatus]
  rfl

theorem run_remove (hc : c.store.IsCache h.cwd top m.files)
    (hthere : (m.files.at? (i.loc top)).isSome) :
    (c.remove t (i.path c.store)).run h m =
      (.ok (true, count t (notice c.store top m.files i)),
        c.after top m [i] [notice c.store top m.files i]) := by
  obtain ⟨node, hnode⟩ := Option.isSome_iff_exists.1 hthere
  rw [run_remove_found hc.tree.wellFormed (hc.findNode_item hnode), hc.sizeAt_item hnode]
  rfl

theorem run_remove_missing (hc : c.store.IsCache h.cwd top m.files) (hn : Path.IsPlainName i.name)
    (hnone : m.files.at? (i.loc top) = none) :
    (c.remove t (i.path c.store)).run h m = (.ok (false, t), m) := by
  obtain ⟨e, hfind⟩ := hc.findNode_missing hn hnone
  exact run_remove_nothing hfind

/-! ## Section 2: Removing items -/

theorem keep_isCache (hc : c.store.IsCache h.cwd top fs) (is : List Item) :
    c.store.IsCache h.cwd top (c.keep top fs is) := by
  unfold keep
  split
  · exact hc
  · exact hc.without is

theorem keep_of_dry (hdry : c.dryRun = true) (is : List Item) : c.keep top fs is = fs := by
  rw [keep, hdry, if_pos rfl]

theorem keep_of_real (hreal : c.dryRun = false) (is : List Item) :
    c.keep top fs is = fs.without (is.map (Item.loc top)) := by
  rw [keep, hreal, if_neg Bool.false_ne_true]

theorem keep_nil : c.keep top fs [] = fs := by
  unfold keep
  rw [List.map_nil, without_nil, ite_self]

theorem keep_keep (is js : List Item) :
    c.keep top (c.keep top fs is) js = c.keep top fs (is ++ js) := by
  unfold keep
  split
  · rfl
  · rw [without_without, ← List.map_append]

/-- An item that is not dealt with stays, and keeps its size. -/
theorem at?_keep (hi : i ∉ is) : (c.keep top fs is).at? (i.loc top) = fs.at? (i.loc top) := by
  unfold keep
  split
  · rfl
  · exact at?_without_of_not (Item.isStruck_loc_eq_false.2 hi)

theorem notice_keep (hi : i ∉ is) : notice s top (c.keep top fs is) i = notice s top fs i := by
  unfold keep
  split
  · rfl
  · refine congrArg (Notice.removed _) (bytesAt_without_of_apart fun l hl => ?_)
    exact Item.isStruck_below_of_not hi hl

theorem after_after (m : Machine) (is js : List Item) (ns ms : List Notice) :
    c.after top (c.after top m is ns) js ms = c.after top m (is ++ js) (ns ++ ms) := by
  unfold after
  rw [keep_keep, List.append_assoc, ← List.map_append]

/-- Items that are there are dealt with one after the other. -/
theorem run_removeAll (hc : c.store.IsCache h.cwd top m.files) (hnodup : is.Nodup)
    (hthere : ∀ i ∈ is, (m.files.at? (i.loc top)).isSome) :
    (c.removeAll t (is.map (Item.path c.store))).run h m =
      (.ok ((is.map (notice c.store top m.files)).foldl count t),
        c.after top m is (is.map (notice c.store top m.files))) := by
  induction is generalizing m t with
  | nil =>
    have hsame : c.after top m [] [] = m := by
      rw [after, keep_nil, List.map_nil, List.append_nil]
    rw [List.map_nil, List.map_nil, hsame]
    rfl
  | cons i is ih =>
    obtain ⟨hi, hnodup⟩ := List.nodup_cons.1 hnodup
    -- What remains is not touched by the first removal.
    have hne : ∀ j ∈ is, j ∉ [i] := fun j hj hji => hi (List.mem_singleton.1 hji ▸ hj)
    have hnotices : is.map (notice c.store top (c.keep top m.files [i])) =
        is.map (notice c.store top m.files) :=
      List.map_congr_left fun j hj => notice_keep (hne j hj)
    have hrest := ih (m := c.after top m [i] [notice c.store top m.files i])
      (t := count t (notice c.store top m.files i)) (keep_isCache hc [i]) hnodup fun j hj => by
        show ((c.keep top m.files [i]).at? (j.loc top)).isSome
        rw [at?_keep (hne j hj)]
        exact hthere j (List.mem_cons_of_mem _ hj)
    have hfiles : (c.after top m [i] [notice c.store top m.files i]).files =
        c.keep top m.files [i] := rfl
    rw [after_after, hfiles, hnotices] at hrest
    rw [List.map_cons, removeAll,
      Action.run_bind_ok (run_remove hc (hthere i (List.mem_cons_self ..)))]
    exact hrest

end Clean

/-! ## Section 3: What a target strikes -/

namespace Target

/-- Whether a target strikes the marker `n` by its name. -/
def hits (cwd : Path) : Target → Name → Bool
  | script p, n =>
      match p.absolute cwd with
      | .ok full => n = Utf8.encode (Identity.ofPath full).markerName
      | .error _ => false
  | ephemeral, n => Identity.isEphemeralName (Utf8.decodeLossy n)
  | unused, _ => false
  | all, _ => false

/-- The items that a target strikes, in order. -/
def struck (cwd : Path) (top : Location) (fs : FileSystem) (x : Target) : List Item :=
  if x = unused then
    ((Store.markerNames fs top).filter fun n => !Store.isLive fs top n).map .marker ++
      ((Store.entryNames fs top).filter fun n => !Store.isUsed fs top n).map .entry
  else ((Store.markerNames fs top).filter (x.hits cwd)).map .marker

/-- The notices that a target leads to. -/
def notices (s : Store) (cwd : Path) (top : Location) (fs : FileSystem) (x : Target) :
    List Notice :=
  match x, x.struck cwd top fs with
  | script p, [] => [.missing p]
  | _, is => is.map (Clean.notice s top fs)

theorem notices_of_missing {cwd : Path} {p : Path} (h : (script p).struck cwd top fs = []) :
    (script p).notices s cwd top fs = [.missing p] := by
  unfold notices
  rw [h]

theorem notices_of_struck {cwd : Path} {x : Target}
    (h : x.struck cwd top fs ≠ [] ∨ ∀ p, x ≠ script p) :
    x.notices s cwd top fs = (x.struck cwd top fs).map (Clean.notice s top fs) := by
  unfold notices
  split
  · next p hnil => exact absurd hnil (h.resolve_right fun hne => hne p rfl)
  · rfl

/-- Whether the path of a target has an absolute form. -/
def resolves : Target → Bool
  | script p => !p.bytes.isEmpty
  | _ => true

variable {x : Target} {cwd : Path}

theorem there_of_mem_struck (hi : i ∈ x.struck cwd top fs) : (fs.at? (i.loc top)).isSome := by
  unfold struck at hi
  split at hi
  · rcases List.mem_append.1 hi with hi | hi
    · obtain ⟨n, hn, rfl⟩ := List.mem_map.1 hi
      exact Store.mem_markerNames.1 (List.mem_filter.1 hn).1
    · obtain ⟨n, hn, rfl⟩ := List.mem_map.1 hi
      exact Store.mem_entryNames.1 (List.mem_filter.1 hn).1
  · obtain ⟨n, hn, rfl⟩ := List.mem_map.1 hi
    exact Store.mem_markerNames.1 (List.mem_filter.1 hn).1

theorem nodup_map_marker {ns : List Name} (h : ns.Nodup) : (ns.map Item.marker).Nodup :=
  List.Pairwise.map _ (fun _ _ hne heq => hne (Item.marker.inj heq)) h

theorem nodup_map_entry {ns : List Name} (h : ns.Nodup) : (ns.map Item.entry).Nodup :=
  List.Pairwise.map _ (fun _ _ hne heq => hne (Item.entry.inj heq)) h

theorem nodup_struck (h : fs.IsTree) (cwd : Path) (top : Location) (x : Target) :
    (x.struck cwd top fs).Nodup := by
  have hmarkers := h.nodup_sortedNames (top ++ [Store.markersName])
  have hentries := h.nodup_sortedNames (top ++ [Store.storeName])
  unfold struck
  split
  · refine List.nodup_append.2 ⟨nodup_map_marker (hmarkers.filter _),
      nodup_map_entry (hentries.filter _), ?_⟩
    rintro _ hi _ hj rfl
    obtain ⟨n, _, rfl⟩ := List.mem_map.1 hi
    obtain ⟨k, _, hk⟩ := List.mem_map.1 hj
    cases hk
  · exact nodup_map_marker (hmarkers.filter _)

theorem absolute_eq_ok {p : Path} (h : (script p).resolves = true) (cwd : Path) :
    ∃ full, p.absolute cwd = .ok full := by
  have hne : ¬ p.bytes.isEmpty = true := by simpa [resolves] using h
  unfold Path.absolute
  rw [if_neg hne]
  exact ⟨_, rfl⟩

/-- A script strikes its marker, if it has one. -/
theorem struck_script (h : fs.IsTree) (top : Location) {p full : Path}
    (hfull : p.absolute cwd = .ok full) :
    (script p).struck cwd top fs =
      if (fs.at? ((Item.marker (Utf8.encode (Identity.ofPath full).markerName)).loc top)).isSome
      then [.marker (Utf8.encode (Identity.ofPath full).markerName)] else [] := by
  generalize hk : Utf8.encode (Identity.ofPath full).markerName = k
  have hhits : (script p).hits cwd = (· == k) := by
    funext n
    unfold hits
    dsimp only
    rw [hfull, Bool.eq_iff_iff, ← hk]
    simp
  have hnodup : (Store.markerNames fs top).Nodup := h.nodup_sortedNames _
  unfold struck
  rw [if_neg (by simp), hhits, List.filter_beq, hnodup.count]
  by_cases hmem : k ∈ Store.markerNames fs top
  · rw [if_pos hmem, if_pos (Store.mem_markerNames.1 hmem)]
    rfl
  · rw [if_neg hmem, if_neg (mt Store.mem_markerNames.2 hmem)]
    rfl

end Target

/-! ## Section 4: Cleaning targets -/

namespace Clean

variable {c : Clean} {t : Tally} {cwd : Path} {x : Target} {xs : List Target}

theorem isPlainName_ofPath (full : Path) :
    Path.IsPlainName (Utf8.encode (Identity.ofPath full).markerName) :=
  Store.isPlainName_markerName ⟨.file, none, some full, full, none⟩ []

theorem markerPath_eq (s : Store) (i : Identity) :
    s.markerPath i = (Item.marker (Utf8.encode i.markerName)).path s := rfl

/-- The items that a target strikes are dealt with one after the other. -/
theorem run_struck (hc : c.store.IsCache h.cwd top m.files) (hx : ∀ p, x ≠ .script p) :
    (c.removeAll t ((x.struck cwd top m.files).map (Item.path c.store))).run h m =
      (.ok ((x.notices c.store cwd top m.files).foldl count t),
        c.after top m (x.struck cwd top m.files) (x.notices c.store cwd top m.files)) := by
  have hthere : ∀ i ∈ x.struck cwd top m.files, (m.files.at? (i.loc top)).isSome :=
    fun i hi => Target.there_of_mem_struck hi
  rw [Target.notices_of_struck (.inr hx)]
  exact run_removeAll hc (Target.nodup_struck hc.tree cwd top x) hthere

theorem run_target_ephemeral (hc : c.store.IsCache h.cwd top m.files) :
    (c.target cwd t .ephemeral).run h m =
      (.ok ((Target.ephemeral.notices c.store cwd top m.files).foldl count t),
        c.after top m (Target.ephemeral.struck cwd top m.files)
          (Target.ephemeral.notices c.store cwd top m.files)) := by
  -- The paths of the markers are the paths of the items that are struck.
  have hpaths : (((Store.markerNames m.files top).filter fun n =>
      Identity.isEphemeralMarker (c.store.markers.child n)).map
        (c.store.markerAt m.files top)).map (·.path) =
      (Target.ephemeral.struck cwd top m.files).map (Item.path c.store) := by
    rw [Target.struck, if_neg (by simp), List.map_map, List.map_map]
    refine congrArg _ (List.filter_congr fun n hn => ?_)
    obtain ⟨node, hnode⟩ := Option.isSome_iff_exists.1 (Store.mem_markerNames.1 hn)
    exact Store.isEphemeralMarker_path c.store (hc.isEntryName (i := .marker n) hnode).1
  rw [target, Action.run_bind_ok (Store.run_ephemeralMarkers hc), hpaths]
  exact run_struck hc (by simp)

theorem run_target_unused (hc : c.store.IsCache h.cwd top m.files) :
    (c.target cwd t .unused).run h m =
      (.ok ((Target.unused.notices c.store cwd top m.files).foldl count t),
        c.after top m (Target.unused.struck cwd top m.files)
          (Target.unused.notices c.store cwd top m.files)) := by
  -- Markers whose entry is gone come first, and then entries without a marker.
  have hpaths : ((Store.markerNames m.files top).filter fun n =>
      !Store.isLive m.files top n).map c.store.markers.child ++
      ((Store.entryNames m.files top).filter fun n =>
        !Store.isUsed m.files top n).map c.store.entries.child =
      (Target.unused.struck cwd top m.files).map (Item.path c.store) := by
    rw [Target.struck, if_pos rfl, List.map_append, List.map_map, List.map_map]
    rfl
  rw [target, Action.run_bind_ok (Store.run_unused hc), hpaths]
  exact run_struck hc (by simp)

theorem run_target_script (hc : c.store.IsCache h.cwd top m.files) {p : Path}
    (hp : (Target.script p).resolves = true) :
    (c.target cwd t (.script p)).run h m =
      (.ok (((Target.script p).notices c.store cwd top m.files).foldl count t),
        c.after top m ((Target.script p).struck cwd top m.files)
          ((Target.script p).notices c.store cwd top m.files)) := by
  obtain ⟨full, hfull⟩ := Target.absolute_eq_ok hp cwd
  have hstruck := Target.struck_script hc.tree top hfull
  have horfail : Action.run (Action.orFail (p.absolute cwd) fun e =>
      .io ("resolving " ++ p.display) e) h m = (.ok full, m) := by
    rw [hfull]
    rfl
  have hplain := isPlainName_ofPath full
  rw [target, Action.run_bind_ok horfail, markerPath_eq]
  generalize Utf8.encode (Identity.ofPath full).markerName = k at hstruck hplain
  by_cases hthere : (m.files.at? ((Item.marker k).loc top)).isSome
  · rw [if_pos hthere] at hstruck
    rw [Target.notices_of_struck (.inl (by rw [hstruck]; simp)), hstruck,
      Action.run_bind_ok (run_remove hc hthere)]
    rfl
  · -- Nothing is struck, and the script is named instead.
    rw [if_neg hthere] at hstruck
    rw [Target.notices_of_missing hstruck, hstruck,
      Action.run_bind_ok (run_remove_missing (i := .marker k) hc hplain (by simpa using hthere)),
      after, keep_nil]
    rfl

/-- Cleaning a target gives its notices and takes away what it strikes. -/
theorem run_target (hc : c.store.IsCache h.cwd top m.files) (hall : x ≠ .all)
    (hx : x.resolves = true) :
    (c.target cwd t x).run h m =
      (.ok ((x.notices c.store cwd top m.files).foldl count t),
        c.after top m (x.struck cwd top m.files) (x.notices c.store cwd top m.files)) := by
  cases x with
  | all => exact absurd rfl hall
  | ephemeral => exact run_target_ephemeral hc
  | unused => exact run_target_unused hc
  | script p => exact run_target_script hc hx

theorem run_target_error {p : Path} (hp : (Target.script p).resolves = false) (h : Host)
    (m : Machine) :
    (c.target cwd t (.script p)).run h m =
      (.error (.io ("resolving " ++ p.display) .emptyPath), m) := by
  have habsolute : p.absolute cwd = .error .emptyPath := by
    unfold Path.absolute
    rw [if_pos (by simpa [Target.resolves] using hp)]
  rw [target, habsolute]
  rfl

/-- The files that a list of targets leaves. -/
def left (c : Clean) (cwd : Path) (top : Location) (fs : FileSystem) : List Target → FileSystem
  | [] => fs
  | x :: xs => c.left cwd top (c.keep top fs (x.struck cwd top fs)) xs

/-- The notices that a list of targets leads to. -/
def notices (c : Clean) (cwd : Path) (top : Location) (fs : FileSystem) :
    List Target → List Notice
  | [] => []
  | x :: xs =>
      x.notices c.store cwd top fs ++ c.notices cwd top (c.keep top fs (x.struck cwd top fs)) xs

theorem left_isCache (hc : c.store.IsCache h.cwd top fs) (xs : List Target) :
    c.store.IsCache h.cwd top (c.left cwd top fs xs) := by
  induction xs generalizing fs with
  | nil => exact hc
  | cons x xs ih => exact ih (keep_isCache hc _)

/-- Targets are cleaned one after the other. -/
theorem run_targets_append (hc : c.store.IsCache h.cwd top m.files) (cwd : Path) (t : Tally)
    (hxs : ∀ x ∈ xs, x ≠ .all ∧ x.resolves = true) (ys : List Target) :
    (c.targets cwd t (xs ++ ys)).run h m =
      (c.targets cwd ((c.notices cwd top m.files xs).foldl count t) ys).run h
        ⟨c.left cwd top m.files xs,
          m.seen ++ (c.notices cwd top m.files xs).map fun n => .said (c.line n)⟩ := by
  induction xs generalizing t m with
  | nil => rw [notices, List.map_nil, List.append_nil]; rfl
  | cons x xs ih =>
    obtain ⟨hall, hx⟩ := hxs x (List.mem_cons_self ..)
    have hrest := ih (m := c.after top m (x.struck cwd top m.files)
      (x.notices c.store cwd top m.files)) (keep_isCache hc _)
      ((x.notices c.store cwd top m.files).foldl count t)
      fun y hy => hxs y (List.mem_cons_of_mem _ hy)
    rw [List.cons_append, targets, Action.run_bind_ok (run_target hc hall hx), hrest, notices,
      List.foldl_append, List.map_append, ← List.append_assoc]
    rfl

theorem run_targets (hc : c.store.IsCache h.cwd top m.files) (cwd : Path) (t : Tally)
    (hxs : ∀ x ∈ xs, x ≠ .all ∧ x.resolves = true) :
    (c.targets cwd t xs).run h m =
      (.ok ((c.notices cwd top m.files xs).foldl count t),
        ⟨c.left cwd top m.files xs,
          m.seen ++ (c.notices cwd top m.files xs).map fun n => .said (c.line n)⟩) := by
  have hrun := run_targets_append hc cwd t hxs []
  rw [List.append_nil] at hrun
  rw [hrun]
  rfl

theorem run_sayAll (ls : List Text) (h : Host) (m : Machine) :
    (sayAll ls).run h m = (.ok (), ⟨m.files, m.seen ++ ls.map .said⟩) := by
  induction ls generalizing m with
  | nil => rw [List.map_nil, List.append_nil]; rfl
  | cons l ls ih =>
    rw [sayAll, Action.run_bind_ok (Action.run_ask _ h m), ih]
    show (_, (⟨m.files, m.seen ++ [.said l] ++ ls.map .said⟩ : Machine)) = _
    rw [List.append_assoc]
    rfl

end Clean
end Tool
end ScriptDeps
