import ScriptDeps.Proofs.Courses
import ScriptDeps.Proofs.FileSystem.Landing
import ScriptDeps.Proofs.Prepare.Requests
import ScriptDeps.Proofs.Prepare.Stages

/-! # Stores that keep away from a directory

    What preparing a script asks for changes nothing in a directory into which
    no path of the store leads (`Store.Elsewhere.sameBelow`).  The paths of a
    store at an absolute path keep away from every directory that is neither
    above nor below its root, as long as no link is met on them
    (`IsClear.elsewhere`); and what commands ask for leaves the only links that
    they make where no path goes through (`IsClear.of_served`). -/

namespace ScriptDeps

open FileSystem

/-! ## Section 1: Model -/

/-- No program that is started changes anything at `dir` or below. -/
structure Host.Spares (h : Host) (dir : Location) : Prop where
  capture : ∀ call fs fs' events, h.capture call fs = .ok (fs', events) → SameBelow dir fs fs'
  execute : ∀ call input fs performance, h.execute call input fs = .ok performance →
    SameBelow dir fs performance.files

namespace Store

/-- The names of the files that are written in an entry. -/
def writtenNames : List Name := [manifestName, placeholderName, recordName]

/-- The paths of a store do not lead into `dir`. -/
structure Elsewhere (s : Store) (cwd dir : Location) (fs : FileSystem) : Prop where
  entries : ∀ (mf : Manifest) fs', fs.makeDirectories cwd (s.entry mf.hash) = .ok fs' →
    SameBelow dir fs fs'
  files   : ∀ (mf : Manifest), ∀ n ∈ writtenNames,
    fs.FoundOutside cwd dir true ((s.entry mf.hash).child n)
  markers : ∀ fs', fs.makeDirectories cwd s.markers = .ok fs' → SameBelow dir fs fs'
  links   : ∀ n, Path.IsPlainName n → fs.FoundOutside cwd dir false (s.markers.child n)

/-- `dir` is the directory for temporary files, and the store is elsewhere. -/
structure Apart (s : Store) (h : Host) (dir : Location) (fs : FileSystem) : Prop where
  way       : fs.Leads h.cwd h.temporary dir
  elsewhere : s.Elsewhere h.cwd dir fs

/-- A store at `top` and a directory `dir` at absolute paths, neither of them above the
    other. -/
structure IsBeside (s : Store) (p : Path) (top dir : Location) : Prop where
  root     : s.root.components = .root :: top.map .name
  path     : p.components = .root :: dir.map .name
  short    : ∀ n ∈ dir, n.length ≤ nameLimit
  notBelow : ¬ dir <+: top
  notAbove : ¬ top <+: dir

/-- The paths of a store at `top` go through `loc`. -/
def GoesThrough (top loc : Location) : Prop :=
  loc <+: top ++ [markersName] ∨ ∃ n, ∃ f ∈ writtenNames, loc <+: top ++ [storeName, n, f]

/-- No link is met on the paths of a store at `top`, and none on the way to `dir`, which
    is there. -/
structure IsClear (top dir : Location) (fs : FileSystem) : Prop where
  plain : ∀ loc, GoesThrough top loc → NoLink fs loc
  way   : ∀ loc, loc <+: dir → fs.at? loc = some .directory

end Store

/-- Programs that are started leave paths clear. -/
structure Host.KeepsClear (h : Host) (top dir : Location) : Prop where
  capture : ∀ call fs fs' events, h.capture call fs = .ok (fs', events) →
    Store.IsClear top dir fs → Store.IsClear top dir fs'
  execute : ∀ call input fs performance, h.execute call input fs = .ok performance →
    Store.IsClear top dir fs → Store.IsClear top dir performance.files

/-- No link is made but a marker, and no tree is removed. -/
def Request.Tame (s : Store) : Request → Prop
  | link _ p => ∃ n, Path.IsPlainName n ∧ p = s.markers.child n
  | removeTree _ => False
  | _ => True

variable {h : Host} {F : Request → Prop} {top dir loc : Location} {fs fs' : FileSystem}
  {p : Path} {s : Store} {source : Script.Source} {r : Request}

theorem Request.tame_of_looks (h : r.looks = true) : r.Tame s := by
  cases r <;> trivial

theorem Request.tame_of_opens (h : r.opens = true) : r.Tame s := by
  cases r <;> trivial

/-! ## Section 2: Steps -/

/-- A write that may fail, midway or not, lands where the path leads. -/
theorem Served.sameBelow_of_write {content : Bytes} {x : Except IoError Unit}
    (hserved : Served h F fs (.write p content) x fs') (hp : fs.FoundOutside h.cwd dir true p) :
    SameBelow dir fs fs' := by
  cases hserved with
  | well => exact Machine.files_change (.refl dir fs) fun _ hwrite => hp.write hwrite
  | refused => exact .refl dir fs
  | writtenInPart e _ _ hwrite => exact hp.write hwrite

/-- What preparing a script asks for changes nothing in `dir`. -/
theorem Store.Elsewhere.sameBelow (helsewhere : s.Elsewhere h.cwd dir fs) (hspares : h.Spares dir)
    (hasks : Prepare.Asks s source r) {x : r.Answer} (hserved : Served h F fs r x fs') :
    SameBelow dir fs fs' := by
  -- Each kind of request is served in whole, in part or not at all, and its path is elsewhere.
  have hrefl : SameBelow dir fs fs := .refl dir fs
  cases hasks with
  | looks hlooks => exact (Service.faulty h F).looks hserved hlooks ▸ hrefl
  | makeEntry mf =>
    exact hserved.whole hrefl (Machine.files_change hrefl (helsewhere.entries mf)) nofun nofun
  | writeManifest mf content =>
    exact hserved.sameBelow_of_write (helsewhere.files mf manifestName (by decide))
  | writePlaceholder mf =>
    exact hserved.sameBelow_of_write (helsewhere.files mf placeholderName (by decide))
  | writeRecord mf content =>
    exact hserved.sameBelow_of_write (helsewhere.files mf recordName (by decide))
  | capture call =>
    exact hserved.whole hrefl (Machine.files_capture hrefl (hspares.capture call fs)) nofun nofun
  | makeMarkers =>
    exact hserved.whole hrefl (Machine.files_change hrefl helsewhere.markers) nofun nofun
  | removeMarker script =>
    have houtside := helsewhere.links _ (isPlainName_markerName source script)
    exact hserved.whole hrefl (Machine.files_change hrefl fun _ hremove =>
      houtside.removeFile hremove) nofun nofun
  | linkMarker script target =>
    have houtside := helsewhere.links _ (isPlainName_markerName source script)
    exact hserved.whole hrefl (Machine.files_change hrefl fun _ hlink =>
      houtside.link hlink) nofun nofun

/-! ## Section 3: Clear paths -/

namespace Store

theorem IsBeside.not_prefix (hbeside : s.IsBeside p top dir) (names : List Name) :
    ¬ dir <+: top ++ names := by
  intro hfront
  rcases List.prefix_or_prefix_of_prefix hfront (List.prefix_append top names) with hdir | htop
  · exact hbeside.notBelow hdir
  · exact hbeside.notAbove htop

theorem not_goesThrough_marker (top : Location) (n : Name) :
    ¬ GoesThrough top (top ++ [markersName, n]) := by
  rintro (hmarkers | ⟨n', f, _, hfile⟩)
  · have hle := hmarkers.length_le
    simp at hle
  · have hfront := (List.prefix_append_right_inj top).1 hfile
    exact absurd (List.cons_prefix_cons.1 hfront).1 (by decide)

theorem IsBeside.components_entry (hbeside : s.IsBeside p top dir) (mf : Manifest) :
    (s.entry mf.hash).components =
      .root :: (top ++ [storeName, Utf8.encode mf.hash]).map .name := by
  show ((s.root.child storeName).child _).components = _
  rw [Path.components_child _ (isEntryName_hash mf).1,
    Path.components_child _ isEntryName_storeName.1, hbeside.root]
  simp

theorem IsBeside.components_markers (hbeside : s.IsBeside p top dir) :
    s.markers.components = .root :: (top ++ [markersName]).map .name := by
  show (s.root.child markersName).components = _
  rw [Path.components_child _ isEntryName_markersName.1, hbeside.root]
  simp

/-- A marker is found where it is, be it a link or not. -/
theorem IsBeside.place_marker (hbeside : s.IsBeside p top dir) (hclear : IsClear top dir fs)
    {cwd : Location} {n : Name} (hn : Path.IsPlainName n) {found : Found}
    (hfind : fs.find cwd false (s.markers.child n) = .ok found) :
    found.place = top ++ [markersName, n] := by
  have hcomponents : (s.markers.child n).components =
      .root :: (top ++ [markersName, n]).map .name := by
    rw [Path.components_child _ hn, hbeside.components_markers]
    simp
  have hsteps : (s.markers.child n).steps = (s.markers.child n).components := by
    rw [Path.steps_child _ hn, Path.components_child _ hn]
  refine place_of_find hcomponents (fun ms hms hne => ?_) (.inr ⟨rfl, hsteps⟩) hfind
  have hconcat : top ++ [markersName, n] = top ++ [markersName] ++ [n] := by simp
  rw [hconcat, List.prefix_concat_iff] at hms
  rcases hms with heq | hfront
  · exact absurd (heq.trans hconcat.symm) hne
  · exact hclear.plain ms (.inl hfront)

/-- Below its root the paths of a store do not lead into `dir`, if no link is met. -/
theorem IsClear.elsewhere (hclear : IsClear top dir fs) (hbeside : s.IsBeside p top dir)
    (cwd : Location) : s.Elsewhere cwd dir fs := by
  refine ⟨fun mf fs' hmake => ?_, fun mf n hn found hfind => ?_, fun fs' hmake => ?_,
    fun n hn found hfind => ?_⟩
  · -- The directory of an entry is on the way to each of its files.
    have hfront : top ++ [storeName, Utf8.encode mf.hash] <+:
        top ++ [storeName, Utf8.encode mf.hash, manifestName] := ⟨[manifestName], by simp⟩
    exact sameBelow_makeDirectories (hbeside.components_entry mf)
      (fun ms hms => hclear.plain ms (.inr ⟨_, manifestName, by decide, hms.trans hfront⟩))
      (hbeside.not_prefix _) hmake
  · have hplain : Path.IsPlainName n := by
      have hall : ∀ n ∈ writtenNames, Path.IsPlainName n := by decide
      exact hall n hn
    have hcomponents : ((s.entry mf.hash).child n).components =
        .root :: (top ++ [storeName, Utf8.encode mf.hash, n]).map .name := by
      rw [Path.components_child _ hplain, hbeside.components_entry]
      simp
    have hthrough : ∀ ms, ms <+: top ++ [storeName, Utf8.encode mf.hash, n] → NoLink fs ms :=
      fun ms hms => hclear.plain ms (.inr ⟨_, n, hn, hms⟩)
    rw [place_of_find hcomponents (fun ms hms _ => hthrough ms hms)
      (.inl (hthrough _ (List.prefix_refl _))) hfind]
    exact hbeside.not_prefix _
  · exact sameBelow_makeDirectories hbeside.components_markers
      (fun ms hms => hclear.plain ms (.inl hms)) (hbeside.not_prefix _) hmake
  · rw [hbeside.place_marker hclear hn hfind]
    exact hbeside.not_prefix _

theorem IsClear.leads (hclear : IsClear top dir fs) (hbeside : s.IsBeside p top dir)
    (cwd : Location) : fs.Leads cwd p dir := by
  have halong : ∀ {here ns}, (∀ ms, ms <+: ns → fs.at? (here ++ ms) = some .directory) →
      DirectoriesAlong fs here ns := by
    intro here ns
    induction ns generalizing here with
    | nil => exact fun _ => trivial
    | cons n ns ih =>
      refine fun hall => ⟨hall [n] (List.prefix_append [n] ns), ih fun ms hms => ?_⟩
      have hnode := hall (n :: ms) (List.cons_prefix_cons.2 ⟨rfl, hms⟩)
      rwa [List.append_cons] at hnode
  have hroute : Route fs linkLimit [] (dir.map .name) linkLimit ([] ++ dir) :=
    route_names _ hbeside.short (halong hclear.way)
  refine ⟨linkLimit, ?_⟩
  rw [hbeside.path]
  exact .root _ hroute

theorem IsClear.apart (hclear : IsClear top dir fs) (hbeside : s.IsBeside h.temporary top dir) :
    s.Apart h dir fs :=
  ⟨hclear.leads hbeside h.cwd, hclear.elsewhere hbeside h.cwd⟩

/-! ## Section 4: Paths that stay clear -/

/-- Where no directory is, something may change that no path goes through as a link. -/
theorem IsClear.of_change (hclear : IsClear top dir fs) (hloc : fs.at? loc ≠ some .directory)
    (hsame : ∀ l, l ≠ loc → fs'.at? l = fs.at? l) (hplain : GoesThrough top loc → NoLink fs' loc) :
    IsClear top dir fs' := by
  refine ⟨fun l hl => ?_, fun l hl => ?_⟩
  · by_cases heq : l = loc
    · exact heq ▸ hplain (heq ▸ hl)
    · exact fun target htarget => hclear.plain l hl target ((hsame l heq).symm.trans htarget)
  · have hdir := hclear.way l hl
    have hne : l ≠ loc := by
      rintro rfl
      exact hloc hdir
    rw [hsame l hne, hdir]

theorem IsClear.put {node : Node} (hclear : IsClear top dir fs) (hnode : node.isLink = false)
    (hloc : fs.at? loc ≠ some .directory) : IsClear top dir (fs.put loc node) :=
  hclear.of_change hloc (fun _ hl => at?_put_ne fs node hl) fun hthrough =>
    (hclear.plain loc hthrough).put hnode loc

theorem IsClear.put_link {target : Path} (hclear : IsClear top dir fs)
    (hloc : fs.at? loc ≠ some .directory) (hthrough : ¬ GoesThrough top loc) :
    IsClear top dir (fs.put loc (.link target)) :=
  hclear.of_change hloc (fun _ hl => at?_put_ne fs _ hl) fun h => absurd h hthrough

theorem IsClear.erase (hclear : IsClear top dir fs) (hloc : fs.at? loc ≠ some .directory) :
    IsClear top dir (fs.erase loc) :=
  hclear.of_change hloc (fun _ hl => at?_erase_ne fs hl) fun hthrough =>
    (hclear.plain loc hthrough).erase loc

theorem IsClear.of_write {cwd : Location} {now : Instant} {content : Bytes}
    (hclear : IsClear top dir fs) (h : fs.write cwd now p content = .ok fs') :
    IsClear top dir fs' := by
  obtain ⟨found, _, hplace, rfl | ⟨mode, rfl⟩⟩ := exists_place_of_write h
  · exact hclear
  · exact hclear.put rfl hplace

/-- What commands ask for leaves paths clear. -/
theorem IsClear.of_served (hclear : IsClear top dir fs) (hbeside : s.IsBeside p top dir)
    (hkeeps : h.KeepsClear top dir) (htame : r.Tame s) {x : r.Answer}
    (hserved : Served h F fs r x fs') : IsClear top dir fs' := by
  cases hserved with
  | refused => exact hclear
  | removedInPart => exact htame.elim
  | writtenInPart e _ _ hwrite => exact hclear.of_write hwrite
  | well =>
    cases r with
    | write q content => exact Machine.files_change hclear fun _ hwrite => hclear.of_write hwrite
    | makeDirectories q =>
      refine Machine.files_change hclear fun fs' hmake => ?_
      refine keeps_makeDirectoriesWithin (P := IsClear top dir) (A := fun _ => True)
        (fun _ _ _ _ => trivial) (fun fs₁ q fs₂ _ hclear hone => ?_) trivial hclear hmake
      obtain ⟨found, _, hplace, rfl⟩ := exists_place_of_makeDirectory hone
      exact hclear.put rfl hplace
    | removeFile q =>
      refine Machine.files_change hclear fun fs' hremove => ?_
      obtain ⟨found, _, hplace, rfl⟩ := exists_place_of_removeFile hremove
      exact hclear.erase hplace
    | removeTree q => exact htame.elim
    | link target q =>
      -- The only links that are made are markers, and no path goes on through a marker.
      refine Machine.files_change hclear fun fs' hlink => ?_
      obtain ⟨n, hn, rfl⟩ := htame
      obtain ⟨found, hfind, hplace, rfl⟩ := exists_place_of_link hlink
      refine hclear.put_link hplace ?_
      rw [hbeside.place_marker hclear hn hfind]
      exact not_goesThrough_marker top n
    | setMode q mode =>
      refine Machine.files_change hclear fun fs' hset => ?_
      obtain rfl | ⟨found, _, _, _, hplace, rfl⟩ := exists_place_of_setMode hset
      · exact hclear
      · exact hclear.put rfl hplace
    | temporary front back =>
      unfold Machine.respond
      dsimp only
      split
      · next hfind => exact hclear.put rfl (at?_place_ne hfind (by simp))
      · exact hclear
      · exact hclear
    | capture call =>
      exact Machine.files_capture hclear fun _ _ hcapture =>
        hkeeps.capture _ _ _ _ hcapture hclear
    | execute call input =>
      exact Machine.files_execute hclear fun _ _ hexecute =>
        hkeeps.execute _ _ _ _ hexecute hclear
    | _ => exact hclear

end Store
end ScriptDeps
