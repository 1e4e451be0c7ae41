import ScriptDeps.Proofs.Prepare.Refresh
import ScriptDeps.Proofs.Prepare.Run

/-! # The stages of a run, by location

    In a cache whose own names are no links each stage of a run changes the
    nodes at a few locations, and which ones is said here once for each stage:
    the entry is opened, refreshed, built in and recorded, and the script is
    marked. -/

namespace ScriptDeps

open FileSystem

namespace Store

variable {s : Store} {h : Host} {cwd top : Location} {mf : Manifest} {fs fs' : FileSystem}

/-! ## Section 1: Places -/

/-- The location of the entry for `hash` in a store at `top`. -/
def entryAt (top : Location) (hash : Text) : Location := top ++ [storeName, Utf8.encode hash]

theorem entryAt_append (top : Location) (hash : Text) (names : List Name) :
    entryAt top hash ++ names = top ++ storeName :: Utf8.encode hash :: names :=
  List.append_assoc ..

/-- The entry lies below the root of the store, and so does what is in it. -/
theorem isBelow_entryAt (top : Location) (hash : Text) (names : List Name) :
    IsBelow top (entryAt top hash ++ names) := by
  rw [entryAt_append]
  exact isBelow_append top (List.cons_ne_nil _ _)

/-- The system takes all paths in the store that have to do with an entry. -/
def IsRoomy (s : Store) : Prop := s.root.HasRoom 90

instance (s : Store) : Decidable s.IsRoomy := inferInstanceAs (Decidable (s.root.HasRoom 90))

theorem isEntryName_hash (mf : Manifest) : Path.IsEntryName (Utf8.encode mf.hash) :=
  isEntryName_sha256Hex mf.bytes

theorem length_encode_hash (mf : Manifest) : (Utf8.encode mf.hash).length = 64 :=
  (length_encode_hex (isHex_sha256Hex mf.bytes)).trans (length_sha256Hex mf.bytes)

theorem IsRoomy.entries (h : s.IsRoomy) : s.entries.HasRoom 84 :=
  Path.HasRoom.child h isEntryName_storeName

theorem IsRoomy.entry (h : s.IsRoomy) (mf : Manifest) : (s.entry mf.hash).HasRoom 19 := by
  have hlength := length_encode_hash mf
  exact Path.HasRoom.child (h.entries.mono (by omega)) (isEntryName_hash mf)

theorem IsRoomy.fits_entry (h : s.IsRoomy) (mf : Manifest) : (s.entry mf.hash).Fits := by
  have hlength := length_encode_hash mf
  exact (h.entries.mono (by omega)).fits_child (isEntryName_hash mf)

theorem directoriesAlong_entry {hash : Text} :
    DirectoriesAlong fs top [storeName, Utf8.encode hash] ↔
      fs.at? (top ++ [storeName]) = some .directory ∧
        fs.at? (entryAt top hash) = some .directory := by
  rw [DirectoriesAlong, DirectoriesAlong, DirectoriesAlong, List.append_assoc, and_true]
  rfl

/-- With the directories down to the entry there, its path leads to it. -/
theorem Stands.leadsToEntry (h : s.Stands cwd top fs) (hroomy : s.IsRoomy)
    (hdirs : DirectoriesAlong fs top [storeName, Utf8.encode mf.hash]) :
    LeadsToEntry fs cwd (s.entry mf.hash) (entryAt top mf.hash) := by
  obtain ⟨hstore, hentry⟩ := directoriesAlong_entry.1 hdirs
  have hleads := (h.leads_root.child isEntryName_storeName hstore).child
    (isEntryName_hash mf) hdirs.2.1
  rw [List.append_assoc] at hleads
  refine ⟨hleads, hentry, hroomy.fits_entry mf, fun n hn => ?_⟩
  have hlength : ∀ n ∈ ownNames, n.length + 1 ≤ 19 := by decide
  exact ((hroomy.entry mf).mono (hlength n hn)).fits_child (isEntryName_of_mem_ownNames hn)

/-! ## Section 2: The entry is opened -/

/-- The entry for `mf` has been made in a store that stands at `top`. -/
structure Opened (s : Store) (cwd top : Location) (mf : Manifest) (fs fs' : FileSystem) :
    Prop where
  stands : s.Stands cwd top fs'
  made   : MadeAlong fs fs' top [storeName, Utf8.encode mf.hash]

theorem Opened.leadsToEntry (h : s.Opened cwd top mf fs fs') (hroomy : s.IsRoomy) :
    LeadsToEntry fs' cwd (s.entry mf.hash) (entryAt top mf.hash) :=
  h.stands.leadsToEntry hroomy h.made.along

/-- What lies in the entry or elsewhere is left as it is. -/
theorem Opened.other (h : s.Opened cwd top mf fs fs') {loc : Location}
    (hloc : ¬ loc <+: entryAt top mf.hash) : fs'.at? loc = fs.at? loc := h.made.other loc hloc

theorem Opened.at?_entry (h : s.Opened cwd top mf fs fs') (n : Name) (rest : List Name) :
    fs'.at? (entryAt top mf.hash ++ n :: rest) = fs.at? (entryAt top mf.hash ++ n :: rest) := by
  refine h.other fun hfront => ?_
  have hle := hfront.length_le
  rw [List.length_append, List.length_cons] at hle
  omega

theorem Located.open (h : s.Located cwd top fs) (hroomy : s.IsRoomy)
    (hclear : s.Stands cwd top fs → ClearAlong fs top [storeName, Utf8.encode mf.hash]) :
    ∃ fs', fs.makeDirectories cwd (s.entry mf.hash) = .ok fs' ∧ s.Opened cwd top mf fs fs' := by
  have hshort : ∀ n ∈ [storeName, Utf8.encode mf.hash], n.length ≤ nameLimit := by
    intro n hn
    simp only [List.mem_cons, List.not_mem_nil, or_false] at hn
    rcases hn with rfl | rfl
    · exact isEntryName_storeName.2.2
    · exact (isEntryName_hash mf).2.2
  obtain ⟨fs', hmake, hstands, hmade⟩ := h.makeDirectories
    (components_entry s (isEntryName_hash mf)) (hroomy.fits_entry mf) hshort
    (List.cons_ne_nil _ _) hclear
  exact ⟨fs', hmake, hstands, hmade⟩

/-- An entry that is there is not made again. -/
theorem Stands.open_again (h : s.Stands cwd top fs) (hroomy : s.IsRoomy)
    (hdirs : DirectoriesAlong fs top [storeName, Utf8.encode mf.hash]) :
    fs.makeDirectories cwd (s.entry mf.hash) = .ok fs := by
  have hentry := h.leadsToEntry hroomy hdirs
  have hnode : fs.at? (top ++ [storeName] ++ [Utf8.encode mf.hash]) = some .directory := hdirs.2.1
  have hmake := makeDirectory_child (h.leads_root.child isEntryName_storeName hdirs.1)
    (isEntryName_hash mf) hentry.fitsDir
  have hthere : fs.isDirectory cwd (s.entry mf.hash) = true := by
    unfold isDirectory
    rw [hentry.leads.findNode hentry.fitsDir hentry.directory]
    rfl
  rw [hnode] at hmake
  change fs.makeDirectory cwd (s.entry mf.hash) = _ at hmake
  unfold makeDirectories
  rw [makeDirectoriesWithin, if_neg (by simpa using hentry.fitsDir.2.1), hmake]
  exact if_pos hthere

/-! ## Section 3: The record is looked for -/

/-- The record in the entry at `d`, if it is one for `hash`. -/
def recordAt? (fs : FileSystem) (d : Location) (hash : Text) : Option Record :=
  match fs.at? (d ++ [recordName]) with
  | some (.file content ..) =>
      ((Utf8.decode content).bind Record.ofText?).filter fun r => r.hash = hash
  | _ => none

theorem recordAt?_congr {d : Location} {hash : Text}
    (hsame : fs'.at? (d ++ [recordName]) = fs.at? (d ++ [recordName])) :
    recordAt? fs' d hash = recordAt? fs d hash := by
  unfold recordAt?
  rw [hsame]

theorem recordAt?_of_read {d : Location} {t hash : Text} {modified : Instant} {mode : Nat}
    {r : Record} (hnode : fs.at? (d ++ [recordName]) = some (.file (Utf8.encode t) modified mode))
    (hread : Record.ofText? t = some r) (hhash : r.hash = hash) :
    recordAt? fs d hash = some r := by
  unfold recordAt?
  rw [hnode]
  dsimp only
  rw [Utf8.decode_encode, Option.bind_some, hread]
  simp [Option.filter, hhash]

theorem usable?_at {dir : Path} {d : Location} (hentry : LeadsToEntry fs cwd dir d)
    (hplain : IsPlain fs (d ++ [recordName])) (hash : Text) :
    usable? fs cwd dir hash =
      (recordAt? fs d hash).filter fun _ => fs.isPresent cwd (buildIn dir) := by
  have hread := read_child hentry.leads isEntryName_recordName
    (hentry.fits recordName (by decide)) hplain.noLink
  unfold usable? recordAt?
  rw [recordIn_eq, hread]
  rcases hplain.cases with hnode | hnode | ⟨content, modified, mode, hnode⟩
  · rw [hnode]
    rfl
  · rw [hnode]
    rfl
  · rw [hnode]
    dsimp only
    rw [Option.filter_filter]

/-! ## Section 4: The toolchain works -/

/-- Nothing but the build directory of the entry at `d` has changed. -/
def BuiltIn (d : Location) (fs fs' : FileSystem) : Prop :=
  ∀ loc, ¬ (d ++ [buildName]) <+: loc → fs'.at? loc = fs.at? loc

theorem LeadsToEntry.builtIn {dir : Path} {d : Location} {o : Resolve.Options}
    {es : List Capture.Event} (hentry : LeadsToEntry fs h.cwd dir d) (hconfined : h.Confined)
    (hcall : h.capture (Resolve.call dir o) fs = .ok (fs', es)) : BuiltIn d fs fs' :=
  hconfined (Resolve.call dir o) dir d fs fs' es rfl hcall
    (hentry.leads.findNode hentry.fitsDir hentry.directory)

/-- What is not in the build directory is not changed by building. -/
theorem BuiltIn.at?_child {d : Location} (hbuilt : BuiltIn d fs fs') {n : Name}
    (hn : n ≠ buildName) (rest : List Name) :
    fs'.at? (d ++ n :: rest) = fs.at? (d ++ n :: rest) := by
  refine hbuilt _ fun hfront => ?_
  have hfront := (List.prefix_append_right_inj d).1 hfront
  exact hn (List.cons_prefix_cons.1 hfront).1.symm

theorem BuiltIn.at?_prefix {d : Location} (hbuilt : BuiltIn d fs fs') {loc : Location}
    (hloc : loc <+: d) : fs'.at? loc = fs.at? loc := by
  refine hbuilt loc fun hfront => ?_
  have hle := (hfront.trans hloc).length_le
  rw [List.length_append, List.length_singleton] at hle
  omega

theorem BuiltIn.sameAbove {hash : Text} (hbuilt : BuiltIn (entryAt top hash) fs fs') :
    SameAbove top fs fs' := by
  intro loc hloc
  refine hbuilt loc fun ⟨rest, hrest⟩ => hloc ?_
  rw [← hrest, List.append_assoc]
  exact isBelow_entryAt top hash _

/-! ## Section 5: The record is saved -/

theorem write_record {r : Record} {d : Location} (hentry : LeadsToEntry fs h.cwd r.directory d)
    (hplain : IsPlain fs (d ++ [recordName])) (content : Bytes) :
    (∃ mode, fs.write h.cwd h.now (recordIn r.directory) content =
        .ok (fs.put (d ++ [recordName]) (.file content h.now mode))) ∨
      fs.write h.cwd h.now (recordIn r.directory) content = .error .isDirectory ∧
        fs.at? (d ++ [recordName]) = some .directory := by
  have hwrite := write_child hentry.leads isEntryName_recordName
    (hentry.fits recordName (by decide)) hplain.noLink h.now content
  rw [recordIn_eq, hwrite]
  rcases hplain.cases with hnode | hnode | ⟨_, _, mode, hnode⟩
  · rw [hnode]
    exact .inl ⟨plainMode, rfl⟩
  · rw [hnode]
    exact .inr ⟨rfl, rfl⟩
  · rw [hnode]
    exact .inl ⟨mode, rfl⟩

theorem savedFiles_other {r : Record} {d : Location} (hentry : LeadsToEntry fs h.cwd r.directory d)
    (hplain : IsPlain fs (d ++ [recordName])) (loc : Location) (hloc : loc ≠ d ++ [recordName]) :
    (Prepare.savedFiles h r fs).at? loc = fs.at? loc := by
  unfold Prepare.savedFiles
  cases r.render? with
  | none => rfl
  | some t =>
    dsimp only
    rcases write_record hentry hplain (Utf8.encode t) with ⟨mode, hwrite⟩ | ⟨hwrite, _⟩
    · rw [hwrite]
      exact at?_put_ne fs _ hloc
    · rw [hwrite]
      rfl

/-- What a record is saved over is a file afterwards, or still a directory. -/
theorem isPlain_savedFiles {r : Record} {d : Location}
    (hentry : LeadsToEntry fs h.cwd r.directory d) (hplain : IsPlain fs (d ++ [recordName])) :
    IsPlain (Prepare.savedFiles h r fs) (d ++ [recordName]) := by
  unfold Prepare.savedFiles
  cases r.render? with
  | none => exact hplain
  | some t =>
    dsimp only
    rcases write_record hentry hplain (Utf8.encode t) with ⟨mode, hwrite⟩ | ⟨hwrite, _⟩
    · rw [hwrite]
      exact isPlain_of_file (at?_put_self fs _ (by simp))
    · rw [hwrite]
      exact hplain

theorem savedFiles_record {r : Record} {d : Location} {t : Text}
    (hentry : LeadsToEntry fs h.cwd r.directory d) (hplain : IsPlain fs (d ++ [recordName]))
    (hrender : r.render? = some t) (hdir : fs.at? (d ++ [recordName]) ≠ some .directory) :
    ∃ mode, (Prepare.savedFiles h r fs).at? (d ++ [recordName]) =
      some (.file (Utf8.encode t) h.now mode) := by
  unfold Prepare.savedFiles
  rw [hrender]
  dsimp only
  rcases write_record hentry hplain (Utf8.encode t) with ⟨mode, hwrite⟩ | ⟨_, hnode⟩
  · rw [hwrite]
    exact ⟨mode, at?_put_self fs _ (by simp)⟩
  · exact absurd hnode hdir

/-! ## Section 6: The script is marked -/

/-- A script has been marked: of what lies in the store nothing but the
    directory of the markers has changed. -/
structure Marked (s : Store) (cwd top : Location) (fs fs' : FileSystem) : Prop where
  stands    : s.Stands cwd top fs'
  directory : fs'.at? (top ++ [markersName]) = some .directory
  other     : ∀ names, ¬ [markersName] <+: names → fs'.at? (top ++ names) = fs.at? (top ++ names)

/-- No entry is touched by making a marker. -/
theorem Marked.at?_store (hmarked : s.Marked cwd top fs fs') (names : List Name) :
    fs'.at? (top ++ storeName :: names) = fs.at? (top ++ storeName :: names) := by
  refine hmarked.other _ fun hfront => ?_
  exact absurd (List.cons_prefix_cons.1 hfront).1 (by decide)

theorem Marked.at?_entry (hmarked : s.Marked cwd top fs fs') (hash : Text) (names : List Name) :
    fs'.at? (entryAt top hash ++ names) = fs.at? (entryAt top hash ++ names) := by
  rw [entryAt_append]
  exact hmarked.at?_store _

/-- Wherever the marker is made, nothing but its own entry changes. -/
theorem markedFiles_other {fs₁ : FileSystem} {n : Name} {hash : Text} {loc : Location}
    (hmake : fs.makeDirectories h.cwd s.markers = .ok fs₁) (hstands : s.Stands h.cwd top fs₁)
    (hdir : fs₁.at? (top ++ [markersName]) = some .directory) (hn : Path.IsPlainName n)
    (hloc : loc ≠ top ++ [markersName] ++ [n]) :
    (s.markedFiles h (s.markers.child n) hash fs).at? loc = fs₁.at? loc := by
  have hleads {fs₂ : FileSystem} (hsame : SameAbove top fs₁ fs₂)
      (hdir : fs₂.at? (top ++ [markersName]) = some .directory) :
      fs₂.Leads h.cwd s.markers (top ++ [markersName]) :=
    (hstands.of_below hsame).leads_root.child isEntryName_markersName hdir
  have hleads₁ := hleads (.refl top fs₁) hdir
  unfold markedFiles
  rw [hmake]
  dsimp only
  cases hremove : fs₁.removeFile h.cwd (s.markers.child n) with
  | error e =>
    cases e with
    | noEntry => exact link_other hleads₁ hn _ hloc
    | _ => rfl
  | ok fs₂ =>
    -- The old marker goes, and the path still leads to the directory of the markers.
    obtain rfl := eq_erase_of_removeFile hleads₁ hn hremove
    have hsame := sameAbove_erase fs₁ top (List.cons_ne_nil markersName [n])
    rw [← List.singleton_append, ← List.append_assoc] at hsame
    have hlast : top ++ [markersName] ≠ top ++ [markersName] ++ [n] := by simp
    rw [← at?_erase_ne fs₁ hlast] at hdir
    exact (link_other (hleads hsame hdir) hn _ hloc).trans (at?_erase_ne fs₁ hloc)

theorem Stands.marked (hstands : s.Stands h.cwd top fs) (hroomy : s.IsRoomy)
    (hclear : ClearAlong fs top [markersName]) {n : Name} (hn : Path.IsPlainName n) (hash : Text) :
    s.Marked h.cwd top fs (s.markedFiles h (s.markers.child n) hash fs) := by
  obtain ⟨fs₁, hmake, hstands₁, hmade⟩ := Located.makeDirectories (.inr hstands)
    (components_markers s) ((hroomy.mono (by decide)).fits_child isEntryName_markersName)
    (by decide) (List.cons_ne_nil _ _) fun _ => hclear
  have hmarked : ∀ loc, loc ≠ top ++ [markersName] ++ [n] →
      (s.markedFiles h (s.markers.child n) hash fs).at? loc = fs₁.at? loc :=
    fun loc hloc => markedFiles_other hmake hstands₁ hmade.along.1 hn hloc
  -- The marker and its directory are below the root, so the way to the root stays.
  have habove : SameAbove top fs₁ (s.markedFiles h (s.markers.child n) hash fs) := by
    intro loc hloc
    refine hmarked loc ?_
    rintro rfl
    rw [List.append_assoc] at hloc
    exact hloc (isBelow_append top (List.cons_ne_nil _ _))
  refine ⟨hstands₁.of_below habove, (hmarked _ (by simp)).trans hmade.along.1,
    fun names hnames => ?_⟩
  rw [hmarked]
  · cases names with
    | nil => rw [List.append_nil, hstands₁.there, hstands.there]
    | cons n names =>
      refine hmade.other _ fun hfront => ?_
      have hfront := (List.prefix_append_right_inj top).1 hfront
      obtain ⟨rfl, _⟩ := List.cons_prefix_cons.1 hfront
      exact hnames (by simp)
  · rintro heq
    rw [List.append_assoc] at heq
    obtain rfl := List.append_cancel_left heq
    exact hnames (List.prefix_append ..)

/-- What a run does at its end, be it that it makes the marker or not. -/
theorem Stands.same_or_marked (hstands : s.Stands h.cwd top fs) (hroomy : s.IsRoomy)
    (hclear : ClearAlong fs top [markersName]) {marker : Bool} {source : Script.Source}
    {content : Bytes} {hash : Text}
    (hmarked : fs' = if marker then
        s.markedFiles h (s.markerPath (source.identity (sha256Hex content))) hash fs
      else fs) :
    fs' = fs ∨ s.Marked h.cwd top fs fs' := by
  cases marker with
  | false =>
    rw [if_neg Bool.false_ne_true] at hmarked
    exact .inl hmarked
  | true =>
    rw [if_pos rfl] at hmarked
    rw [hmarked]
    exact .inr (hstands.marked hroomy hclear (isPlainName_markerName source content) hash)

/-! ## Section 7: Results -/

/-- The records and the markers of the store are as they were. -/
structure SameResults (top : Location) (fs fs' : FileSystem) : Prop where
  record : ∀ n, fs'.at? (top ++ [storeName, n, recordName]) =
    fs.at? (top ++ [storeName, n, recordName])
  marker : ∀ names, fs'.at? (top ++ markersName :: names) = fs.at? (top ++ markersName :: names)

theorem SameResults.refl (top : Location) (fs : FileSystem) : SameResults top fs fs :=
  ⟨fun _ => rfl, fun _ => rfl⟩

theorem SameResults.trans {fs₁ fs₂ : FileSystem} (h : SameResults top fs fs₁)
    (h' : SameResults top fs₁ fs₂) : SameResults top fs fs₂ :=
  ⟨fun n => (h'.record n).trans (h.record n), fun ns => (h'.marker ns).trans (h.marker ns)⟩

theorem SameResults.entry (h : SameResults top fs fs') (hash : Text) :
    fs'.at? (entryAt top hash ++ [recordName]) = fs.at? (entryAt top hash ++ [recordName]) := by
  rw [entryAt_append]
  exact h.record _

theorem sameResults_opened (hopened : s.Opened cwd top mf fs fs') : SameResults top fs fs' := by
  refine ⟨fun n => hopened.other fun hfront => ?_, fun names => hopened.other fun hfront => ?_⟩
  · have hle := ((List.prefix_append_right_inj top).1 hfront).length_le
    simp only [List.length_cons, List.length_nil] at hle
    omega
  · have hfront := (List.prefix_append_right_inj top).1 hfront
    exact absurd (List.cons_prefix_cons.1 hfront).1 (by decide)

theorem sameResults_refreshed {refreshed : Bool}
    (hrefreshed : s.Refreshed h mf.bytes (entryAt top mf.hash) fs fs' refreshed) :
    SameResults top fs fs' := by
  have hrecord : ∀ n f, recordName ≠ f →
      top ++ [storeName, n, recordName] ≠ entryAt top mf.hash ++ [f] := by
    intro n f hne heq
    rw [entryAt_append] at heq
    have heq := List.append_cancel_left heq
    simp only [List.cons.injEq] at heq
    exact hne heq.2.2.1
  have hmarker : ∀ names f, top ++ markersName :: names ≠ entryAt top mf.hash ++ [f] := by
    intro names f heq
    rw [entryAt_append] at heq
    exact absurd (List.cons.inj (List.append_cancel_left heq)).1 (by decide)
  exact ⟨fun n => hrefreshed.other _ (hrecord n _ (by decide)) (hrecord n _ (by decide)),
    fun names => hrefreshed.other _ (hmarker names _) (hmarker names _)⟩

/-- Up to where a record is looked for, nothing of that kind is changed. -/
theorem sameResults_ready {fs₁ : FileSystem} {refreshed : Bool}
    (hopened : s.Opened cwd top mf fs fs₁)
    (hrefreshed : s.Refreshed h mf.bytes (entryAt top mf.hash) fs₁ fs' refreshed) :
    SameResults top fs fs' :=
  (sameResults_opened hopened).trans (sameResults_refreshed hrefreshed)

theorem sameResults_builtIn (hbuilt : BuiltIn (entryAt top mf.hash) fs fs') :
    SameResults top fs fs' := by
  refine ⟨fun n => hbuilt _ fun hfront => ?_, fun names => hbuilt _ fun hfront => ?_⟩
  · rw [entryAt_append] at hfront
    have hfront := (List.prefix_append_right_inj top).1 hfront
    simp only [List.cons_prefix_cons] at hfront
    exact absurd hfront.2.2.1 (by decide)
  · rw [entryAt_append] at hfront
    have hfront := (List.prefix_append_right_inj top).1 hfront
    exact absurd (List.cons_prefix_cons.1 hfront).1 (by decide)

end Store
end ScriptDeps
