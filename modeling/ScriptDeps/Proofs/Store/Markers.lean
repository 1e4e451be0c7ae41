import ScriptDeps.Proofs.Clean.Cache
import ScriptDeps.Proofs.Courses
import ScriptDeps.Proofs.FileSystem.Trees
import ScriptDeps.Proofs.Store.Steps

/-! # Markers of scripts

    Scripts that differ have markers that differ, whatever their names are: a
    discriminator is as long as every other (`markerName_injective`).  Where
    markers can be made, a call that makes one changes nothing else in the
    store, at whatever step it fails (`onlyMarker_of_reaches`), and unless the
    system refuses the name the marker links to the entry (`linksTo_markedFiles`). -/

namespace ScriptDeps

open FileSystem

/-! ## Section 1: Identities -/

namespace Identity

variable {i j : Identity}

/-- What tells scripts of one name apart: 64 hexadecimal digits, of either case. -/
def IsDiscriminator (t : Text) : Prop := t.length = 64 ∧ ∀ c ∈ t, (Hex.value? c).isSome

/-- The identities that scripts have. -/
inductive IsOfScript : Identity → Prop
  | file {p : Path} (habsolute : p.isAbsolute = true) : IsOfScript (ofPath p)
  | stdin {hash : Text} (hhash : IsDiscriminator hash) : IsOfScript (stdin hash)
  | inlined {hash : Text} (hhash : IsDiscriminator hash) : IsOfScript (inlined hash)

theorem ofPath_name (p : Path) :
    (ofPath p).name = (p.stem?.map Utf8.decodeLossy).getD "unknown".toList := rfl

theorem ofPath_discriminator (p : Path) : (ofPath p).discriminator = sha256Hex p.bytes := rfl

theorem length_encode_markerName (i : Identity) : (Utf8.encode i.markerName).length =
    (Utf8.encode i.name).length + 2 + (Utf8.encode i.discriminator).length := by
  rw [markerName, Utf8.encode_append, Utf8.encode_append, List.length_append, List.length_append]
  rfl

theorem isDiscriminator_sha256Hex (message : Bytes) : IsDiscriminator (sha256Hex message) := by
  refine ⟨length_sha256Hex message, fun c hc => ?_⟩
  obtain ⟨n, hn, rfl⟩ := isHex_sha256Hex message c hc
  have hall : ∀ n < 16, (Hex.value? (Hex.digit n)).isSome := by decide
  exact hall n hn

theorem IsOfScript.isDiscriminator (h : i.IsOfScript) : IsDiscriminator i.discriminator := by
  cases h with
  | file => exact isDiscriminator_sha256Hex _
  | stdin hhash => exact hhash
  | inlined hhash => exact hhash

theorem IsOfScript.isPlainName (h : i.IsOfScript) :
    Path.IsPlainName (Utf8.encode i.markerName) := by
  apply Store.isPlainName_of_slash_notMem
  · cases h with
    | file => exact Store.slash_notMem_ofPath _
    | stdin => exact (by decide : '/' ∉ stdinName)
    | inlined => exact (by decide : '/' ∉ inlineName)
  · intro hslash
    exact absurd (h.isDiscriminator.2 _ hslash) (by decide)

/-- The name of a script may hold the separator, and still the marker tells the
    script: what follows the last separator is of one length. -/
theorem markerName_injective (hi : i.IsOfScript) (hj : j.IsOfScript)
    (h : i.markerName = j.markerName) : i = j := by
  have hlength : i.discriminator.length = j.discriminator.length := by
    rw [hi.isDiscriminator.1, hj.isDiscriminator.1]
  obtain ⟨hfront, hdiscriminator⟩ := List.append_inj' h hlength
  have hname := List.append_cancel_right hfront
  cases i
  cases j
  rw [mk.injEq]
  exact ⟨hname, hdiscriminator⟩

end Identity

namespace Store

variable {s : Store} {cwd top loc : Location} {fs fs' fs'' : FileSystem} {n : Name} {hash : Text}

/-! ## Section 2: Model -/

/-- A store whose directory of markers is there, or would be made, at `top`. -/
structure IsMarkable (s : Store) (cwd top : Location) (fs : FileSystem) : Prop where
  tree    : fs.IsTreeFrom cwd
  located : s.Located cwd top fs
  room    : s.root.HasRoom 280
  folder  : fs.at? (top ++ [markersName]) = none ∨ fs.at? (top ++ [markersName]) = some .directory
  names   : ∀ n, (fs.at? ((Item.marker n).loc top)).isSome → Path.IsEntryName n

/-- Whether a marker `n` can be made: the system takes the name, and no
    directory has it. -/
def Takes (top : Location) (fs : FileSystem) (n : Name) : Prop :=
  Path.IsEntryName n ∧ fs.at? ((Item.marker n).loc top) ≠ some .directory

instance (top : Location) (fs : FileSystem) (n : Name) : Decidable (Takes top fs n) :=
  inferInstanceAs (Decidable (_ ∧ _))

/-- `fs'` is `fs` but for the marker `n`, and for the directories on the way to
    it. -/
structure OnlyMarker (s : Store) (cwd top : Location) (n : Name) (fs fs' : FileSystem) :
    Prop where
  markable : s.IsMarkable cwd top fs'
  same     : ∀ loc, ¬ loc <+: top ++ [markersName] → loc ≠ (Item.marker n).loc top →
    fs'.at? loc = fs.at? loc

/-- What a call for the marker at `path` asks for. -/
def Marks (s : Store) (path : Path) : Request → Prop
  | .makeDirectories p => p = s.markers
  | .removeFile p => p = path
  | .link _ p => p = path
  | r => r.looks = true

/-! ## Section 3: The directory of the markers -/

theorem loc_marker (top : Location) (n : Name) :
    (Item.marker n).loc top = top ++ [markersName] ++ [n] := by
  rw [List.append_assoc]
  rfl

theorem not_prefix_folder (i : Item) : ¬ i.loc top <+: top ++ [markersName] := by
  intro hfront
  have hle := hfront.length_le
  simp [Item.loc] at hle

/-- The root of an absent store is no place that a path leads to. -/
theorem Absent.not_leads (h : s.Absent cwd top fs) : ¬ Leads fs cwd s.root loc := by
  rintro ⟨_, hroute⟩
  obtain ⟨pre, links, here, n, ns, hpre, hnone, _, hroot, _⟩ := h.way
  rw [hroot] at hroute
  obtain ⟨_, here', hfirst, hrest⟩ := hroute.split
  obtain ⟨_, rfl⟩ := hpre.unique hfirst
  cases hrest with
  | enter _ hnode => rw [hnone] at hnode; cases hnode
  | follow _ hnode => rw [hnone] at hnode; cases hnode

theorem IsMarkable.stands (h : s.IsMarkable cwd top fs)
    (hdir : fs.at? (top ++ [markersName]) = some .directory) : s.Stands cwd top fs := by
  rcases h.located with habsent | hstands
  · rw [habsent.at?_eq_none] at hdir
    cases hdir
  · exact hstands

theorem IsMarkable.leads (h : s.IsMarkable cwd top fs)
    (hdir : fs.at? (top ++ [markersName]) = some .directory) :
    Leads fs cwd s.markers (top ++ [markersName]) :=
  (h.stands hdir).leads_root.child isEntryName_markersName hdir

/-- The path of the markers leads to their directory, or nowhere. -/
theorem IsMarkable.of_leads (h : s.IsMarkable cwd top fs) (hleads : Leads fs cwd s.markers loc) :
    fs.at? (top ++ [markersName]) = some .directory ∧ loc = top ++ [markersName] := by
  obtain ⟨links, hroute⟩ := hleads
  rw [components_markers] at hroute
  obtain ⟨_, here, hfirst, hlast⟩ := hroute.split
  have hhere : here = top := by
    rcases h.located with habsent | hstands
    · exact absurd ⟨_, hfirst⟩ habsent.not_leads
    · exact Leads.unique ⟨_, hfirst⟩ hstands.leads_root
  subst hhere
  cases hlast with
  | enter _ hdir hnil =>
    cases hnil
    exact ⟨hdir, rfl⟩
  | follow _ hlink =>
    rcases h.folder with hnone | hdir
    · rw [hnone] at hlink
      cases hlink
    · rw [hdir] at hlink
      cases hlink

theorem IsMarkable.fits_marker (h : s.IsMarkable cwd top fs) (hn : Path.IsEntryName n) :
    (s.markers.child n).Fits := by
  have hroom : s.markers.HasRoom 272 := Path.HasRoom.child h.room isEntryName_markersName
  have hlength : n.length ≤ 255 := hn.2.2
  exact (hroom.mono (by omega)).fits_child hn

/-! ## Section 4: What a call keeps -/

theorem OnlyMarker.refl (h : s.IsMarkable cwd top fs) (n : Name) : s.OnlyMarker cwd top n fs fs :=
  ⟨h, fun _ _ _ => rfl⟩

theorem OnlyMarker.trans (h : s.OnlyMarker cwd top n fs fs')
    (h' : s.OnlyMarker cwd top n fs' fs'') : s.OnlyMarker cwd top n fs fs'' :=
  ⟨h'.markable, fun loc hloc hother => (h'.same loc hloc hother).trans (h.same loc hloc hother)⟩

theorem OnlyMarker.item (h : s.OnlyMarker cwd top n fs fs') {i : Item} (hi : i ≠ .marker n) :
    fs'.at? (i.loc top) = fs.at? (i.loc top) := by
  apply h.same _ (not_prefix_folder i)
  intro heq
  have hfront : i.loc top <+: (Item.marker n).loc top ++ [] := ⟨[], congrArg (· ++ []) heq⟩
  exact hi (Item.loc_prefix_iff.1 hfront)

/-- The directory of the markers is made if it is not there. -/
theorem IsMarkable.made (h : s.IsMarkable cwd top fs) (n : Name) :
    ∃ fs', fs.makeDirectories cwd s.markers = .ok fs' ∧ s.OnlyMarker cwd top n fs fs' ∧
      fs'.at? (top ++ [markersName]) = some .directory ∧
      fs'.at? ((Item.marker n).loc top) = fs.at? ((Item.marker n).loc top) := by
  have hroom : s.root.HasRoom (markersName.length + 1 + 0) := h.room.mono (by decide)
  obtain ⟨fs', hmake, hstands, hmade⟩ := h.located.makeDirectories (components_markers s)
    (hroom.fits_child isEntryName_markersName) (by decide) (List.cons_ne_nil _ _)
    fun _ => ⟨h.folder, trivial⟩
  have hdir := hmade.along.1
  refine ⟨fs', hmake, ⟨⟨h.tree.makeDirectories hmake, .inr hstands, h.room, .inr hdir, ?_⟩, ?_⟩,
    hdir, hmade.other _ (not_prefix_folder _)⟩
  · intro m hm
    rw [hmade.other _ (not_prefix_folder _)] at hm
    exact h.names m hm
  · intro loc hloc _
    exact hmade.other loc hloc

/-- To change the node of a marker moves nothing else. -/
theorem IsMarkable.changed (h : s.IsMarkable cwd top fs)
    (hdir : fs.at? (top ++ [markersName]) = some .directory) (htakes : Takes top fs n)
    (htree : fs'.IsTree) (hsame : ∀ loc, loc ≠ (Item.marker n).loc top → fs'.at? loc = fs.at? loc) :
    s.OnlyMarker cwd top n fs fs' := by
  -- A marker takes the place of no directory, so all directories stay.
  have hother : ∀ loc, fs.at? loc = some .directory → loc ≠ (Item.marker n).loc top := by
    rintro loc hloc rfl
    exact htakes.2 hloc
  have hkept : ∀ loc, fs.at? loc = some .directory → fs'.at? loc = some .directory := by
    intro loc hloc
    rw [hsame loc (hother loc hloc), hloc]
  refine ⟨⟨⟨htree, hkept _ h.tree.start⟩, .inr ?_, h.room, .inr (hkept _ hdir), ?_⟩,
    fun loc _ hloc => hsame loc hloc⟩
  · apply (h.stands hdir).of_below
    intro loc hloc
    apply hsame
    rintro rfl
    exact hloc (isBelow_append top (List.cons_ne_nil _ _))
  · intro m hm
    by_cases hmn : m = n
    · rw [hmn]
      exact htakes.1
    · rw [hsame] at hm
      · exact h.names m hm
      · rw [loc_marker, loc_marker]
        simpa using hmn

/-- Where a marker is found, or found missing, it can be made unless a directory
    is there. -/
theorem IsMarkable.of_find (h : s.IsMarkable cwd top fs) (hn : Path.IsPlainName n)
    {found : Found} (hfind : fs.find cwd false (s.markers.child n) = .ok found) :
    fs.at? (top ++ [markersName]) = some .directory ∧ Path.IsEntryName n ∧
      found.place = (Item.marker n).loc top := by
  have hentry := isEntryName_of_find hn hfind
  obtain ⟨loc, hleads⟩ := exists_leads_of_find hn hfind
  obtain ⟨hdir, rfl⟩ := h.of_leads hleads
  refine ⟨hdir, hentry, ?_⟩
  rw [find_child hleads hentry (fits_of_find hfind) false (by simp)] at hfind
  rw [loc_marker]
  cases hnode : fs.at? (top ++ [markersName] ++ [n]) with
  | none => rw [hnode] at hfind; cases hfind; rfl
  | some node => rw [hnode] at hfind; cases hfind; rfl

theorem IsMarkable.removed (h : s.IsMarkable cwd top fs) (hn : Path.IsPlainName n)
    (hremove : fs.removeFile cwd (s.markers.child n) = .ok fs') :
    s.OnlyMarker cwd top n fs fs' := by
  obtain ⟨found, hfind, hnode, rfl⟩ := exists_place_of_removeFile hremove
  obtain ⟨hdir, hentry, hplace⟩ := h.of_find hn hfind
  rw [hplace] at hnode ⊢
  exact h.changed hdir ⟨hentry, hnode⟩ (h.tree.isTree.erase hnode) fun loc hloc =>
    at?_erase_ne fs hloc

theorem IsMarkable.linked (h : s.IsMarkable cwd top fs) (hn : Path.IsPlainName n) {target : Path}
    (hlink : fs.link cwd target (s.markers.child n) = .ok fs') :
    s.OnlyMarker cwd top n fs fs' := by
  obtain ⟨found, hfind, hnode, rfl⟩ := exists_place_of_link hlink
  obtain ⟨hdir, hentry, hplace⟩ := h.of_find hn hfind
  rw [hplace] at hnode ⊢
  refine h.changed hdir ⟨hentry, hnode⟩ ?_ fun loc hloc => at?_put_ne fs _ hloc
  rw [loc_marker] at hnode ⊢
  exact h.tree.isTree.put hdir hnode _

/-- Every request of a call keeps everything but the marker. -/
theorem OnlyMarker.served {h : Host} {F : Request → Prop} {r : Request} {x : r.Answer}
    (hfs : s.OnlyMarker h.cwd top n fs fs') (hn : Path.IsPlainName n)
    (hr : s.Marks (s.markers.child n) r) (hserved : Served h F fs' r x fs'') :
    s.OnlyMarker h.cwd top n fs fs'' := by
  have hlooks : r.looks = true → s.OnlyMarker h.cwd top n fs fs'' := by
    intro hlook
    rw [(Service.faulty h F).looks hserved hlook]
    exact hfs
  -- Of the three requests that change files none can be done in part.
  cases r with
  | makeDirectories p =>
    obtain rfl : p = s.markers := hr
    apply hserved.whole hfs _ (by simp) (by simp)
    apply Machine.files_change hfs
    intro fs₁ hmake
    obtain ⟨fs₂, hmake', hmade, _⟩ := hfs.markable.made n
    rw [hmake] at hmake'
    cases hmake'
    exact hfs.trans hmade
  | removeFile p =>
    obtain rfl : p = s.markers.child n := hr
    apply hserved.whole hfs _ (by simp) (by simp)
    apply Machine.files_change hfs
    intro fs₁ hremove
    exact hfs.trans (hfs.markable.removed hn hremove)
  | link target p =>
    obtain rfl : p = s.markers.child n := hr
    apply hserved.whole hfs _ (by simp) (by simp)
    apply Machine.files_change hfs
    intro fs₁ hlink
    exact hfs.trans (hfs.markable.linked hn hlink)
  | write | removeTree | temporary | setMode | capture | execute => cases hr
  | _ => exact hlooks rfl

theorem marks_writeMarker (s : Store) (i : Identity) (hash : Text) :
    (s.writeMarker i hash).Only (s.Marks (s.markerPath i)) := by
  refine Action.Only.bind (Action.only_lift (only_replaceMarker rfl rfl rfl)) fun made => ?_
  cases made with
  | ok _ => exact Action.only_pure _
  | error e => exact ⟨rfl, fun _ => trivial⟩

/-- At every moment of a call, whatever fails, all but its own marker is as it was. -/
theorem onlyMarker_of_reaches {h : Host} {F : Request → Prop} {i : Identity}
    (hfs : s.IsMarkable h.cwd top fs) (hi : i.IsOfScript)
    {p : Program (Except Failure PUnit)}
    (hreach : Program.Reaches (.faulty h F) (ExceptT.run (s.writeMarker i hash)) fs p fs') :
    s.OnlyMarker h.cwd top (Utf8.encode i.markerName) fs fs' :=
  (Program.Only.keeps (J := s.OnlyMarker h.cwd top (Utf8.encode i.markerName) fs)
    (marks_writeMarker s i hash) fun _ _ _ _ hr hfs hserved =>
      hfs.served hi.isPlainName hr hserved).of_reaches (.refl hfs _) hreach

/-- A call never ends in a failure. -/
theorem gives_writeMarker (s : Store) (i : Identity) (hash : Text) :
    Program.Gives (· = .ok ()) (ExceptT.run (s.writeMarker i hash)) := by
  refine Program.Gives.bind (R := fun x => ∃ y, x = .ok y) ?_ ?_
  · refine Program.Gives.bind (Program.gives_of_forall (R := fun _ => True) (fun _ => trivial) _)
      fun made _ => ?_
    exact ⟨made, rfl⟩
  · rintro _ ⟨made, rfl⟩
    cases made with
    | ok _ => exact rfl
    | error e => exact fun _ => rfl

/-! ## Section 5: What a call makes -/

variable {h : Host} {m : Machine} {i : Identity}

/-- A marker that can be made is out of the way after its removal, be it that there
    was one or not. -/
theorem IsMarkable.exists_removed (hfs : s.IsMarkable cwd top fs)
    (hdir : fs.at? (top ++ [markersName]) = some .directory) (htakes : Takes top fs n) :
    ∃ fs', (fs.removeFile cwd (s.markers.child n) = .ok fs' ∨
        fs.removeFile cwd (s.markers.child n) = .error .noEntry ∧ fs' = fs) ∧
      s.IsMarkable cwd top fs' ∧ fs'.at? (top ++ [markersName]) = some .directory ∧
      fs'.at? (top ++ [markersName] ++ [n]) = none := by
  obtain ⟨hn, hnot⟩ := htakes
  rw [loc_marker] at hnot
  have hchild := removeFile_child (hfs.leads hdir) hn (hfs.fits_marker hn)
  cases hnode : fs.at? (top ++ [markersName] ++ [n]) with
  | none =>
    rw [hnode] at hchild
    exact ⟨fs, .inr ⟨hchild, rfl⟩, hfs, hdir, hnode⟩
  | some node =>
    have hremove : fs.removeFile cwd (s.markers.child n) =
        .ok (fs.erase (top ++ [markersName] ++ [n])) := by
      rw [hchild, hnode]
      cases node with
      | directory => exact absurd hnode hnot
      | _ => rfl
    refine ⟨_, .inl hremove, (hfs.removed hn.1 hremove).markable, ?_, ?_⟩
    · rw [at?_erase_ne _ (by simp), hdir]
    · exact at?_erase_self _ (by simp)

/-- The marker of a call names the entry, whatever it was before. -/
theorem linksTo_markedFiles (hfs : s.IsMarkable h.cwd top fs) (htakes : Takes top fs n)
    (hhash : Path.IsEntryName (Utf8.encode hash)) :
    LinksTo (s.markedFiles h (s.markers.child n) hash fs) top n hash := by
  have htarget : (markerTarget hash).bytes ≠ [] := by
    rw [bytes_markerTarget (isAbsolute_of_isPlainName hhash.1)]
    exact List.append_ne_nil_of_left_ne_nil (by decide) _
  obtain ⟨fs₁, hmake, honly₁, hdir₁, hsame⟩ := hfs.made n
  have htakes₁ : Takes top fs₁ n := ⟨htakes.1, by rw [hsame]; exact htakes.2⟩
  obtain ⟨fs₂, hremove, hfs₂, hdir₂, hnone⟩ := honly₁.markable.exists_removed hdir₁ htakes₁
  have hlink : fs₂.link h.cwd (markerTarget hash) (s.markers.child n) =
      .ok (fs₂.put (top ++ [markersName] ++ [n]) (.link (markerTarget hash))) := by
    rw [link_child (hfs₂.leads hdir₂) htakes.1 (hfs.fits_marker htakes.1) htarget, hnone]
  have hmarked : s.markedFiles h (s.markers.child n) hash fs =
      fs₂.put (top ++ [markersName] ++ [n]) (.link (markerTarget hash)) := by
    unfold markedFiles
    rw [hmake]
    dsimp only
    -- The link is made if the old marker is gone, and if there was none.
    rcases hremove with hremove | ⟨hremove, rfl⟩
    · rw [hremove]
      dsimp only
      rw [hlink]
      rfl
    · rw [hremove]
      dsimp only
      rw [hlink]
      rfl
  show FileSystem.at? _ ((Item.marker n).loc top) = _
  rw [hmarked, loc_marker]
  exact at?_put_self fs₂ _ (by simp)

/-- Where a marker cannot be made, nothing is. -/
theorem at?_markedFiles_of_not_takes (hfs : s.IsMarkable h.cwd top fs) (hnot : ¬ Takes top fs n)
    (honly : s.OnlyMarker h.cwd top n fs (s.markedFiles h (s.markers.child n) hash fs)) :
    (s.markedFiles h (s.markers.child n) hash fs).at? ((Item.marker n).loc top) =
      fs.at? ((Item.marker n).loc top) := by
  by_cases hn : Path.IsEntryName n
  · -- A directory has the name: it is not removed, and so no link is made.
    have hdirectory : fs.at? ((Item.marker n).loc top) = some .directory :=
      Decidable.byContradiction fun hother => hnot ⟨hn, hother⟩
    obtain ⟨fs₁, hmake, honly₁, hdir₁, hsame⟩ := hfs.made n
    have hremove : fs₁.removeFile h.cwd (s.markers.child n) = .error .isDirectory := by
      rw [removeFile_child (honly₁.markable.leads hdir₁) hn (hfs.fits_marker hn), ← loc_marker,
        hsame, hdirectory]
    unfold markedFiles
    rw [hmake]
    dsimp only
    rw [hremove]
    exact hsame
  · have hnone : ∀ fs', s.IsMarkable h.cwd top fs' →
        fs'.at? ((Item.marker n).loc top) = none := by
      intro fs' hfs'
      rw [← Option.not_isSome_iff_eq_none]
      exact fun hthere => hn (hfs'.names n hthere)
    rw [hnone _ honly.markable, hnone fs hfs]

/-- What a call does: it succeeds, changes at most its own marker, and makes it
    if it can be made. -/
theorem exists_run_writeMarker (hfs : s.IsMarkable h.cwd top m.files) (hi : i.IsOfScript)
    (hhash : Path.IsEntryName (Utf8.encode hash)) :
    ∃ m', (s.writeMarker i hash).run h m = (.ok (), m') ∧
      s.OnlyMarker h.cwd top (Utf8.encode i.markerName) m.files m'.files ∧
      if Takes top m.files (Utf8.encode i.markerName) then
        LinksTo m'.files top (Utf8.encode i.markerName) hash
      else m'.files.at? ((Item.marker (Utf8.encode i.markerName)).loc top) =
        m.files.at? ((Item.marker (Utf8.encode i.markerName)).loc top) := by
  obtain ⟨m', hrun, hfiles⟩ := run_writeMarker s i hash h m
  have hreach := Program.reaches_run h (fun _ => False) (ExceptT.run (s.writeMarker i hash)) m
  have honly := onlyMarker_of_reaches hfs hi hreach
  unfold Action.run at hrun
  rw [hrun] at honly
  refine ⟨m', hrun, honly, ?_⟩
  dsimp only at honly
  rw [hfiles] at honly ⊢
  split
  · next htakes => exact linksTo_markedFiles hfs htakes hhash
  · next hnot => exact at?_markedFiles_of_not_takes hfs hnot honly

end Store
end ScriptDeps
