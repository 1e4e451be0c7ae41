import ScriptDeps.Prepare
import ScriptDeps.Proofs.Store.Place
import ScriptDeps.Proofs.Store.Steps

/-! # Bringing an entry up to date

    What `refresh` does to an entry whose own files are plain, told by the
    nodes in its directory: the manifest is written unless it is fresh, the
    placeholder is made unless it is there, and nothing else changes. -/

namespace ScriptDeps

open FileSystem

/-! ## Section 1: Plain nodes -/

namespace FileSystem

variable {fs : FileSystem} {loc : Location}

/-- If something is at `loc`, it is a directory or a file. -/
def IsPlain (fs : FileSystem) (loc : Location) : Prop :=
  ∀ node, fs.at? loc = some node → node = .directory ∨ node.isFile = true

theorem isPlain_of_file {content : Bytes} {modified : Instant} {mode : Nat}
    (hnode : fs.at? loc = some (.file content modified mode)) : IsPlain fs loc := by
  intro node hnode'
  rw [hnode] at hnode'
  cases hnode'
  exact .inr rfl

theorem IsPlain.noLink (h : IsPlain fs loc) : NoLink fs loc := by
  intro t hnode
  rcases h _ hnode with hdir | hfile
  · cases hdir
  · cases hfile

theorem IsPlain.cases (h : IsPlain fs loc) :
    fs.at? loc = none ∨ fs.at? loc = some .directory ∨
      ∃ content modified mode, fs.at? loc = some (.file content modified mode) := by
  cases hnode : fs.at? loc with
  | none => exact .inl rfl
  | some node =>
    rcases h node hnode with rfl | hfile
    · exact .inr (.inl rfl)
    · cases node with
      | file content modified mode => exact .inr (.inr ⟨content, modified, mode, rfl⟩)
      | directory => cases hfile
      | link t => cases hfile
      | pipe content => cases hfile

theorem IsPlain.of_same {fs' : FileSystem} (h : IsPlain fs loc) (hsame : fs'.at? loc = fs.at? loc) :
    IsPlain fs' loc :=
  fun node hnode => h node (hsame ▸ hnode)

end FileSystem

namespace Store

/-! ## Section 2: The entry -/

/-- The names that a store knows in an entry. -/
def ownNames : List Name := [manifestName, placeholderName, recordName, buildName]

theorem isEntryName_of_mem_ownNames {n : Name} (h : n ∈ ownNames) : Path.IsEntryName n := by
  have hall : ∀ n ∈ ownNames, Path.IsEntryName n := by decide
  exact hall n h

/-- The path `dir` leads to the directory `d`, and the paths of the files in
    it can be followed as well. -/
structure LeadsToEntry (fs : FileSystem) (cwd : Location) (dir : Path) (d : Location) : Prop where
  leads     : fs.Leads cwd dir d
  directory : fs.at? d = some .directory
  fitsDir   : dir.Fits
  fits      : ∀ n ∈ ownNames, (dir.child n).Fits

theorem LeadsToEntry.mono {fs fs' : FileSystem} {cwd d : Location} {dir : Path}
    (h : LeadsToEntry fs cwd dir d) (hkeeps : Keeps fs fs') : LeadsToEntry fs' cwd dir d :=
  ⟨h.leads.mono hkeeps, hkeeps d _ h.directory (.inl rfl), h.fitsDir, h.fits⟩

variable {s : Store} {h : Host} {fs : FileSystem} {dir : Path} {d : Location} {content : Bytes}

/-- The file at `loc` has the content `content` and is not stale. -/
def IsFreshAt (s : Store) (h : Host) (fs : FileSystem) (loc : Location) (content : Bytes) : Prop :=
  ∃ modified mode, fs.at? loc = some (.file content modified mode) ∧
    s.isStale modified h.now = false

theorem isFresh_iff (hentry : LeadsToEntry fs h.cwd dir d)
    (hplain : IsPlain fs (d ++ [manifestName])) :
    s.IsFresh h fs dir content ↔ s.IsFreshAt h fs (d ++ [manifestName]) content := by
  have hname := isEntryName_manifestName
  have hfits := hentry.fits manifestName (by decide)
  have hfind := findNode_child hentry.leads hname hfits true fun _ => hplain.noLink
  have hread := read_child hentry.leads hname hfits hplain.noLink
  unfold IsFresh IsFreshAt
  rw [manifestIn_eq, hfind, hread]
  constructor
  · rintro ⟨loc, node, hnode, hcontent, hstale⟩
    rcases hplain.cases with h' | h' | ⟨c, modified, mode, h'⟩
    · rw [h'] at hnode
      cases hnode
    · rw [h'] at hcontent
      cases hcontent
    · rw [h'] at hnode hcontent
      cases hnode
      cases hcontent
      exact ⟨modified, mode, h', hstale⟩
  · rintro ⟨modified, mode, hnode, hstale⟩
    rw [hnode]
    exact ⟨_, _, rfl, rfl, hstale⟩

/-! ## Section 3: The refresh -/

/-- What a refresh makes of an entry at `d`. -/
structure Refreshed (s : Store) (h : Host) (content : Bytes) (d : Location)
    (fs fs' : FileSystem) (refreshed : Bool) : Prop where
  fresh : refreshed = false ↔ s.IsFreshAt h fs (d ++ [manifestName]) content
  /-- The manifest is as asked for: a new one, or the one that was there. -/
  manifest : ∃ modified mode, fs'.at? (d ++ [manifestName]) = some (.file content modified mode) ∧
    (if refreshed then modified = h.now
      else fs.at? (d ++ [manifestName]) = some (.file content modified mode))
  /-- The placeholder is there: a new file, or what was there. -/
  placeholder : ∃ node, fs'.at? (d ++ [placeholderName]) = some node ∧
    (fs.at? (d ++ [placeholderName]) = some node ∨ node.isFile = true)
  /-- Where one was there, it is left as it is, and so may be all files. -/
  kept : ∀ node, fs.at? (d ++ [placeholderName]) = some node →
    fs'.at? (d ++ [placeholderName]) = some node ∧ (refreshed = false → fs' = fs)
  other : ∀ loc, loc ≠ d ++ [manifestName] → loc ≠ d ++ [placeholderName] →
    fs'.at? loc = fs.at? loc
  keeps : Keeps fs fs'

/-- The placeholder is made unless there is one. -/
theorem run_ensurePlaceholder_at {m : Machine} (hentry : LeadsToEntry m.files h.cwd dir d)
    (hplain : IsPlain m.files (d ++ [placeholderName])) :
    ∃ fs', (ensurePlaceholder dir).run h m = (.ok (), { m with files := fs' }) ∧
      (∃ node, fs'.at? (d ++ [placeholderName]) = some node ∧
        (m.files.at? (d ++ [placeholderName]) = some node ∨ node.isFile = true)) ∧
      (∀ node, m.files.at? (d ++ [placeholderName]) = some node → fs' = m.files) ∧
      (∀ loc, loc ≠ d ++ [placeholderName] → fs'.at? loc = m.files.at? loc) ∧
      Keeps m.files fs' := by
  have hname := isEntryName_placeholderName
  have hfits := hentry.fits placeholderName (by decide)
  have hpresent := isPresent_child hentry.leads hname hfits hplain.noLink
  have hwrite := write_child hentry.leads hname hfits hplain.noLink h.now []
  rw [run_ensurePlaceholder, placeholderIn_eq, hpresent, hwrite]
  cases hnode : m.files.at? (d ++ [placeholderName]) with
  | none =>
    -- It is made where nothing was, so everything else is kept.
    have hne : d ++ [placeholderName] ≠ [] := by simp
    refine ⟨_, rfl, ⟨_, at?_put_self m.files _ hne, .inr rfl⟩, ?_,
      fun loc hloc => at?_put_ne m.files _ hloc,
      keeps_put_file hne (by rw [hnode]; simp) hplain.noLink _⟩
    intro node hnode'
    cases hnode'
  | some node =>
    exact ⟨m.files, rfl, ⟨node, hnode, .inl rfl⟩, fun _ _ => rfl, fun _ _ => rfl,
      .refl _⟩

/-- The manifest is written where a file or nothing is. -/
theorem write_manifest_at {m : Machine} (content : Bytes)
    (hentry : LeadsToEntry m.files h.cwd dir d) (hplain : IsPlain m.files (d ++ [manifestName])) :
    (∃ mode, m.files.write h.cwd h.now (manifestIn dir) content =
        .ok (m.files.put (d ++ [manifestName]) (.file content h.now mode)) ∧
      m.files.at? (d ++ [manifestName]) ≠ some .directory) ∨
    m.files.write h.cwd h.now (manifestIn dir) content = .error .isDirectory ∧
      m.files.at? (d ++ [manifestName]) = some .directory := by
  have hname := isEntryName_manifestName
  have hfits := hentry.fits manifestName (by decide)
  have hwrite := write_child hentry.leads hname hfits hplain.noLink h.now content
  rw [manifestIn_eq, hwrite]
  rcases hplain.cases with hnode | hnode | ⟨c, modified, mode, hnode⟩
  · rw [hnode]
    exact .inl ⟨plainMode, rfl, by simp⟩
  · rw [hnode]
    exact .inr ⟨rfl, rfl⟩
  · rw [hnode]
    exact .inl ⟨mode, rfl, by simp⟩

end Store

namespace Prepare

open Store

variable {s : Store} {h : Host} {dir : Path} {d : Location} {m m' : Machine} {mf : Manifest}

theorem manifest_ne_placeholder (d : Location) : d ++ [manifestName] ≠ d ++ [placeholderName] := by
  intro heq
  have hnames := List.append_cancel_left heq
  exact absurd hnames (by decide)

/-- A refresh that succeeds has written what is missing, or has found the
    manifest fresh. -/
theorem run_refresh_ok {b : Bool} (hrun : (refresh s dir mf).run h m = (.ok b, m')) :
    (b = false ↔ s.IsFresh h m.files dir mf.bytes) ∧
      (if b then materialize dir mf else ensurePlaceholder dir).run h m = (.ok (), m') := by
  unfold refresh at hrun
  rcases hneeds : (s.needsRefresh dir mf.bytes).run h m with ⟨e | refreshed, m₁⟩
  · rw [Action.run_bind_error hneeds] at hrun
    cases hrun
  · obtain ⟨rfl, hfresh⟩ := run_needsRefresh hneeds
    rw [Action.run_bind_ok hneeds] at hrun
    cases refreshed with
    | false =>
      rw [if_neg Bool.false_ne_true] at hrun
      rcases hstep : (ensurePlaceholder dir).run h m₁ with ⟨e | _, m₂⟩
      · rw [Action.run_bind_error hstep] at hrun
        cases hrun
      · rw [Action.run_bind_ok hstep] at hrun
        cases hrun
        exact ⟨hfresh, hstep⟩
    | true =>
      rw [if_pos rfl] at hrun
      rcases hstep : (materialize dir mf).run h m₁ with ⟨e | _, m₂⟩
      · rw [Action.run_bind_error hstep] at hrun
        cases hrun
      · rw [Action.run_bind_ok hstep] at hrun
        cases hrun
        exact ⟨hfresh, hstep⟩

/-- A fresh manifest is left as it is. -/
theorem run_refresh_fresh (hfresh : s.IsFresh h m.files dir mf.bytes)
    (hplace : (ensurePlaceholder dir).run h m = (.ok (), m')) :
    (refresh s dir mf).run h m = (.ok false, m') := by
  have ⟨_, _, _, hread, _⟩ := hfresh
  obtain ⟨b, hneeds⟩ := exists_run_needsRefresh s mf.bytes (.inr ⟨_, hread⟩)
  obtain rfl := (run_needsRefresh hneeds).2.2 hfresh
  unfold refresh
  rw [Action.run_bind_ok hneeds, if_neg Bool.false_ne_true, Action.run_bind_ok hplace]
  rfl

/-- The manifest is written and the placeholder made where files or nothing
    are. -/
theorem run_materialize_at (mf : Manifest) (hentry : LeadsToEntry m.files h.cwd dir d)
    (hmanifest : IsPlain m.files (d ++ [manifestName]))
    (hdir : m.files.at? (d ++ [manifestName]) ≠ some .directory)
    (hplaceholder : IsPlain m.files (d ++ [placeholderName])) :
    ∃ fs' mode, (materialize dir mf).run h m = (.ok (), { m with files := fs' }) ∧
      fs'.at? (d ++ [manifestName]) = some (.file mf.bytes h.now mode) ∧
      (∃ node, fs'.at? (d ++ [placeholderName]) = some node ∧
        (m.files.at? (d ++ [placeholderName]) = some node ∨ node.isFile = true)) ∧
      (∀ node, m.files.at? (d ++ [placeholderName]) = some node →
        fs'.at? (d ++ [placeholderName]) = some node) ∧
      (∀ loc, loc ≠ d ++ [manifestName] → loc ≠ d ++ [placeholderName] →
        fs'.at? loc = m.files.at? loc) ∧
      Keeps m.files fs' := by
  rcases write_manifest_at mf.bytes hentry hmanifest with ⟨mode, hwrite, _⟩ | ⟨_, hnode⟩
  · -- The manifest comes first, and leaves the placeholder as it is.
    have hkeeps₁ := keeps_put_file (by simp) hdir hmanifest.noLink (.file mf.bytes h.now mode)
    have hput : (m.files.put (d ++ [manifestName]) (.file mf.bytes h.now mode)).at?
        (d ++ [placeholderName]) = m.files.at? (d ++ [placeholderName]) :=
      at?_put_ne _ _ (manifest_ne_placeholder d).symm
    obtain ⟨fs', hplace, hthere, hkept, hother, hkeeps⟩ :=
      run_ensurePlaceholder_at (h := h)
        (m := { m with files := m.files.put _ (.file mf.bytes h.now mode) })
        (hentry.mono hkeeps₁) (hplaceholder.of_same hput)
    rw [hput] at hthere
    refine ⟨fs', mode, ?_, ?_, hthere, fun node hnode => ?_, fun loc hmloc hploc => ?_,
      hkeeps₁.trans hkeeps⟩
    · rw [run_materialize, hwrite]
      exact hplace
    · rw [hother _ (manifest_ne_placeholder d)]
      exact at?_put_self _ _ (by simp)
    · rw [← hput] at hnode
      rw [hkept node hnode]
      exact hnode
    · rw [hother loc hploc]
      exact at?_put_ne _ _ hmloc
  · exact absurd hnode hdir

/-- A refresh that succeeds leaves the manifest as asked for. -/
theorem run_refresh_at {b : Bool} (hentry : LeadsToEntry m.files h.cwd dir d)
    (hmanifest : IsPlain m.files (d ++ [manifestName]))
    (hplaceholder : IsPlain m.files (d ++ [placeholderName]))
    (hrun : (refresh s dir mf).run h m = (.ok b, m')) :
    ∃ fs', m' = { m with files := fs' } ∧ s.Refreshed h mf.bytes d m.files fs' b := by
  obtain ⟨hfresh, hstep⟩ := run_refresh_ok hrun
  rw [isFresh_iff hentry hmanifest] at hfresh
  cases b with
  | false =>
    -- The manifest was fresh and is as it was.
    obtain ⟨fs', hplace, hthere, hkept, hother, hkeeps⟩ :=
      run_ensurePlaceholder_at hentry hplaceholder
    rw [if_neg Bool.false_ne_true, hplace] at hstep
    cases hstep
    refine ⟨fs', rfl, hfresh, ?_, hthere, fun node hnode => ?_,
      fun loc _ hloc => hother loc hloc, hkeeps⟩
    · obtain ⟨modified, mode, hnode, _⟩ := hfresh.1 rfl
      refine ⟨modified, mode, ?_, hnode⟩
      rw [hother _ (manifest_ne_placeholder d), hnode]
    · obtain rfl := hkept node hnode
      exact ⟨hnode, fun _ => rfl⟩
  | true =>
    rw [if_pos rfl] at hstep
    -- Over a directory the manifest could not have been written.
    have hdir : m.files.at? (d ++ [manifestName]) ≠ some .directory := by
      rcases write_manifest_at mf.bytes hentry hmanifest with ⟨_, _, hdir⟩ | ⟨hwrite, _⟩
      · exact hdir
      · rw [run_materialize, hwrite] at hstep
        cases hstep
    obtain ⟨fs', mode, hmaterialize, hnode, hthere, hkept, hother, hkeeps⟩ :=
      run_materialize_at mf hentry hmanifest hdir hplaceholder
    cases hmaterialize.symm.trans hstep
    exact ⟨fs', rfl, hfresh, ⟨h.now, mode, hnode, rfl⟩, hthere,
      fun node hnode => ⟨hkept node hnode, nofun⟩, hother, hkeeps⟩

/-- A refresh succeeds unless a directory stands in place of the manifest. -/
theorem exists_run_refresh (s : Store) (mf : Manifest) (hentry : LeadsToEntry m.files h.cwd dir d)
    (hmanifest : IsPlain m.files (d ++ [manifestName]))
    (hdir : m.files.at? (d ++ [manifestName]) ≠ some .directory)
    (hplaceholder : IsPlain m.files (d ++ [placeholderName])) :
    ∃ b m', (refresh s dir mf).run h m = (.ok b, m') := by
  have hread := read_child hentry.leads isEntryName_manifestName
    (hentry.fits manifestName (by decide)) hmanifest.noLink
  have hneeds : ∃ b, (s.needsRefresh dir mf.bytes).run h m = (.ok b, m) := by
    refine exists_run_needsRefresh s mf.bytes ?_
    rw [manifestIn_eq, hread]
    rcases hmanifest.cases with hnode | hnode | ⟨c, modified, mode, hnode⟩
    · rw [hnode]
      exact .inl rfl
    · exact absurd hnode hdir
    · rw [hnode]
      exact .inr ⟨c, rfl⟩
  obtain ⟨b, hneeds⟩ := hneeds
  unfold refresh
  rw [Action.run_bind_ok hneeds]
  cases b with
  | false =>
    obtain ⟨fs', hplace, _⟩ := run_ensurePlaceholder_at (h := h) hentry hplaceholder
    rw [if_neg Bool.false_ne_true, Action.run_bind_ok hplace]
    exact ⟨_, _, rfl⟩
  | true =>
    obtain ⟨fs', _, hmaterialize, _⟩ :=
      run_materialize_at (h := h) mf hentry hmanifest hdir hplaceholder
    rw [if_pos rfl, Action.run_bind_ok hmaterialize]
    exact ⟨_, _, rfl⟩

end Prepare
end ScriptDeps
