import ScriptDeps.Proofs.Prepare.Stages

/-! # Settled entries

    Once a run has refreshed an entry, the entry is settled: its manifest and
    its placeholder are there.  Nothing that a run does afterwards unsettles
    it, and the next run on it has nothing to refresh unless the manifest has
    become stale (`ready_of_settled`). -/

namespace ScriptDeps

open FileSystem

namespace Store

variable {s : Store} {h : Host} {cwd top : Location} {mf : Manifest} {fs fs' : FileSystem}

/-! ## Section 1: Model -/

/-- The nodes that the store uses for the entry of `mf`, if they are there:
    directories where it makes directories, and directories or files where it
    makes files. -/
structure IsPlainCache (top : Location) (mf : Manifest) (fs : FileSystem) : Prop where
  clear       : ClearAlong fs top [storeName, Utf8.encode mf.hash]
  manifest    : IsPlain fs (entryAt top mf.hash ++ [manifestName])
  placeholder : IsPlain fs (entryAt top mf.hash ++ [placeholderName])
  record      : IsPlain fs (entryAt top mf.hash ++ [recordName])
  markers     : ClearAlong fs top [markersName]

/-- The entry of `mf` is there with its manifest and its placeholder. -/
structure Settled (s : Store) (cwd top : Location) (mf : Manifest) (fs : FileSystem) : Prop where
  stands      : s.Stands cwd top fs
  directories : DirectoriesAlong fs top [storeName, Utf8.encode mf.hash]
  manifest    : ∃ modified mode,
    fs.at? (entryAt top mf.hash ++ [manifestName]) = some (.file mf.bytes modified mode)
  placeholder : ∃ node, fs.at? (entryAt top mf.hash ++ [placeholderName]) = some node ∧
    (node = .directory ∨ node.isFile = true)
  record      : IsPlain fs (entryAt top mf.hash ++ [recordName])
  markers     : ClearAlong fs top [markersName]

theorem Settled.leadsToEntry (hsettled : s.Settled cwd top mf fs) (hroomy : s.IsRoomy) :
    LeadsToEntry fs cwd (s.entry mf.hash) (entryAt top mf.hash) :=
  hsettled.stands.leadsToEntry hroomy hsettled.directories

/-- A settled entry is that of a plain cache. -/
theorem Settled.isPlainCache (hsettled : s.Settled cwd top mf fs) : IsPlainCache top mf fs := by
  obtain ⟨modified, mode, hmanifest⟩ := hsettled.manifest
  obtain ⟨node, hnode, hkind⟩ := hsettled.placeholder
  refine ⟨⟨.inr hsettled.directories.1, .inr hsettled.directories.2.1, trivial⟩,
    isPlain_of_file hmanifest, ?_, hsettled.record, hsettled.markers⟩
  intro node' hnode'
  rw [hnode] at hnode'
  cases hnode'
  exact hkind

/-! ## Section 2: Stages keep an entry settled -/

/-- The locations of what makes an entry settled. -/
def settledAt (top : Location) (mf : Manifest) : List Location :=
  [top ++ [storeName], entryAt top mf.hash, entryAt top mf.hash ++ [manifestName],
    entryAt top mf.hash ++ [placeholderName]]

theorem record_notMem_settledAt (top : Location) (mf : Manifest) :
    entryAt top mf.hash ++ [recordName] ∉ settledAt top mf := by
  intro hmem
  simp only [settledAt, List.mem_cons, List.append_cancel_left_eq, List.append_right_eq_self,
    List.not_mem_nil, or_false] at hmem
  rcases hmem with hstore | hentry | hmanifest | hplaceholder
  · have hlength := congrArg List.length hstore
    simp [entryAt] at hlength
  · exact absurd hentry (by decide)
  · exact absurd hmanifest (by decide)
  · exact absurd hplaceholder (by decide)

theorem Settled.of_same (hsettled : s.Settled cwd top mf fs) (hstands : s.Stands cwd top fs')
    (hsame : ∀ loc ∈ settledAt top mf, fs'.at? loc = fs.at? loc)
    (hrecord : IsPlain fs' (entryAt top mf.hash ++ [recordName]))
    (hmarkers : ClearAlong fs' top [markersName]) : s.Settled cwd top mf fs' := by
  obtain ⟨hstore, hentry⟩ := directoriesAlong_entry.1 hsettled.directories
  have hstore' := hsame (top ++ [storeName]) (by simp [settledAt])
  have hentry' := hsame (entryAt top mf.hash) (by simp [settledAt])
  have hmanifest := hsame (entryAt top mf.hash ++ [manifestName]) (by simp [settledAt])
  have hplaceholder := hsame (entryAt top mf.hash ++ [placeholderName]) (by simp [settledAt])
  refine ⟨hstands, directoriesAlong_entry.2 ⟨hstore' ▸ hstore, hentry' ▸ hentry⟩, ?_, ?_, hrecord,
    hmarkers⟩
  · rw [hmanifest]
    exact hsettled.manifest
  · rw [hplaceholder]
    exact hsettled.placeholder

theorem Settled.builtIn (hsettled : s.Settled cwd top mf fs)
    (hbuilt : BuiltIn (entryAt top mf.hash) fs fs') : s.Settled cwd top mf fs' := by
  refine hsettled.of_same (hsettled.stands.of_below hbuilt.sameAbove) (fun loc hloc => ?_)
    (hsettled.record.of_same (hbuilt.at?_child (by decide) []))
    (hsettled.markers.of_same ((sameResults_builtIn hbuilt).marker []))
  simp only [settledAt, List.mem_cons, List.not_mem_nil, or_false] at hloc
  rcases hloc with rfl | rfl | rfl | rfl
  · exact hbuilt.at?_prefix ⟨[Utf8.encode mf.hash], List.append_assoc ..⟩
  · exact hbuilt.at?_prefix (List.prefix_refl _)
  · exact hbuilt.at?_child (by decide) []
  · exact hbuilt.at?_child (by decide) []

theorem Settled.saved (hsettled : s.Settled h.cwd top mf fs) (hroomy : s.IsRoomy) {r : Record}
    (hr : r.directory = s.entry mf.hash) :
    s.Settled h.cwd top mf (Prepare.savedFiles h r fs) := by
  have hentry := hsettled.leadsToEntry hroomy
  rw [← hr] at hentry
  have hother := savedFiles_other hentry hsettled.record
  have habove : SameAbove top fs (Prepare.savedFiles h r fs) := by
    intro loc hloc
    refine hother loc ?_
    rintro rfl
    exact hloc (isBelow_entryAt top mf.hash _)
  refine hsettled.of_same (hsettled.stands.of_below habove) (fun loc hloc => hother loc ?_)
    (isPlain_savedFiles hentry hsettled.record) (hsettled.markers.of_same (hother _ ?_))
  · rintro rfl
    exact record_notMem_settledAt top mf hloc
  · rw [entryAt_append]
    exact fun heq => absurd (List.cons.inj (List.append_cancel_left heq)).1 (by decide)

theorem Settled.marked (hsettled : s.Settled cwd top mf fs) (hmarked : s.Marked cwd top fs fs') :
    s.Settled cwd top mf fs' := by
  have hentry := hmarked.at?_entry mf.hash
  refine hsettled.of_same hmarked.stands (fun loc hloc => ?_) (hsettled.record.of_same (hentry _))
    ⟨.inr hmarked.directory, trivial⟩
  simp only [settledAt, List.mem_cons, List.not_mem_nil, or_false] at hloc
  rcases hloc with rfl | rfl | rfl | rfl
  · exact hmarked.at?_store []
  · exact hmarked.at?_store [Utf8.encode mf.hash]
  · exact hentry _
  · exact hentry _

end Store

namespace Prepare

open Store

variable {s : Store} {h : Host} {top : Location} {mf : Manifest} {m m' : Machine}

/-! ## Section 3: Runs on a plain cache -/

/-- What a run on a plain cache has done when it looks for a record. -/
theorem Ready.opened {refreshed : Bool} (hready : Ready s mf h m refreshed m')
    (hlocated : s.Located h.cwd top m.files) (hroomy : s.IsRoomy)
    (hplain : IsPlainCache top mf m.files) :
    ∃ fs, s.Opened h.cwd top mf m.files fs ∧
      s.Refreshed h mf.bytes (entryAt top mf.hash) fs m'.files refreshed := by
  obtain ⟨fs, hmake, hrun⟩ := hready
  obtain ⟨fs₁, hmake₁, hopened⟩ := hlocated.open hroomy fun _ => hplain.clear
  obtain rfl : fs₁ = fs := Except.ok.inj (hmake₁.symm.trans hmake)
  have hentry := hopened.leadsToEntry hroomy
  obtain ⟨fs₂, rfl, hrefreshed⟩ := run_refresh_at hentry
    (hplain.manifest.of_same (hopened.at?_entry manifestName []))
    (hplain.placeholder.of_same (hopened.at?_entry placeholderName [])) hrun
  exact ⟨fs₁, hopened, hrefreshed⟩

/-- A run on a plain cache gets as far as looking for a record, unless a
    directory stands in place of the manifest. -/
theorem exists_ready (hlocated : s.Located h.cwd top m.files) (hroomy : s.IsRoomy)
    (hplain : IsPlainCache top mf m.files)
    (hdir : m.files.at? (entryAt top mf.hash ++ [manifestName]) ≠ some .directory) :
    ∃ refreshed m', Ready s mf h m refreshed m' := by
  obtain ⟨fs, hmake, hopened⟩ := hlocated.open hroomy fun _ => hplain.clear
  have hmanifest := hopened.at?_entry manifestName []
  obtain ⟨refreshed, m', hrun⟩ := exists_run_refresh (m := { m with files := fs }) s mf
    (hopened.leadsToEntry hroomy) (hplain.manifest.of_same hmanifest)
    (by rw [hmanifest]; exact hdir)
    (hplain.placeholder.of_same (hopened.at?_entry placeholderName []))
  exact ⟨refreshed, m', fs, hmake, hrun⟩

theorem settled_of_refreshed {fs fs₁ fs₂ : FileSystem} {refreshed : Bool}
    (hplain : IsPlainCache top mf fs) (hopened : s.Opened h.cwd top mf fs fs₁)
    (hrefreshed : s.Refreshed h mf.bytes (entryAt top mf.hash) fs₁ fs₂ refreshed) :
    s.Settled h.cwd top mf fs₂ := by
  have habove : SameAbove top fs₁ fs₂ := by
    intro loc hloc
    refine hrefreshed.other loc ?_ ?_
    · rintro rfl
      exact hloc (isBelow_entryAt top mf.hash _)
    · rintro rfl
      exact hloc (isBelow_entryAt top mf.hash _)
  have hsame := sameResults_ready hopened hrefreshed
  obtain ⟨modified, mode, hmanifest, _⟩ := hrefreshed.manifest
  obtain ⟨node, hnode, hkind⟩ := hrefreshed.placeholder
  have hplaceholder : node = .directory ∨ node.isFile = true := by
    refine hkind.elim (fun hthere => ?_) .inr
    rw [hopened.at?_entry placeholderName []] at hthere
    exact hplain.placeholder node hthere
  exact ⟨hopened.stands.of_below habove, hopened.made.along.mono hrefreshed.keeps,
    ⟨modified, mode, hmanifest⟩, ⟨node, hnode, hplaceholder⟩,
    hplain.record.of_same (hsame.entry mf.hash), hplain.markers.of_same (hsame.marker [])⟩

/-- The next run on a settled entry has nothing to do, unless the manifest
    has become stale. -/
theorem ready_of_settled (hsettled : s.Settled h.cwd top mf m.files) (hroomy : s.IsRoomy)
    {modified : Instant} {mode : Nat}
    (hmanifest : m.files.at? (entryAt top mf.hash ++ [manifestName]) =
      some (.file mf.bytes modified mode)) :
    if s.isStale modified h.now = false then Ready s mf h m false m
    else ∃ m', Ready s mf h m true m' := by
  have hentry := hsettled.leadsToEntry hroomy
  have hmake := hsettled.stands.open_again hroomy hsettled.directories
  have hplain := hsettled.isPlainCache.manifest
  have hplaceholder := hsettled.isPlainCache.placeholder
  obtain ⟨node, hnode, _⟩ := hsettled.placeholder
  obtain ⟨refreshed, m', hrun⟩ := exists_run_refresh (m := m) s mf hentry hplain
    (by rw [hmanifest]; simp) hplaceholder
  obtain ⟨fs, rfl, hrefreshed⟩ := run_refresh_at hentry hplain hplaceholder hrun
  have hfresh : refreshed = false ↔ s.isStale modified h.now = false := by
    rw [hrefreshed.fresh]
    constructor
    · rintro ⟨modified', mode', hnode', hstale⟩
      rw [hmanifest] at hnode'
      cases hnode'
      exact hstale
    · exact fun hstale => ⟨modified, mode, hmanifest, hstale⟩
  split
  · next hstale =>
    -- Manifest and placeholder are there, so the files are left as they are.
    obtain rfl := hfresh.2 hstale
    obtain rfl := (hrefreshed.kept node hnode).2 rfl
    exact ⟨m.files, hmake, hrun⟩
  · next hstale =>
    obtain rfl : refreshed = true := by simpa using fun h => hstale (hfresh.1 h)
    exact ⟨_, m.files, hmake, hrun⟩

/-- What a run on a plain cache has done when it asks the toolchain. -/
theorem exists_asked {o : Options} (hlocated : s.Located h.cwd top m.files) (hroomy : s.IsRoomy)
    (hplain : IsPlainCache top mf m.files) (hasks : (record o s mf).asksToolchain h m = true) :
    ∃ fs₁ fs₂ refreshed, s.Opened h.cwd top mf m.files fs₁ ∧
      s.Refreshed h mf.bytes (entryAt top mf.hash) fs₁ fs₂ refreshed ∧
      s.Settled h.cwd top mf fs₂ ∧
      Resolved h o (s.entry mf.hash) mf fs₂ ((record o s mf).run h m).1
        ((record o s mf).run h m).2.files := by
  obtain ⟨refreshed, m₁, hready⟩ := exists_ready_of_asks hasks
  obtain ⟨fs₁, hopened, hrefreshed⟩ := hready.opened hlocated hroomy hplain
  refine ⟨fs₁, m₁.files, refreshed, hopened, hrefreshed,
    settled_of_refreshed hplain hopened hrefreshed, resolved_of_ready hready ?_⟩
  cases hreuse : reuse? o m₁.files h.cwd (s.entry mf.hash) mf.hash refreshed with
  | none => rfl
  | some r =>
    obtain ⟨_, hnot⟩ := run_record_reused hready hreuse
    rw [hasks] at hnot
    cases hnot

/-- The manifest of `mf` is in its entry, and was there before and fresh, or
    has been written. -/
def HasManifest (s : Store) (h : Host) (top : Location) (mf : Manifest) (fs fs' : FileSystem)
    (modified : Instant) : Prop :=
  ∃ mode, fs'.at? (entryAt top mf.hash ++ [manifestName]) = some (.file mf.bytes modified mode) ∧
    (fs.at? (entryAt top mf.hash ++ [manifestName]) = some (.file mf.bytes modified mode) ∧
        s.isStale modified h.now = false ∨
      modified = h.now)

/-- What a run that has asked the toolchain leaves in the entry of `mf`. -/
structure Left (o : Options) (s : Store) (h : Host) (top : Location) (mf : Manifest)
    (fs fs' : FileSystem) (result : Except Failure Record) : Prop where
  settled  : s.Settled h.cwd top mf fs'
  manifest : ∃ modified, HasManifest s h top mf fs fs' modified
  recorded : ∀ r, result = .ok r → ∃ args, r = newRecord h o (s.entry mf.hash) mf args
  /-- A failure is that of the resolution, and leaves the record as it was. -/
  failed   : ∀ f, result = .error f → f.isResolution = true ∧
    fs'.at? (entryAt top mf.hash ++ [recordName]) = fs.at? (entryAt top mf.hash ++ [recordName])

theorem left_of_asked {o : Options} (hlocated : s.Located h.cwd top m.files) (hroomy : s.IsRoomy)
    (hplain : IsPlainCache top mf m.files) (hconfined : h.Confined)
    (hasks : (record o s mf).asksToolchain h m = true) :
    Left o s h top mf m.files ((record o s mf).run h m).2.files ((record o s mf).run h m).1 := by
  obtain ⟨fs₁, fs₂, refreshed, hopened, hrefreshed, hsettled, hresolved⟩ :=
    exists_asked hlocated hroomy hplain hasks
  have hentry := hsettled.leadsToEntry hroomy
  have hmanifest : ∃ modified, HasManifest s h top mf m.files fs₂ modified := by
    obtain ⟨modified, mode, hnode, hwritten⟩ := hrefreshed.manifest
    refine ⟨modified, mode, hnode, ?_⟩
    cases refreshed with
    | true => exact .inr hwritten
    | false =>
      obtain ⟨modified', mode', hfresh, hrecent⟩ := hrefreshed.fresh.1 rfl
      cases hwritten.symm.trans hfresh
      exact .inl ⟨hopened.at?_entry manifestName [] ▸ hfresh, hrecent⟩
  have hrecord := (sameResults_ready hopened hrefreshed).entry mf.hash
  generalize ((record o s mf).run h m).1 = result at hresolved ⊢
  generalize ((record o s mf).run h m).2.files = fs₃ at hresolved ⊢
  obtain ⟨modified, mode, hnode, hwritten⟩ := hmanifest
  -- Neither building nor saving touches the manifest, and a failure saves nothing.
  cases hresolved with
  | notStarted hcall =>
    refine ⟨hsettled, ⟨modified, mode, hnode, hwritten⟩, nofun, fun f hf => ?_⟩
    cases hf
    exact ⟨rfl, hrecord⟩
  | failed hcall hresult =>
    have hbuilt := hentry.builtIn hconfined hcall
    refine ⟨hsettled.builtIn hbuilt, ⟨modified, mode, ?_, hwritten⟩, nofun, fun f hf => ?_⟩
    · rw [hbuilt.at?_child (by decide), hnode]
    · cases hf
      rw [hbuilt.at?_child (by decide), hrecord]
      exact ⟨Resolve.isResolution_of_result hresult, rfl⟩
  | recorded hcall _ =>
    have hbuilt := hentry.builtIn hconfined hcall
    have hsettled₂ := hsettled.builtIn hbuilt
    refine ⟨hsettled₂.saved hroomy rfl, ⟨modified, mode, ?_, hwritten⟩, fun r hr => ?_, nofun⟩
    · rw [savedFiles_other (hsettled₂.leadsToEntry hroomy) hsettled₂.record _ (by simp; decide),
        hbuilt.at?_child (by decide), hnode]
    · cases hr
      exact ⟨_, rfl⟩

/-- Where no record is, the toolchain is asked. -/
theorem asks_without_record {o : Options} (hlocated : s.Located h.cwd top m.files)
    (hroomy : s.IsRoomy) (hplain : IsPlainCache top mf m.files)
    (hdir : m.files.at? (entryAt top mf.hash ++ [manifestName]) ≠ some .directory)
    (hnone : recordAt? m.files (entryAt top mf.hash) mf.hash = none) :
    (record o s mf).asksToolchain h m = true := by
  obtain ⟨refreshed, m', hready⟩ := exists_ready hlocated hroomy hplain hdir
  obtain ⟨fs, hopened, hrefreshed⟩ := hready.opened hlocated hroomy hplain
  have hsettled := settled_of_refreshed hplain hopened hrefreshed
  have hsame := (sameResults_ready hopened hrefreshed).entry mf.hash
  refine (run_record_resolved hready ?_).2
  unfold reuse?
  rw [usable?_at (hsettled.leadsToEntry hroomy) hsettled.record, recordAt?_congr hsame, hnone]
  split <;> rfl

/-! ## Section 4: Runs on settled entries -/

/-- What it takes for a run on a settled entry to reuse `r`, if the manifest
    was written at `modified`. -/
structure Recalls (o : Options) (s : Store) (h : Host) (top : Location) (mf : Manifest)
    (fs : FileSystem) (modified : Instant) (r : Record) : Prop where
  wanted : o.reuse = true
  recent : s.isStale modified h.now = false
  record : recordAt? fs (entryAt top mf.hash) mf.hash = some r
  mode   : r.releaseMode = o.release
  build  : fs.isPresent h.cwd (buildIn (s.entry mf.hash)) = true

theorem reuse?_of_present {o : Options} {fs : FileSystem} {cwd d : Location} {dir : Path}
    {hash : Text} {r : Record} (hentry : LeadsToEntry fs cwd dir d)
    (hplain : IsPlain fs (d ++ [recordName])) (hrecord : recordAt? fs d hash = some r)
    (hbuild : fs.isPresent cwd (buildIn dir) = true) (hwanted : o.reuse = true)
    (hmode : r.releaseMode = o.release) : reuse? o fs cwd dir hash false = some r := by
  unfold reuse?
  rw [usable?_at hentry hplain, if_pos (by rw [hwanted]; rfl), hrecord]
  simp [Option.filter, hmode, hbuild]

theorem reuse?_settled {o : Options} (hsettled : s.Settled h.cwd top mf m.files)
    (hroomy : s.IsRoomy) {modified : Instant} (hrecent : s.isStale modified h.now = false)
    {r : Record} :
    reuse? o m.files h.cwd (s.entry mf.hash) mf.hash false = some r ↔
      Recalls o s h top mf m.files modified r := by
  constructor
  · intro hreuse
    unfold reuse? at hreuse
    rw [usable?_at (hsettled.leadsToEntry hroomy) hsettled.record] at hreuse
    split at hreuse
    · next hwanted =>
      simp only [Option.filter_eq_some_iff, decide_eq_true_eq] at hreuse
      rw [Bool.not_false, Bool.and_true] at hwanted
      exact ⟨hwanted, hrecent, hreuse.1.1, hreuse.2, hreuse.1.2⟩
    · cases hreuse
  · rintro ⟨hwanted, _, hrecord, hmode, hbuild⟩
    exact reuse?_of_present (hsettled.leadsToEntry hroomy) hsettled.record hrecord hbuild hwanted
      hmode

/-- A run on a settled entry reuses a record and leaves the entry alone, or it
    asks the toolchain. -/
theorem run_record_settled {o : Options} (hsettled : s.Settled h.cwd top mf m.files)
    (hroomy : s.IsRoomy) {modified : Instant} {mode : Nat}
    (hmanifest : m.files.at? (entryAt top mf.hash ++ [manifestName]) =
      some (.file mf.bytes modified mode)) :
    (∀ r, Recalls o s h top mf m.files modified r →
      (∃ m', (record o s mf).run h m = (.ok r, m') ∧ m'.files = m.files) ∧
        (record o s mf).asksToolchain h m = false) ∧
    ((¬ ∃ r, Recalls o s h top mf m.files modified r) →
      (record o s mf).asksToolchain h m = true) := by
  have hready := ready_of_settled hsettled hroomy hmanifest
  split at hready
  · next hrecent =>
    have hiff := fun r => reuse?_settled (o := o) hsettled hroomy hrecent (r := r)
    refine ⟨fun r hrecalls => run_record_reused hready ((hiff r).2 hrecalls), fun hnone => ?_⟩
    refine (run_record_resolved hready ?_).2
    cases hreuse : reuse? o m.files h.cwd (s.entry mf.hash) mf.hash false with
    | none => rfl
    | some r => exact absurd ⟨r, (hiff r).1 hreuse⟩ hnone
  · next hstale =>
    obtain ⟨m', hready⟩ := hready
    refine ⟨fun r hrecalls => absurd hrecalls.recent hstale, fun _ => ?_⟩
    exact (run_record_resolved hready (by simp [reuse?])).2

end Prepare
end ScriptDeps
