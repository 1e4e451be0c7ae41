import ScriptDeps.Proofs.Prepare.Builder

/-! # Reusing a record

    When a run does without the toolchain: exactly if a record is wanted, the
    manifest is fresh, and the record can be used (`Reuses`).  The conditions
    are read before the placeholder is made, which could only change them if
    it, the record or the build directory were a link.  From this follows the
    law of the repeated run: what one run has recorded the next one reuses. -/

namespace ScriptDeps

open FileSystem

namespace Prepare

open Store

variable {homes homes' : Homes} {o : Options} {s : Store} {source source' : Script.Source}
  {h h' : Host} {m m₁ m₂ : Machine} {dir : Path} {mf : Manifest} {fs fs' : FileSystem}
  {cwd top : Location}

/-! ## Section 1: Conditions -/

/-- The conditions for reusing `r` in the entry of `mf`. -/
structure Reuses (o : Options) (s : Store) (h : Host) (mf : Manifest) (fs : FileSystem)
    (r : Record) : Prop where
  wanted   : o.reuse = true
  manifest : fs.read h.cwd (manifestIn (s.entry mf.hash)) = .ok mf.bytes
  recent   : ∃ loc node, fs.findNode h.cwd true (manifestIn (s.entry mf.hash)) = .ok (loc, node) ∧
    s.isStale (Machine.statusOf node).modified h.now = false
  record   : ∃ t, fs.read h.cwd (recordIn (s.entry mf.hash)) = .ok (Utf8.encode t) ∧
    Record.ofText? t = some r
  hash     : r.hash = mf.hash
  mode     : r.releaseMode = o.release
  build    : fs.isPresent h.cwd (buildIn (s.entry mf.hash)) = true

theorem usable?_eq_some {hash : Text} {r : Record} :
    usable? fs cwd dir hash = some r ↔
      (∃ t, fs.read cwd (recordIn dir) = .ok (Utf8.encode t) ∧ Record.ofText? t = some r) ∧
        r.hash = hash ∧ fs.isPresent cwd (buildIn dir) = true := by
  unfold usable?
  cases hread : fs.read cwd (recordIn dir) with
  | error e => simp
  | ok bytes =>
    simp only [Option.filter_eq_some_iff, Option.bind_eq_some_iff, Utf8.decode_eq_some_iff,
      Except.ok.injEq, Bool.and_eq_true, decide_eq_true_eq]

/-- A run reuses what it finds if the manifest is fresh. -/
theorem reuses_iff {refreshed : Bool} {r : Record}
    (hfresh : refreshed = false ↔ s.IsFresh h fs (s.entry mf.hash) mf.bytes) :
    reuse? o fs h.cwd (s.entry mf.hash) mf.hash refreshed = some r ↔ Reuses o s h mf fs r := by
  unfold reuse?
  constructor
  · intro hreuse
    split at hreuse
    · next hwanted =>
      rw [Bool.and_eq_true, Bool.not_eq_true'] at hwanted
      obtain ⟨loc, node, hfind, hread, hrecent⟩ := hfresh.1 hwanted.2
      obtain ⟨husable, hmode⟩ := Option.filter_eq_some_iff.1 hreuse
      obtain ⟨hrecord, hhash, hbuild⟩ := usable?_eq_some.1 husable
      exact ⟨hwanted.1, hread, ⟨loc, node, hfind, hrecent⟩, hrecord, hhash, by simpa using hmode,
        hbuild⟩
    · cases hreuse
  · rintro ⟨hwanted, hread, ⟨loc, node, hfind, hrecent⟩, hrecord, hhash, hmode, hbuild⟩
    have hrefreshed := hfresh.2 ⟨loc, node, hfind, hread, hrecent⟩
    rw [if_pos (by rw [hwanted, hrefreshed]; rfl), usable?_eq_some.2 ⟨hrecord, hhash, hbuild⟩]
    simp [Option.filter, hmode]

/-! ## Section 2: The placeholder does not matter -/

/-- Nothing in the entry is a link but perhaps the manifest. -/
def NoLinks (fs : FileSystem) (cwd : Location) (dir : Path) : Prop :=
  ∀ n ∈ [placeholderName, recordName, buildName], ∀ t, fs.readLink cwd (dir.child n) ≠ .ok t

theorem noLinks_of_leadsToEntry {d : Location} (hentry : LeadsToEntry fs cwd dir d)
    (hnone : ∀ n ∈ [placeholderName, recordName, buildName], NoLink fs (d ++ [n])) :
    NoLinks fs cwd dir := by
  intro n hn t hlink
  have hown : n ∈ ownNames := List.mem_cons_of_mem _ hn
  unfold readLink at hlink
  rw [findNode_child hentry.leads (isEntryName_of_mem_ownNames hown) (hentry.fits n hown) false
    (by simp)] at hlink
  cases hnode : fs.at? (d ++ [n]) with
  | none =>
    rw [hnode] at hlink
    cases hlink
  | some node =>
    rw [hnode] at hlink
    cases node with
    | link t => exact hnone n hn t hnode
    | directory => cases hlink
    | file content modified mode => cases hlink
    | pipe content => cases hlink

theorem read_congr {p : Path} (hsame : fs'.findNode cwd true p = fs.findNode cwd true p) :
    fs'.read cwd p = fs.read cwd p := by
  rw [FileSystem.read, FileSystem.read, hsame]

theorem isPresent_congr {p : Path} (hsame : fs'.findNode cwd true p = fs.findNode cwd true p) :
    fs'.isPresent cwd p = fs.isPresent cwd p := by
  rw [isPresent, isPresent, hsame]

/-- Where nothing was found, a placeholder that is no link is missing from the
    directory of the entry. -/
theorem exists_leads_of_written {content : Bytes} (hlinks : NoLinks fs cwd dir)
    (habsent : fs.isPresent cwd (placeholderIn dir) ≠ true)
    (hwrite : fs.write cwd h.now (placeholderIn dir) content = .ok fs') :
    ∃ d, fs.Leads cwd dir d ∧ fs.at? (d ++ [placeholderName]) = none ∧
      fs' = fs.put (d ++ [placeholderName]) (.file content h.now plainMode) := by
  rw [placeholderIn_eq] at habsent hwrite
  have hname := isEntryName_placeholderName
  obtain ⟨found, hfind⟩ : ∃ found, fs.find cwd true (dir.child placeholderName) = .ok found := by
    cases hfind : fs.find cwd true (dir.child placeholderName) with
    | ok found => exact ⟨found, rfl⟩
    | error e =>
      unfold write at hwrite
      rw [hfind] at hwrite
      cases hwrite
  obtain ⟨d, hleads⟩ := exists_leads_of_find hname.1 hfind
  have hfits := fits_of_find hfind
  have hnone := noLink_of_readLink hleads hname hfits (hlinks _ (by decide))
  rw [isPresent_child hleads hname hfits hnone] at habsent
  rw [write_child hleads hname hfits hnone] at hwrite
  cases hnode : fs.at? (d ++ [placeholderName]) with
  | some node =>
    rw [hnode] at habsent
    exact absurd rfl habsent
  | none =>
    rw [hnode] at hwrite
    exact ⟨d, hleads, hnode, (Except.ok.inj hwrite).symm⟩

/-- Making the placeholder neither gives nor takes a record. -/
theorem usable?_ensurePlaceholder (hlinks : NoLinks m.files h.cwd dir)
    (hrun : (ensurePlaceholder dir).run h m = (.ok (), m₁)) (hash : Text) :
    usable? m₁.files h.cwd dir hash = usable? m.files h.cwd dir hash := by
  rw [run_ensurePlaceholder] at hrun
  split at hrun
  · cases hrun
    rfl
  · next habsent =>
    cases hwrite : m.files.write h.cwd h.now (placeholderIn dir) [] with
    | error e =>
      rw [hwrite] at hrun
      cases hrun
    | ok fs' =>
      rw [hwrite] at hrun
      cases hrun
      -- It has been made in the directory of the entry, which nothing else there notices.
      obtain ⟨d, hleads, hnode, rfl⟩ := exists_leads_of_written hlinks habsent hwrite
      have hkeeps : Keeps m.files (m.files.put (d ++ [placeholderName])
          (.file [] h.now plainMode)) :=
        keeps_put_file (by simp) (by rw [hnode]; simp) (fun t => by rw [hnode]; simp) _
      have hleads' := hleads.mono hkeeps
      have hsame : ∀ n ∈ [recordName, buildName],
          (m.files.put (d ++ [placeholderName]) (.file [] h.now plainMode)).findNode h.cwd true
            (dir.child n) = m.files.findNode h.cwd true (dir.child n) := by
        intro n hn
        have hne : n ≠ placeholderName := by
          rintro rfl
          exact absurd hn (by decide)
        refine findNode_congr hleads hleads'
          (isEntryName_of_mem_ownNames (List.mem_cons_of_mem _ (List.mem_cons_of_mem _ hn)))
          (hlinks n (List.mem_cons_of_mem _ hn)) (at?_put_ne _ _ ?_)
        exact fun heq => hne (List.cons.inj (List.append_cancel_left heq)).1
      unfold usable?
      rw [recordIn_eq, buildIn_eq, read_congr (hsame recordName (by decide)),
        isPresent_congr (hsame buildName (by decide))]

/-- A run reuses a record exactly if the conditions hold when its entry has
    been made. -/
theorem reuse?_of_refresh {refreshed : Bool} {r : Record}
    (hlinks : NoLinks m.files h.cwd (s.entry mf.hash))
    (hrun : (refresh s (s.entry mf.hash) mf).run h m = (.ok refreshed, m₁)) :
    reuse? o m₁.files h.cwd (s.entry mf.hash) mf.hash refreshed = some r ↔
      Reuses o s h mf m.files r := by
  obtain ⟨hfresh, hstep⟩ := run_refresh_ok hrun
  rw [← reuses_iff hfresh]
  cases refreshed with
  | true => simp [reuse?]
  | false =>
    have hsame := usable?_ensurePlaceholder hlinks hstep mf.hash
    unfold reuse?
    rw [hsame]

/-! ## Section 3: The entry after a run -/

variable {scanned scanned' : Script.Scan} {content content' : Bytes}

/-- The marker, if there is one, does not touch a settled entry. -/
theorem settled_of_marked {marker : Bool} {hash : Text} (hsettled : s.Settled h.cwd top mf fs)
    (hroomy : s.IsRoomy)
    (hmarked : fs' = if marker then
        s.markedFiles h (s.markerPath (source.identity (sha256Hex content))) hash fs
      else fs) :
    s.Settled h.cwd top mf fs' ∧
      ∀ names, fs'.at? (entryAt top mf.hash ++ names) = fs.at? (entryAt top mf.hash ++ names) := by
  rcases hsettled.stands.same_or_marked hroomy hsettled.markers hmarked with rfl | hkept
  · exact ⟨hsettled, fun _ => rfl⟩
  · exact ⟨hsettled.marked hkept, hkept.at?_entry mf.hash⟩

/-- A successful run that has asked the toolchain returns the new record, and
    leaves a settled entry. -/
theorem settled_of_prepared {p : Prepared}
    (hscan : (scan homes source).run h m = (.ok (scanned, content), m₁))
    (hbusy : (scanned.dependencies.isEmpty && o.skipPackage) = false)
    (hmf : manifestFor o scanned.dependencies = mf)
    (hlocated : s.Located h.cwd top m.files) (hroomy : s.IsRoomy)
    (hplain : IsPlainCache top mf m.files) (hconfined : h.Confined)
    (hasks : (prepare homes o s source).asksToolchain h m = true)
    (hrun : (prepare homes o s source).run h m = (.ok p, m₂)) :
    p.record = some (newRecord h o (s.entry mf.hash) mf p.args) ∧
      s.Settled h.cwd top mf m₂.files ∧
      ∃ modified, HasManifest s h top mf m.files m₂.files modified := by
  subst hmf
  obtain ⟨hhash, hfiles⟩ := run_scan hscan
  rw [asksToolchain_prepare hscan hbusy] at hasks
  rw [← hfiles] at hlocated hplain ⊢
  have hleft := left_of_asked hlocated hroomy hplain hconfined hasks
  rcases hrecord : (record o s (manifestFor o scanned.dependencies)).run h m₁ with ⟨f | r, m₃⟩
  · rw [run_prepare_error hscan hbusy hrecord] at hrun
    cases hrun
  · obtain ⟨m₄, hprepare, hmarked⟩ := run_prepare_ok hscan hbusy hrecord
    rw [hprepare] at hrun
    cases hrun
    rw [hhash] at hmarked
    rw [hrecord] at hleft
    obtain ⟨hsettled, hentry⟩ := settled_of_marked hleft.settled hroomy hmarked
    obtain ⟨args, rfl⟩ := hleft.recorded r rfl
    obtain ⟨modified, mode, hnode, hwritten⟩ := hleft.manifest
    exact ⟨rfl, hsettled, modified, mode, (hentry _).trans hnode, hwritten⟩

/-- A run on a settled entry that can reuse a record returns its arguments
    without the toolchain, and leaves the entry as it is. -/
theorem prepare_recalls {modified : Instant} {mode : Nat} {r : Record}
    (hscan : (scan homes source).run h m = (.ok (scanned, content), m₁))
    (hbusy : (scanned.dependencies.isEmpty && o.skipPackage) = false)
    (hmf : manifestFor o scanned.dependencies = mf)
    (hsettled : s.Settled h.cwd top mf m.files) (hroomy : s.IsRoomy)
    (hmanifest : m.files.at? (entryAt top mf.hash ++ [manifestName]) =
      some (.file mf.bytes modified mode))
    (hrecalls : Recalls o s h top mf m.files modified r) :
    (prepare homes o s source).asksToolchain h m = false ∧
      ∃ p m₂, (prepare homes o s source).run h m = (.ok p, m₂) ∧ p.args = r.args ∧
        p.record = some r ∧
        ∀ names, m₂.files.at? (entryAt top mf.hash ++ names) =
          m.files.at? (entryAt top mf.hash ++ names) := by
  subst hmf
  obtain ⟨hhash, hfiles⟩ := run_scan hscan
  rw [← hfiles] at hsettled hmanifest hrecalls
  obtain ⟨⟨m₂, hrecord, hsame⟩, hasks⟩ :=
    (run_record_settled hsettled hroomy hmanifest).1 r hrecalls
  obtain ⟨m₃, hprepare, hmarked⟩ := run_prepare_ok hscan hbusy hrecord
  rw [hhash, hsame] at hmarked
  rw [asksToolchain_prepare hscan hbusy, ← hfiles]
  exact ⟨hasks, _, m₃, hprepare, rfl, rfl, (settled_of_marked hsettled hroomy hmarked).2⟩

/-- On a settled entry a run does without the toolchain exactly if it can reuse
    the record that is there. -/
theorem prepare_settled_iff {modified : Instant} {mode : Nat}
    (hscan : (scan homes source).run h m = (.ok (scanned, content), m₁))
    (hbusy : (scanned.dependencies.isEmpty && o.skipPackage) = false)
    (hmf : manifestFor o scanned.dependencies = mf)
    (hsettled : s.Settled h.cwd top mf m.files) (hroomy : s.IsRoomy)
    (hmanifest : m.files.at? (entryAt top mf.hash ++ [manifestName]) =
      some (.file mf.bytes modified mode)) :
    (prepare homes o s source).asksToolchain h m = false ↔
      ∃ r, Recalls o s h top mf m.files modified r := by
  constructor
  · intro hnot
    refine Classical.byContradiction fun hnone => ?_
    obtain ⟨_, hfiles⟩ := run_scan hscan
    rw [asksToolchain_prepare hscan hbusy, hmf] at hnot
    rw [← hfiles] at hsettled hmanifest hnone
    rw [(run_record_settled hsettled hroomy hmanifest).2 hnone] at hnot
    cases hnot
  · rintro ⟨r, hr⟩
    exact (prepare_recalls hscan hbusy hmf hsettled hroomy hmanifest hr).1

/-- What a run has saved the next one reuses, as long as the manifest is not
    stale. -/
theorem prepare_repeats {p : Prepared} {r : Record}
    (hscan : (scan homes source).run h m = (.ok (scanned, content), m₁))
    (hbusy : (scanned.dependencies.isEmpty && o.skipPackage) = false)
    (hmf : manifestFor o scanned.dependencies = mf)
    (hlocated : s.Located h.cwd top m.files) (hroomy : s.IsRoomy)
    (hplain : IsPlainCache top mf m.files) (hconfined : h.Confined) (hdated : h.Dated)
    (hreuse : o.reuse = true) (hasks : (prepare homes o s source).asksToolchain h m = true)
    (hrun : (prepare homes o s source).run h m = (.ok p, m₂)) (hrecord : p.record = some r)
    (hkept : Kept s h.cwd top mf r m₂.files) :
    ∃ modified, HasManifest s h top mf m.files m₂.files modified ∧
      ∀ homes' source' h' seen scanned' content' m₃, h'.cwd = h.cwd →
        s.isStale modified h'.now = false →
        (scan homes' source').run h' ⟨m₂.files, seen⟩ = (.ok (scanned', content'), m₃) →
        scanned'.dependencies = scanned.dependencies →
        (prepare homes' o s source').asksToolchain h' ⟨m₂.files, seen⟩ = false ∧
          ∃ p' m₄, (prepare homes' o s source').run h' ⟨m₂.files, seen⟩ = (.ok p', m₄) ∧
            p'.args = p.args ∧ p'.record = p.record ∧
            ∀ names, m₄.files.at? (entryAt top mf.hash ++ names) =
              m₂.files.at? (entryAt top mf.hash ++ names) := by
  obtain ⟨hnew, hsettled, modified, mode, hmanifest, hwritten⟩ :=
    settled_of_prepared hscan hbusy hmf hlocated hroomy hplain hconfined hasks hrun
  obtain rfl := Option.some.inj (hrecord.symm.trans hnew)
  refine ⟨modified, ⟨mode, hmanifest, hwritten⟩, ?_⟩
  intro homes' source' h' seen scanned' content' m₃ hcwd hrecent hscan' hsame
  rw [← hsame] at hbusy hmf
  rw [← hcwd] at hsettled hkept
  have hrecalls : Recalls o s h' top mf m₂.files modified
      (newRecord h o (s.entry mf.hash) mf p.args) :=
    ⟨hreuse, hrecent, recordAt?_of_kept hkept rfl hdated, rfl, hkept.build⟩
  obtain ⟨hnot, p', m₄, hrun', hargs', hrecord', hentry⟩ :=
    prepare_recalls (m := ⟨m₂.files, seen⟩) hscan' hbusy hmf hsettled hroomy hmanifest hrecalls
  exact ⟨hnot, p', m₄, hrun', hargs', hrecord'.trans hrecord.symm, hentry⟩

/-! ## Section 4: The law of reuse -/

/-- Once the entry is there with its manifest and its placeholder, and neither
    the placeholder nor the record nor the build directory is a link: a run
    does without the toolchain exactly if it can reuse a record, and then
    returns its arguments.  Otherwise it goes on as without a record, and only
    the resolution can fail.  In a plain cache the next run reuses what one has
    saved, and leaves the entry as it is. -/
theorem prepare_reuses_iff {refreshed : Bool}
    (hscan : (scan homes source).run h m = (.ok (scanned, content), m₁))
    (hdeps : scanned.dependencies ≠ []) (hmf : manifestFor o scanned.dependencies = mf)
    (hmake : m₁.files.makeDirectories h.cwd (s.entry mf.hash) = .ok fs)
    (hrefresh : (refresh s (s.entry mf.hash) mf).run h { m₁ with files := fs } =
      (.ok refreshed, m₂))
    (hlinks : NoLinks fs h.cwd (s.entry mf.hash)) :
    ((prepare homes o s source).asksToolchain h m = false ↔ ∃ r, Reuses o s h mf fs r) ∧
    (∀ r, Reuses o s h mf fs r →
      ((prepare homes o s source).run h m).1.map (fun p => (p.args, p.record)) =
        .ok (r.args, some r)) ∧
    ((¬ ∃ r, Reuses o s h mf fs r) →
      (∃ m₃, AtMostLogged m₂ m₃ ∧
        ((prepare homes o s source).run h m).1.map (fun p => (p.args, p.record)) =
          ((resolve o (s.entry mf.hash) mf).run h m₃).1.map fun r => (r.args, some r)) ∧
      ∀ f, ((prepare homes o s source).run h m).1 = .error f → f.isResolution = true) ∧
    ∀ top p m' r, s.Located h.cwd top m.files → s.IsRoomy → IsPlainCache top mf m.files →
      h.Confined → h.Dated → o.reuse = true →
      (prepare homes o s source).asksToolchain h m = true →
      (prepare homes o s source).run h m = (.ok p, m') → p.record = some r →
      Kept s h.cwd top mf r m'.files →
      ∃ modified, HasManifest s h top mf m.files m'.files modified ∧
        ∀ homes' source' h' seen scanned' content' m₃, h'.cwd = h.cwd →
          s.isStale modified h'.now = false →
          (scan homes' source').run h' ⟨m'.files, seen⟩ = (.ok (scanned', content'), m₃) →
          scanned'.dependencies = scanned.dependencies →
          (prepare homes' o s source').asksToolchain h' ⟨m'.files, seen⟩ = false ∧
            ∃ p' m₄, (prepare homes' o s source').run h' ⟨m'.files, seen⟩ = (.ok p', m₄) ∧
              p'.args = p.args ∧ p'.record = p.record ∧
              ∀ names, m₄.files.at? (entryAt top mf.hash ++ names) =
                m'.files.at? (entryAt top mf.hash ++ names) := by
  have hbusy : (scanned.dependencies.isEmpty && o.skipPackage) = false := by
    rw [List.isEmpty_eq_false_iff.2 hdeps, Bool.false_and]
  have hready : Ready s mf h m₁ refreshed m₂ := ⟨fs, hmake, hrefresh⟩
  have hiff := fun r => reuse?_of_refresh (o := o) (r := r) hlinks hrefresh
  have hresult := result_prepare (s := s) hscan hbusy
  have hasks := asksToolchain_prepare (s := s) hscan hbusy
  rw [hmf] at hresult hasks
  have hnothing : (¬ ∃ r, Reuses o s h mf fs r) →
      reuse? o m₂.files h.cwd (s.entry mf.hash) mf.hash refreshed = none := by
    intro hnone
    cases hreuse : reuse? o m₂.files h.cwd (s.entry mf.hash) mf.hash refreshed with
    | none => rfl
    | some r => exact absurd ⟨r, (hiff r).1 hreuse⟩ hnone
  refine ⟨⟨fun hnot => ?_, fun ⟨r, hr⟩ => ?_⟩, fun r hr => ?_,
    fun hnone => ⟨?_, fun f hf => ?_⟩, ?_⟩
  · -- With nothing to reuse the run resolves, and to resolve is to ask.
    refine Classical.byContradiction fun hnone => ?_
    rw [hasks, (run_record_resolved hready (hnothing hnone)).2] at hnot
    cases hnot
  · rw [hasks, (run_record_reused hready ((hiff r).2 hr)).2]
  · obtain ⟨⟨m₃, hrun, _⟩, _⟩ := run_record_reused hready ((hiff r).2 hr)
    rw [hresult, hrun]
    rfl
  · obtain ⟨⟨m₃, hlogged, hrun⟩, _⟩ := run_record_resolved hready (hnothing hnone)
    exact ⟨m₃, hlogged, by rw [hresult, hrun]⟩
  · have hresolved := resolved_of_ready hready (hnothing hnone)
    rw [hf] at hresult
    cases hrun : ((record o s mf).run h m₁).1 with
    | error f' =>
      rw [hrun] at hresult hresolved
      cases hresult
      exact hresolved.isResolution
    | ok r =>
      rw [hrun] at hresult
      cases hresult
  · intro top p m' r hlocated hroomy hplain hconfined hdated hreuse hasked hrun hrecord hkept
    exact prepare_repeats hscan hbusy hmf hlocated hroomy hplain hconfined hdated hreuse hasked
      hrun hrecord hkept

/-- The first run asks, and what it has saved the second run, a minute later,
    returns. -/
theorem prepare_reuses_iff_twice :
    ∃ p m', (prepare smallHomes smallOptions smallStore (.ofStdin "/")).run
        (smallHost 0 smallAnswer) ⟨.empty, []⟩ = (.ok p, m') ∧
      (prepare smallHomes smallOptions smallStore (.ofStdin "/")).asksToolchain
        (smallHost 0 smallAnswer) ⟨.empty, []⟩ = true ∧
      (prepare smallHomes smallOptions smallStore (.ofStdin "/")).asksToolchain
        (smallHost 60000000000 []) ⟨m'.files, []⟩ = false ∧
      ∃ p' m'', (prepare smallHomes smallOptions smallStore (.ofStdin "/")).run
        (smallHost 60000000000 []) ⟨m'.files, []⟩ = (.ok p', m'') ∧ p'.args = p.args := by
  obtain ⟨m₁, hscan⟩ := run_smallScan 0 smallAnswer ⟨.empty, []⟩
  have hfiles : m₁.files = .empty := (run_scan hscan).2
  have hplain := isPlainCache_empty smallTop smallManifest
  have hlocated := located_small
  rw [← hfiles] at hplain hlocated
  obtain ⟨refreshed, m₂, fs, hmake, hrefresh⟩ :=
    exists_ready (h := smallHost 0 smallAnswer) hlocated isRoomy_small hplain
      (by rw [hfiles, at?_empty]; simp)
  obtain ⟨fs', hmake', hopened⟩ := hlocated.open isRoomy_small fun _ => hplain.clear
  obtain rfl : fs' = fs := Except.ok.inj (hmake'.symm.trans hmake)
  have hentry := hopened.leadsToEntry isRoomy_small
  have hnone : ∀ n, fs'.at? (entryAt smallTop smallManifest.hash ++ [n]) = none := by
    intro n
    rw [hopened.at?_entry n [], hfiles, at?_empty]
  have hlinks := noLinks_of_leadsToEntry hentry fun n _ t => by rw [hnone]; simp
  obtain ⟨_, _, _, hrepeat⟩ := prepare_reuses_iff (o := smallOptions) hscan
    smallScan_dependencies rfl hmake hrefresh hlinks
  obtain ⟨p, r, m', _, hrun, hrecord, hkept, _⟩ := prepare_builds hscan smallScan_busy rfl rfl
    located_small isRoomy_small ⟨"/c".toList, rfl⟩ (isPlainCache_empty _ _)
    (by rw [at?_empty]; simp) result_smallAnswer (asks_small 0 smallAnswer)
  obtain ⟨modified, ⟨mode, _, hwritten⟩, hagain⟩ := hrepeat smallTop p m' r located_small
    isRoomy_small (isPlainCache_empty _ _) (Host.confined_builder _ _) (by decide) rfl
    (asks_small 0 smallAnswer) hrun hrecord hkept
  obtain rfl : modified = 0 := by
    rcases hwritten with ⟨hold, _⟩ | hnew
    · rw [at?_empty] at hold
      cases hold
    · exact hnew
  obtain ⟨m₃, hscan'⟩ := run_smallScan 60000000000 [] ⟨m'.files, []⟩
  obtain ⟨hnot, p', m₄, hrun', hargs, _⟩ := hagain smallHomes (.ofStdin "/")
    (smallHost 60000000000 []) [] smallScan smallScript m₃ rfl (by decide) hscan' rfl
  exact ⟨p, m', hrun, asks_small 0 smallAnswer, hnot, p', m₄, hrun', hargs⟩

/-- A placeholder that links to the missing build directory is made there. -/
theorem run_ensurePlaceholder_linked {links : Nat} {d : Location}
    (hroute : Route m.files linkLimit h.cwd dir.components (links + 1) d)
    (hfits : (dir.child placeholderName).Fits)
    (hnode : m.files.at? (d ++ [placeholderName]) = some (.link ⟨buildName⟩))
    (hbuild : m.files.at? (d ++ [buildName]) = none) :
    (ensurePlaceholder dir).run h m =
      (.ok (), { m with files := m.files.put (d ++ [buildName]) (.file [] h.now plainMode) }) := by
  have hsteps : (⟨buildName⟩ : Path).steps = [.name buildName] := by decide
  have hfind := find_linked hroute isEntryName_placeholderName hfits hnode hsteps (by decide)
    fun t => by rw [hbuild]; simp
  rw [hbuild] at hfind
  have habsent : m.files.isPresent h.cwd (placeholderIn dir) ≠ true := by
    rw [placeholderIn_eq, isPresent, findNode, hfind]
    exact Bool.false_ne_true
  rw [run_ensurePlaceholder, if_neg habsent, placeholderIn_eq, write, hfind]
  dsimp only
  rw [if_neg (Path.getLast?_bytes_child dir isEntryName_placeholderName.1)]

/-- An entry with a fresh manifest and a record, whose placeholder links to the
    build directory, which is missing. -/
def linkedFiles (mf : Manifest) (t : Text) : FileSystem :=
  ⟨[(smallTop, .directory), (smallTop ++ [storeName], .directory),
    (entryAt smallTop mf.hash, .directory),
    (entryAt smallTop mf.hash ++ [manifestName], .file mf.bytes 0 plainMode),
    (entryAt smallTop mf.hash ++ [recordName], .file (Utf8.encode t) 0 plainMode),
    (entryAt smallTop mf.hash ++ [placeholderName], .link ⟨buildName⟩)]⟩

theorem at?_linkedFiles (mf : Manifest) (t : Text) :
    (linkedFiles mf t).at? smallTop = some .directory ∧
    (linkedFiles mf t).at? (smallTop ++ [storeName]) = some .directory ∧
    (linkedFiles mf t).at? (entryAt smallTop mf.hash) = some .directory ∧
    (linkedFiles mf t).at? (entryAt smallTop mf.hash ++ [manifestName]) =
      some (.file mf.bytes 0 plainMode) ∧
    (linkedFiles mf t).at? (entryAt smallTop mf.hash ++ [recordName]) =
      some (.file (Utf8.encode t) 0 plainMode) ∧
    (linkedFiles mf t).at? (entryAt smallTop mf.hash ++ [placeholderName]) =
      some (.link ⟨buildName⟩) ∧
    (linkedFiles mf t).at? (entryAt smallTop mf.hash ++ [buildName]) = none := by
  have hnames : (recordName == manifestName) = false ∧ (placeholderName == manifestName) = false ∧
      (placeholderName == recordName) = false ∧ (buildName == manifestName) = false ∧
      (buildName == recordName) = false ∧ (buildName == placeholderName) = false := by decide
  simp [linkedFiles, at?, smallTop, entryAt, List.lookup_cons, hnames]

theorem stands_linkedFiles (mf : Manifest) (t : Text) :
    smallStore.Stands [] smallTop (linkedFiles mf t) := by
  obtain ⟨htop, _⟩ := at?_linkedFiles mf t
  refine ⟨htop, linkLimit, .root [] (.enter (by decide) ?_ (.nil _ _))⟩
  rw [at?_above, if_neg (fun hbelow => hbelow.2 rfl)]
  exact htop

theorem route_entry_small (mf : Manifest) (htop : fs.at? smallTop = some .directory)
    (hdirs : DirectoriesAlong fs smallTop [storeName, Utf8.encode mf.hash]) :
    Route fs linkLimit [] (smallStore.entry mf.hash).components linkLimit
      (entryAt smallTop mf.hash) := by
  have hdirs : DirectoriesAlong fs []
      [Utf8.encode "c".toList, storeName, Utf8.encode mf.hash] := ⟨htop, hdirs⟩
  rw [components_entry smallStore (isEntryName_hash mf)]
  refine .root [] (route_names linkLimit (fun n hn => ?_) hdirs)
  rcases List.mem_cons.1 hn with rfl | hn
  · decide
  · rcases List.mem_cons.1 hn with rfl | hn
    · decide
    · rw [List.mem_singleton.1 hn]
      exact (isEntryName_hash mf).2.2

/-- Whatever is put where the build directory would be makes the record one
    that is reused. -/
theorem reuse?_of_put {d : Location} {hash t : Text} {modified : Instant} {mode : Nat}
    {r : Record} (hentry : LeadsToEntry fs cwd dir d) (hbuild : fs.at? (d ++ [buildName]) = none)
    (hrecord : fs.at? (d ++ [recordName]) = some (.file (Utf8.encode t) modified mode))
    (hread : Record.ofText? t = some r) (hhash : r.hash = hash) (hwanted : o.reuse = true)
    (hmode : r.releaseMode = o.release) (now : Instant) :
    reuse? o (fs.put (d ++ [buildName]) (.file [] now plainMode)) cwd dir hash false = some r := by
  have hne : d ++ [buildName] ≠ [] := by simp
  have hother : d ++ [recordName] ≠ d ++ [buildName] := by
    intro heq
    exact absurd (List.append_cancel_left heq) (by decide)
  have hentry' := hentry.mono (keeps_put_file hne (by rw [hbuild]; simp)
    (fun t => by rw [hbuild]; simp) (.file [] now plainMode))
  have hbuild' := at?_put_self fs (.file [] now plainMode) hne
  rw [← at?_put_ne fs (.file [] now plainMode) hother] at hrecord
  exact reuse?_of_present hentry' (isPlain_of_file hrecord) (recordAt?_of_read hrecord hread hhash)
    (isPresent_buildIn hentry' hbuild' rfl) hwanted hmode

/-- A placeholder that links to the missing build directory is made there, and
    the record is reused though nothing had been built. -/
theorem prepare_reuses_through_link :
    ∃ fs refreshed m₁ m₂, (scan smallHomes (.ofStdin "/")).run (smallHost 0 []) ⟨fs, []⟩ =
        (.ok (smallScan, smallScript), m₁) ∧
      smallScan.dependencies ≠ [] ∧
      fs.makeDirectories [] (smallStore.entry smallManifest.hash) = .ok fs ∧
      (refresh smallStore (smallStore.entry smallManifest.hash) smallManifest).run (smallHost 0 [])
        { m₁ with files := fs } = (.ok refreshed, m₂) ∧
      (prepare smallHomes smallOptions smallStore (.ofStdin "/")).asksToolchain (smallHost 0 [])
        ⟨fs, []⟩ = false ∧
      ¬ ∃ r, Reuses smallOptions smallStore (smallHost 0 []) smallManifest fs r := by
  obtain ⟨r, hr⟩ : ∃ r, r = newRecord (smallHost 0 []) smallOptions
    (smallStore.entry smallManifest.hash) smallManifest [] := ⟨_, rfl⟩
  obtain ⟨t, hrender⟩ := exists_render (r := r)
    (by rw [hr]; exact isText_entry ⟨"/c".toList, rfl⟩ (isEntryName_hash smallManifest).1)
  have hread : Record.ofText? t = some r := Record.ofText?_render (by rw [hr]; decide) hrender
  generalize hfs : linkedFiles smallManifest t = fs
  have hstands := stands_linkedFiles smallManifest t
  obtain ⟨htop, hstore, hdir, hmanifest, hrecord, hplaceholder, hbuild⟩ :=
    at?_linkedFiles smallManifest t
  rw [hfs] at hstands htop hstore hdir hmanifest hrecord hplaceholder hbuild
  have hdirs := directoriesAlong_entry.2 ⟨hstore, hdir⟩
  have hentry := hstands.leadsToEntry isRoomy_small hdirs
  have hmake := hstands.open_again isRoomy_small hdirs
  have hroute := route_entry_small smallManifest htop hdirs
  obtain ⟨m₁, hscan⟩ := run_smallScan 0 [] ⟨fs, []⟩
  have hfiles : m₁.files = fs := (run_scan hscan).2
  have hplace := run_ensurePlaceholder_linked (h := smallHost 0 []) (m := { m₁ with files := fs })
    hroute (hentry.fits placeholderName (by decide)) hplaceholder hbuild
  have hfresh : smallStore.IsFresh (smallHost 0 []) fs (smallStore.entry smallManifest.hash)
      smallManifest.bytes :=
    (isFresh_iff hentry (isPlain_of_file hmanifest)).2 ⟨0, plainMode, hmanifest, by decide⟩
  have hrefresh := run_refresh_fresh (s := smallStore) (m := { m₁ with files := fs }) hfresh hplace
  have hready : Ready smallStore smallManifest (smallHost 0 []) m₁ false _ :=
    ⟨fs, by rw [hfiles]; exact hmake, hrefresh⟩
  have hreuse : reuse? smallOptions (fs.put (entryAt smallTop smallManifest.hash ++ [buildName])
      (.file [] 0 plainMode)) [] (smallStore.entry smallManifest.hash) smallManifest.hash false =
        some r :=
    reuse?_of_put hentry hbuild hrecord hread (by rw [hr]; rfl) rfl (by rw [hr]; rfl) 0
  refine ⟨fs, false, m₁, _, hscan, smallScan_dependencies, hmake, hrefresh, ?_, ?_⟩
  · rw [asksToolchain_prepare hscan smallScan_busy]
    exact (run_record_reused hready hreuse).2
  · rintro ⟨r, hr⟩
    have hpresent := isPresent_child hentry.leads (by decide) (hentry.fits buildName (by decide))
      fun t => by rw [hbuild]; simp
    rw [hbuild] at hpresent
    cases hr.build.symm.trans hpresent

end Prepare
end ScriptDeps
