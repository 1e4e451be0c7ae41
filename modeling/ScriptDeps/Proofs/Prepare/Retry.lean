import ScriptDeps.Proofs.Prepare.Reuse

/-! # Trying again

    A run whose resolution fails has already made the manifest fresh, and
    leaves the record as it was.  So the next run asks the toolchain again
    unless that record can be reused after all: then it returns what was
    resolved before the failure. -/

namespace ScriptDeps

open FileSystem

namespace Prepare

open Store

variable {homes : Homes} {o : Options} {s : Store} {source : Script.Source} {h : Host}
  {m m₁ m' : Machine} {mf : Manifest} {top : Location} {scanned : Script.Scan} {content : Bytes}
  {f : Failure}

/-! ## Section 1: The entry after a failure -/

theorem busy_of_asks (hscan : (scan homes source).run h m = (.ok (scanned, content), m₁))
    (hasks : (prepare homes o s source).asksToolchain h m = true) :
    (scanned.dependencies.isEmpty && o.skipPackage) = false := by
  rw [← Bool.not_eq_true]
  intro hidle
  rw [(run_prepare_idle hscan hidle).2] at hasks
  cases hasks

/-- A run that has asked the toolchain and fails leaves a settled entry with
    the record that was there. -/
theorem settled_of_failed (hscan : (scan homes source).run h m = (.ok (scanned, content), m₁))
    (hmf : manifestFor o scanned.dependencies = mf) (hlocated : s.Located h.cwd top m.files)
    (hroomy : s.IsRoomy) (hplain : IsPlainCache top mf m.files) (hconfined : h.Confined)
    (hasks : (prepare homes o s source).asksToolchain h m = true)
    (hrun : (prepare homes o s source).run h m = (.error f, m')) :
    f.isResolution = true ∧ s.Settled h.cwd top mf m'.files ∧
      (∃ modified, HasManifest s h top mf m.files m'.files modified) ∧
      recordAt? m'.files (entryAt top mf.hash) mf.hash =
        recordAt? m.files (entryAt top mf.hash) mf.hash := by
  have hbusy := busy_of_asks hscan hasks
  obtain ⟨_, hfiles⟩ := run_scan hscan
  rw [asksToolchain_prepare hscan hbusy, hmf] at hasks
  rw [← hfiles] at hlocated hplain ⊢
  have hleft := left_of_asked hlocated hroomy hplain hconfined hasks
  rw [← hmf] at hleft
  rcases hrecord : (record o s (manifestFor o scanned.dependencies)).run h m₁ with ⟨f' | r, m₂⟩
  · rw [run_prepare_error hscan hbusy hrecord] at hrun
    cases hrun
    rw [hrecord, hmf] at hleft
    obtain ⟨hresolution, hsame⟩ := hleft.failed f rfl
    exact ⟨hresolution, hleft.settled, hleft.manifest, recordAt?_congr hsame⟩
  · -- With a record the run would have succeeded.
    obtain ⟨m₃, hprepare, _⟩ := run_prepare_ok hscan hbusy hrecord
    rw [hprepare] at hrun
    cases hrun

/-! ## Section 2: The next run -/

/-- After a failure the next run on the same dependencies does without the
    toolchain exactly if it can reuse the record from before, which has been
    fresh since the failure; and then it returns it. -/
theorem prepare_retries_iff (hscan : (scan homes source).run h m = (.ok (scanned, content), m₁))
    (hmf : manifestFor o scanned.dependencies = mf) (hlocated : s.Located h.cwd top m.files)
    (hroomy : s.IsRoomy) (hplain : IsPlainCache top mf m.files) (hconfined : h.Confined)
    (hasks : (prepare homes o s source).asksToolchain h m = true)
    (hrun : (prepare homes o s source).run h m = (.error f, m')) :
    f.isResolution = true ∧
    ∃ modified, HasManifest s h top mf m.files m'.files modified ∧
      ∀ homes' source' h' seen scanned' content' m₂, h'.cwd = h.cwd →
        (scan homes' source').run h' ⟨m'.files, seen⟩ = (.ok (scanned', content'), m₂) →
        scanned'.dependencies = scanned.dependencies →
        ((prepare homes' o s source').asksToolchain h' ⟨m'.files, seen⟩ = false ↔
          o.reuse = true ∧ s.isStale modified h'.now = false ∧
          m'.files.isPresent h.cwd (buildIn (s.entry mf.hash)) = true ∧
          ∃ r, recordAt? m.files (entryAt top mf.hash) mf.hash = some r ∧
            r.releaseMode = o.release) ∧
        ((prepare homes' o s source').asksToolchain h' ⟨m'.files, seen⟩ = false →
          ∃ p r m₃, (prepare homes' o s source').run h' ⟨m'.files, seen⟩ = (.ok p, m₃) ∧
            recordAt? m.files (entryAt top mf.hash) mf.hash = some r ∧
            p.args = r.args ∧ p.record = some r) := by
  have hbusy := busy_of_asks hscan hasks
  obtain ⟨hresolution, hsettled, ⟨modified, mode, hmanifest, hwritten⟩, hsame⟩ :=
    settled_of_failed hscan hmf hlocated hroomy hplain hconfined hasks hrun
  refine ⟨hresolution, modified, ⟨mode, hmanifest, hwritten⟩, ?_⟩
  intro homes' source' h' seen scanned' content' m₂ hcwd hscan' hdeps
  rw [← hdeps] at hbusy hmf
  rw [← hcwd] at hsettled
  have hiff := prepare_settled_iff (m := ⟨m'.files, seen⟩) hscan' hbusy hmf hsettled hroomy
    hmanifest
  refine ⟨hiff.trans ⟨?_, ?_⟩, fun hnot => ?_⟩
  · rintro ⟨r, hwanted, hrecent, hrecord, hmode, hbuild⟩
    exact ⟨hwanted, hrecent, hcwd ▸ hbuild, r, hsame ▸ hrecord, hmode⟩
  · rintro ⟨hwanted, hrecent, hbuild, r, hrecord, hmode⟩
    exact ⟨r, hwanted, hrecent, hsame.trans hrecord, hmode, hcwd ▸ hbuild⟩
  · obtain ⟨r, hr⟩ := hiff.1 hnot
    obtain ⟨_, p, m₃, hprepare, hargs, hrecord, _⟩ :=
      prepare_recalls (m := ⟨m'.files, seen⟩) hscan' hbusy hmf hsettled hroomy hmanifest hr
    exact ⟨p, r, m₃, hprepare, hsame ▸ hr.record, hargs, hrecord⟩

/-- Where there was no record, the next run asks again. -/
theorem prepare_retries_iff_small :
    ∃ f m', (prepare smallHomes smallOptions smallStore (.ofStdin "/")).run
        (smallHost 0 smallFailure) ⟨.empty, []⟩ = (.error f, m') ∧ f.isResolution = true ∧
      (prepare smallHomes smallOptions smallStore (.ofStdin "/")).asksToolchain
        (smallHost 0 smallAnswer) ⟨m'.files, []⟩ = true := by
  obtain ⟨m₁, hscan⟩ := run_smallScan 0 smallFailure ⟨.empty, []⟩
  obtain ⟨f, hfailure⟩ := result_smallFailure
  have hplain := isPlainCache_empty smallTop smallManifest
  obtain ⟨m', hrun, _⟩ := prepare_fails hscan smallScan_busy rfl located_small isRoomy_small hplain
    hfailure (asks_small 0 smallFailure)
  obtain ⟨m₂, hscan'⟩ := run_smallScan 0 smallAnswer ⟨m'.files, []⟩
  obtain ⟨hresolution, modified, _, hagain⟩ := prepare_retries_iff hscan rfl located_small
    isRoomy_small hplain (Host.confined_builder _ _) (asks_small 0 smallFailure) hrun
  refine ⟨f, m', hrun, hresolution, ?_⟩
  obtain ⟨hiff, _⟩ := hagain smallHomes (.ofStdin "/") (smallHost 0 smallAnswer) [] smallScan
    smallScript m₂ rfl hscan' rfl
  rw [← Bool.not_eq_false, hiff]
  rintro ⟨_, _, _, r, hrecord, _⟩
  unfold recordAt? at hrecord
  rw [at?_empty] at hrecord
  cases hrecord

/-- A minute after a run that has saved its record the manifest is stale, and
    the toolchain is asked and fails.  The run after that does not ask, and
    returns what the first run has recorded. -/
theorem prepare_reuses_after_failure :
    ∃ p m₁ f m₂, (prepare smallHomes smallOptions smallStore (.ofStdin "/")).run
        (smallHost 0 smallAnswer) ⟨.empty, []⟩ = (.ok p, m₁) ∧
      (prepare smallHomes smallOptions smallStore (.ofStdin "/")).asksToolchain
        (smallHost 61000000000 smallFailure) ⟨m₁.files, []⟩ = true ∧
      (prepare smallHomes smallOptions smallStore (.ofStdin "/")).run
        (smallHost 61000000000 smallFailure) ⟨m₁.files, []⟩ = (.error f, m₂) ∧
      f.isResolution = true ∧
      (prepare smallHomes smallOptions smallStore (.ofStdin "/")).asksToolchain
        (smallHost 61000000000 smallAnswer) ⟨m₂.files, []⟩ = false ∧
      ∃ p' m₃, (prepare smallHomes smallOptions smallStore (.ofStdin "/")).run
        (smallHost 61000000000 smallAnswer) ⟨m₂.files, []⟩ = (.ok p', m₃) ∧
        p'.record = p.record := by
  have hplain := isPlainCache_empty smallTop smallManifest
  -- The first run.
  obtain ⟨m₀, hscan⟩ := run_smallScan 0 smallAnswer ⟨.empty, []⟩
  obtain ⟨p, r, m₁, _, hrun, hrecord, hkept, _⟩ := prepare_builds hscan smallScan_busy rfl rfl
    located_small isRoomy_small ⟨"/c".toList, rfl⟩ hplain (by rw [at?_empty]; simp)
    result_smallAnswer (asks_small 0 smallAnswer)
  obtain ⟨hnew, hsettled, modified, mode, hmanifest, hwritten⟩ := settled_of_prepared hscan
    smallScan_busy rfl located_small isRoomy_small hplain (Host.confined_builder _ _)
    (asks_small 0 smallAnswer) hrun
  obtain rfl : modified = 0 := by
    rcases hwritten with ⟨hold, _⟩ | hnow
    · rw [at?_empty] at hold
      cases hold
    · exact hnow
  obtain rfl := Option.some.inj (hrecord.symm.trans hnew)
  -- The run that fails.
  obtain ⟨m₀', hscan'⟩ := run_smallScan 61000000000 smallFailure ⟨m₁.files, []⟩
  obtain ⟨f, hfailure⟩ := result_smallFailure
  have hasks : (prepare smallHomes smallOptions smallStore (.ofStdin "/")).asksToolchain
      (smallHost 61000000000 smallFailure) ⟨m₁.files, []⟩ = true := by
    rw [← Bool.not_eq_false, prepare_settled_iff (m := ⟨m₁.files, []⟩) hscan' smallScan_busy rfl
      hsettled isRoomy_small hmanifest]
    rintro ⟨r, hr⟩
    exact absurd hr.recent (by decide)
  obtain ⟨m₂, hrun', hbuild⟩ := prepare_fails hscan' smallScan_busy rfl (.inr hsettled.stands)
    isRoomy_small hsettled.isPlainCache hfailure hasks
  obtain ⟨hresolution, hsettled', ⟨modified', mode', hmanifest', hwritten'⟩, hsame⟩ :=
    settled_of_failed hscan' rfl (.inr hsettled.stands) isRoomy_small hsettled.isPlainCache
      (Host.confined_builder _ _) hasks hrun'
  obtain rfl : modified' = 61000000000 := by
    rcases hwritten' with ⟨hold, hrecent⟩ | hnow
    · cases hmanifest.symm.trans hold
      exact absurd hrecent (by decide)
    · exact hnow
  -- The run after that.
  obtain ⟨m₀'', hscan''⟩ := run_smallScan 61000000000 smallAnswer ⟨m₂.files, []⟩
  have hdated : (smallHost 0 smallAnswer).Dated := by decide
  have hrecalls : Recalls smallOptions smallStore (smallHost 61000000000 smallAnswer) smallTop
      smallManifest m₂.files 61000000000 (newRecord (smallHost 0 smallAnswer) smallOptions
        (smallStore.entry smallManifest.hash) smallManifest p.args) :=
    ⟨rfl, by decide, hsame.trans (recordAt?_of_kept hkept rfl hdated), rfl, hbuild⟩
  obtain ⟨hnot, p', m₃, hrun'', _, hrecord', _⟩ := prepare_recalls (m := ⟨m₂.files, []⟩) hscan''
    smallScan_busy rfl hsettled' isRoomy_small hmanifest' hrecalls
  exact ⟨p, m₁, f, m₂, hrun, hasks, hrun', hresolution, hnot, p', m₃, hrun'',
    hrecord'.trans hrecord.symm⟩

end Prepare
end ScriptDeps
