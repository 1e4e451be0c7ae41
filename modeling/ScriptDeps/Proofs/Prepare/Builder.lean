import ScriptDeps.Proofs.Prepare.Settled
import ScriptDeps.Proofs.Store.Record
import ScriptDeps.Toolchain.Scripted

/-! # Toolchains that build

    With a toolchain that makes the build directory and shows its arguments, a
    run that asks it leaves what the next run reuses (`Kept`): the record is
    saved and something is built.  The small cache at the end is one in which
    such runs can be followed from an empty file system on. -/

namespace ScriptDeps

open FileSystem

/-! ## Section 1: Model -/

namespace Host

/-- A toolchain that makes the build directory of the package that it runs in,
    and behaves as told. -/
def builder (h : Host) (events : List Capture.Event) : Host :=
  { h with
    capture := fun call fs => do
      let (d, _) ← fs.findNode h.cwd true (call.directory.getD ⟨[]⟩)
      return (fs.put (d ++ [Store.buildName]) .directory, events) }

theorem capture_builder {h : Host} {call : Call} {dir : Path} {d : Location} {fs : FileSystem}
    (es : List Capture.Event) (hdirectory : call.directory = some dir)
    (hfind : fs.findNode h.cwd true dir = .ok (d, .directory)) :
    (h.builder es).capture call fs = .ok (fs.put (d ++ [Store.buildName]) .directory, es) := by
  change (fs.findNode h.cwd true (call.directory.getD ⟨[]⟩)).bind _ = _
  rw [hdirectory]
  change (fs.findNode h.cwd true dir).bind _ = _
  rw [hfind]
  rfl

theorem confined_builder (h : Host) (es : List Capture.Event) : (h.builder es).Confined := by
  intro call dir d fs fs' es' hdirectory hcall hfind loc hloc
  have hbuilt := capture_builder es hdirectory hfind
  obtain ⟨rfl, _⟩ := Prod.mk.inj (Except.ok.inj (hcall.symm.trans hbuilt))
  refine FileSystem.at?_put_ne fs _ ?_
  rintro rfl
  exact hloc (List.prefix_refl _)

end Host

namespace Prepare

open Store

variable {homes : Homes} {o : Options} {s : Store} {source : Script.Source} {h : Host}
  {m m₁ m₂ : Machine} {mf : Manifest} {fs : FileSystem} {cwd top : Location}
  {scanned : Script.Scan} {content : Bytes}

/-! ## Section 2: Saved records -/

/-- The record `r` is saved in the entry of `mf`, next to what has been built. -/
structure Kept (s : Store) (cwd top : Location) (mf : Manifest) (r : Record) (fs : FileSystem) :
    Prop where
  record : ∃ t modified mode, r.render? = some t ∧
    fs.at? (entryAt top mf.hash ++ [recordName]) = some (.file (Utf8.encode t) modified mode)
  build  : fs.isPresent cwd (buildIn (s.entry mf.hash)) = true

theorem recordAt?_of_kept {r : Record} (hkept : Kept s cwd top mf r fs) (hhash : r.hash = mf.hash)
    (hdated : r.resolvedAt.IsDated) : recordAt? fs (entryAt top mf.hash) mf.hash = some r := by
  obtain ⟨t, modified, mode, hrender, hnode⟩ := hkept.record
  exact recordAt?_of_read hnode (Record.ofText?_render hdated hrender) hhash

theorem isPresent_buildIn {dir : Path} {d : Location} {node : Node}
    (hentry : LeadsToEntry fs cwd dir d) (hbuild : fs.at? (d ++ [buildName]) = some node)
    (hlink : node.isLink = false) : fs.isPresent cwd (buildIn dir) = true := by
  have hnone : NoLink fs (d ++ [buildName]) := by
    intro t hnode
    rw [hbuild] at hnode
    cases hnode
    cases hlink
  rw [buildIn_eq,
    isPresent_child hentry.leads (by decide) (hentry.fits buildName (by decide)) hnone, hbuild]
  rfl

/-- A record is saved unless a directory stands in its place. -/
theorem kept_of_saved {r : Record} {t : Text} (hsettled : s.Settled h.cwd top mf fs)
    (hroomy : s.IsRoomy) (hr : r.directory = s.entry mf.hash) (hrender : r.render? = some t)
    (hrecord : fs.at? (entryAt top mf.hash ++ [recordName]) ≠ some .directory)
    (hbuild : fs.at? (entryAt top mf.hash ++ [buildName]) = some .directory) :
    Kept s h.cwd top mf r (savedFiles h r fs) := by
  have hentry := hsettled.leadsToEntry hroomy
  rw [← hr] at hentry
  obtain ⟨mode, hnode⟩ := savedFiles_record hentry hsettled.record hrender hrecord
  refine ⟨⟨t, h.now, mode, hrender, hnode⟩, ?_⟩
  have hentry' := (hsettled.saved hroomy hr).leadsToEntry hroomy
  rw [← savedFiles_other hentry hsettled.record _ (by simp; decide)] at hbuild
  exact isPresent_buildIn hentry' hbuild rfl

/-! ## Section 3: Runs that ask -/

/-- The entry of `mf` is settled and something is built in it, and but for its
    manifest and its placeholder nothing else is new. -/
structure Built (s : Store) (cwd top : Location) (mf : Manifest) (fs fs' : FileSystem) : Prop where
  settled : s.Settled cwd top mf fs'
  build   : fs'.at? (entryAt top mf.hash ++ [buildName]) = some .directory
  other   : ∀ loc, ¬ loc <+: entryAt top mf.hash →
    (∀ n ∈ [manifestName, placeholderName, buildName], loc ≠ entryAt top mf.hash ++ [n]) →
    fs'.at? loc = fs.at? loc

theorem Built.at?_entry {fs' : FileSystem} (hbuilt : Built s cwd top mf fs fs') {n : Name}
    {rest : List Name}
    (hn : ∀ n' ∈ [manifestName, placeholderName, buildName], n :: rest ≠ [n']) :
    fs'.at? (entryAt top mf.hash ++ n :: rest) = fs.at? (entryAt top mf.hash ++ n :: rest) := by
  refine hbuilt.other _ (fun hfront => ?_) fun n' hmem heq => ?_
  · have hlength := hfront.length_le
    rw [List.length_append, List.length_cons] at hlength
    omega
  · exact hn n' hmem (List.append_cancel_left heq)

/-- With a toolchain that builds, a run that asks ends as the answer of the
    toolchain says. -/
theorem run_record_builder {es : List Capture.Event} (hlocated : s.Located h.cwd top m.files)
    (hroomy : s.IsRoomy) (hplain : IsPlainCache top mf m.files)
    (hasks : (record o s mf).asksToolchain (h.builder es) m = true) :
    ∃ fs m', Built s h.cwd top mf m.files fs ∧
      match ((Capture.run es).result o.swift.display).1 with
      | .error f => (record o s mf).run (h.builder es) m = (.error f, m') ∧ m'.files = fs
      | .ok shown => ∃ r, (record o s mf).run (h.builder es) m = (.ok r, m') ∧
          m'.files = savedFiles (h.builder es) r fs ∧
          r = newRecord (h.builder es) o (s.entry mf.hash) mf
            (Resolve.completed (h.builder es) (s.entry mf.hash) fs shown) := by
  obtain ⟨fs₁, fs₂, refreshed, hopened, hrefreshed, hsettled, hresolved⟩ :=
    exists_asked (h := h.builder es) hlocated hroomy hplain hasks
  have hentry := hsettled.leadsToEntry hroomy
  have hcapture : (h.builder es).capture (Resolve.call _ o.resolve) fs₂ = _ :=
    Host.capture_builder es rfl (hentry.leads.findNode hentry.fitsDir hentry.directory)
  have hbuilt := hentry.builtIn (Host.confined_builder h es) hcapture
  have hother : ∀ loc, ¬ loc <+: entryAt top mf.hash →
      (∀ n ∈ [manifestName, placeholderName, buildName], loc ≠ entryAt top mf.hash ++ [n]) →
      (fs₂.put (entryAt top mf.hash ++ [buildName]) .directory).at? loc = m.files.at? loc := by
    intro loc hfront hown
    rw [at?_put_ne _ _ (hown buildName (by simp)),
      hrefreshed.other loc (hown manifestName (by simp)) (hown placeholderName (by simp)),
      hopened.other hfront]
  rcases hrun : (record o s mf).run (h.builder es) m with ⟨result, m'⟩
  rw [hrun] at hresolved
  dsimp only at hresolved
  refine ⟨_, m', ⟨hsettled.builtIn hbuilt, at?_put_self _ _ (by simp), hother⟩, ?_⟩
  -- The toolchain has answered, so of the three ways only its answer is left.
  generalize hfiles : m'.files = fs₃ at hresolved
  cases hresolved with
  | notStarted hcall => cases hcall.symm.trans hcapture
  | failed hcall hresult =>
    cases hcall.symm.trans hcapture
    rw [hresult]
    exact ⟨rfl, rfl⟩
  | recorded hcall hresult =>
    cases hcall.symm.trans hcapture
    rw [hresult]
    exact ⟨_, rfl, rfl, rfl⟩

/-- If it shows arguments, a record is left to be reused. -/
theorem prepare_builds {es : List Capture.Event} {shown : List Text}
    (hscan : (scan homes source).run (h.builder es) m = (.ok (scanned, content), m₁))
    (hbusy : (scanned.dependencies.isEmpty && o.skipPackage) = false)
    (hmf : manifestFor o scanned.dependencies = mf) (hmarker : o.marker = false)
    (hlocated : s.Located h.cwd top m.files) (hroomy : s.IsRoomy) (hroot : s.root.IsText)
    (hplain : IsPlainCache top mf m.files)
    (hrecord : m.files.at? (entryAt top mf.hash ++ [recordName]) ≠ some .directory)
    (hresult : ((Capture.run es).result o.swift.display).1 = .ok shown)
    (hasks : (prepare homes o s source).asksToolchain (h.builder es) m = true) :
    ∃ p r m' fs, (prepare homes o s source).run (h.builder es) m = (.ok p, m') ∧
      p.record = some r ∧ Kept s h.cwd top mf r m'.files ∧ Built s h.cwd top mf m.files fs ∧
      r = newRecord (h.builder es) o (s.entry mf.hash) mf
        (Resolve.completed (h.builder es) (s.entry mf.hash) fs shown) := by
  obtain ⟨_, hfiles⟩ := run_scan hscan
  rw [asksToolchain_prepare hscan hbusy, hmf] at hasks
  rw [← hfiles] at hlocated hplain hrecord ⊢
  obtain ⟨fs, m₂, hbuilt, hend⟩ := run_record_builder hlocated hroomy hplain hasks
  rw [hresult] at hend
  obtain ⟨r, hrun, hfiles₂, hr⟩ := hend
  rw [← hmf] at hrun
  obtain ⟨m₃, hprepare, hmarked⟩ := run_prepare_ok hscan hbusy hrun
  rw [hmarker, if_neg Bool.false_ne_true, hfiles₂] at hmarked
  have hdirectory : r.directory = s.entry mf.hash := by rw [hr]; rfl
  obtain ⟨t, hrender⟩ := exists_render (r := r)
    (hdirectory ▸ isText_entry hroot (isEntryName_hash mf).1)
  rw [← hbuilt.at?_entry (by decide)] at hrecord
  refine ⟨_, r, m₃, fs, hprepare, rfl, ?_, hbuilt, hr⟩
  rw [hmarked]
  exact kept_of_saved (h := h.builder es) hbuilt.settled hroomy hdirectory hrender hrecord
    hbuilt.build

/-- If it fails, what it has built is left all the same. -/
theorem prepare_fails {es : List Capture.Event} {f : Failure}
    (hscan : (scan homes source).run (h.builder es) m = (.ok (scanned, content), m₁))
    (hbusy : (scanned.dependencies.isEmpty && o.skipPackage) = false)
    (hmf : manifestFor o scanned.dependencies = mf)
    (hlocated : s.Located h.cwd top m.files) (hroomy : s.IsRoomy)
    (hplain : IsPlainCache top mf m.files)
    (hresult : ((Capture.run es).result o.swift.display).1 = .error f)
    (hasks : (prepare homes o s source).asksToolchain (h.builder es) m = true) :
    ∃ m', (prepare homes o s source).run (h.builder es) m = (.error f, m') ∧
      m'.files.isPresent h.cwd (buildIn (s.entry mf.hash)) = true := by
  obtain ⟨_, hfiles⟩ := run_scan hscan
  rw [asksToolchain_prepare hscan hbusy, hmf] at hasks
  rw [← hfiles] at hlocated hplain
  obtain ⟨fs, m₂, hbuilt, hend⟩ := run_record_builder hlocated hroomy hplain hasks
  rw [hresult] at hend
  obtain ⟨hrun, rfl⟩ := hend
  rw [← hmf] at hrun
  exact ⟨m₂, run_prepare_error hscan hbusy hrun,
    isPresent_buildIn (hbuilt.settled.leadsToEntry hroomy) hbuilt.build rfl⟩

/-! ## Section 4: A small cache -/

/-- A store below the root of the file system, the directory it is at, and
    options and a script to use it with. -/
def smallStore : Store := ⟨"/c", 60⟩

def smallTop : Location := [Utf8.encode "c".toList]

def smallOptions : Options := ⟨"swift", false, false, false, true, true, false, .unspecified⟩

def smallScript : Bytes := Utf8.encode "import A // @b/c".toList

/-- A host that gives the script on standard input, with a toolchain that
    builds and behaves as told. -/
def smallHost (now : Instant) (es : List Capture.Event) : Host :=
  (Scripted.bare now [] smallScript "/t" []).builder es

/-- What a toolchain shows that has built everything. -/
def smallAnswer : List Capture.Event :=
  [.terminal (Utf8.encode "swift: repl -I/x\n".toList), .exited (.exited 0)]

def smallHomes : Homes := ⟨none, fun _ => none⟩

def smallScan : Script.Scan := Script.scan ⟨⟨"/", none, fun _ => none⟩, toolVersion⟩ smallScript

def smallManifest : Manifest := manifestFor smallOptions smallScan.dependencies

theorem run_smallScan (now : Instant) (es : List Capture.Event) (m : Machine) :
    ∃ m', (scan smallHomes (.ofStdin "/")).run (smallHost now es) m =
      (.ok (smallScan, smallScript), m') :=
  run_scan_ofStdin smallHomes "/" (smallHost now es) m

theorem smallScan_dependencies : smallScan.dependencies ≠ [] := by decide +kernel

theorem smallScan_busy :
    (smallScan.dependencies.isEmpty && smallOptions.skipPackage) = false := by decide +kernel

theorem result_smallAnswer :
    ((Capture.run smallAnswer).result smallOptions.swift.display).1 = .ok ["-I/x".toList] := by
  have hsome : ((Capture.run smallAnswer).result smallOptions.swift.display).1.toOption =
      some ["-I/x".toList] := by decide +kernel
  cases hresult : ((Capture.run smallAnswer).result smallOptions.swift.display).1 with
  | ok shown =>
    rw [hresult] at hsome
    cases hsome
    rfl
  | error f =>
    rw [hresult] at hsome
    cases hsome

/-- What a toolchain shows that has failed. -/
def smallFailure : List Capture.Event := [.exited (.exited 1)]

theorem result_smallFailure :
    ∃ f, ((Capture.run smallFailure).result smallOptions.swift.display).1 = .error f := by
  have hnone : ((Capture.run smallFailure).result smallOptions.swift.display).1.toOption.isSome =
      false := by decide
  cases hresult : ((Capture.run smallFailure).result smallOptions.swift.display).1 with
  | error f => exact ⟨f, rfl⟩
  | ok shown =>
    rw [hresult] at hnone
    cases hnone

theorem absent_small : smallStore.Absent [] smallTop .empty := by
  refine ⟨?_, [.root], linkLimit, [], Utf8.encode "c".toList, [], ?_, ?_, ?_, ?_, ?_⟩
  · intro loc name hthere
    simp [at?, FileSystem.empty] at hthere
  · exact .root [] (.nil _ _)
  · rfl
  · decide
  · rfl
  · rfl

theorem located_small : smallStore.Located [] smallTop .empty := .inl absent_small

theorem isRoomy_small : smallStore.IsRoomy := by decide

theorem at?_empty (loc : Location) (n : Name) : FileSystem.empty.at? (loc ++ [n]) = none := by
  simp [at?, FileSystem.empty]

theorem isPlainCache_empty (top : Location) (mf : Manifest) : IsPlainCache top mf .empty := by
  have hplain : ∀ loc n, IsPlain .empty (loc ++ [n]) := by
    intro loc n node hnode
    rw [at?_empty] at hnode
    cases hnode
  exact ⟨⟨.inl (at?_empty _ _), .inl (at?_empty _ _), trivial⟩, hplain _ _, hplain _ _, hplain _ _,
    .inl (at?_empty _ _), trivial⟩

/-- Nothing is there to be reused at first. -/
theorem asks_small (now : Instant) (es : List Capture.Event) :
    (prepare smallHomes smallOptions smallStore (.ofStdin "/")).asksToolchain (smallHost now es)
      ⟨.empty, []⟩ = true := by
  obtain ⟨m₁, hscan⟩ := run_smallScan now es ⟨.empty, []⟩
  have hfiles : m₁.files = .empty := (run_scan hscan).2
  have hplain := isPlainCache_empty smallTop smallManifest
  have hlocated := located_small
  rw [← hfiles] at hplain hlocated
  rw [asksToolchain_prepare hscan smallScan_busy]
  refine asks_without_record (h := smallHost now es) hlocated isRoomy_small hplain ?_ ?_
  · rw [hfiles, at?_empty]
    simp
  · unfold recordAt?
    rw [hfiles, at?_empty]

end Prepare
end ScriptDeps
