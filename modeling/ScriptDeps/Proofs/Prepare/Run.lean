import ScriptDeps.Proofs.Prepare.Resolve

/-! # The course of a run

    A run scans, makes the entry, refreshes it, looks for a record to reuse
    and asks the toolchain if there is none.  The stages are told apart here,
    whatever the cache is: where a run stops, what it returns, and whether it
    has asked the toolchain. -/

namespace ScriptDeps
namespace Prepare

open Store

variable {homes : Homes} {o : Options} {s : Store} {source : Script.Source} {h : Host}
  {m m₁ m₂ : Machine} {dir : Path} {mf : Manifest}

/-! ## Section 1: Stages -/

theorem looks_scan (homes : Homes) (source : Script.Source) :
    Action.Looks (scan homes source) := by
  refine Action.Only.bind ?_ fun content => ?_
  · unfold Script.Source.read
    split
    · exact (Action.looks_ask rfl).bind fun content => Action.only_orFail content _
    · refine (Action.looks_ask rfl).bind fun found => ?_
      split
      · exact Action.only_pure _
      · exact Action.only_throw _
      · exact Action.only_throw _
  · exact (Action.looks_logAll _).bind fun _ => Action.only_pure _

theorem alone_refresh (s : Store) (dir : Path) (mf : Manifest) :
    Action.Alone (refresh s dir mf) := by
  refine (looks_needsRefresh s dir mf.bytes).alone.bind fun refreshed => ?_
  split
  · exact (alone_materialize dir mf).bind fun _ => Action.only_pure _
  · exact (alone_ensurePlaceholder dir).bind fun _ => Action.only_pure _

theorem looks_reusable (o : Options) (dir : Path) (mf : Manifest) (refreshed : Bool) :
    Action.Looks (reusable o dir mf refreshed) := by
  unfold reusable
  split
  · exact (looks_loadRecord dir mf.hash).bind fun _ => Action.only_pure _
  · exact Action.only_pure _

/-- The record that a run reuses. -/
def reuse? (o : Options) (fs : FileSystem) (cwd : Location) (dir : Path) (hash : Text)
    (refreshed : Bool) : Option Record :=
  if o.reuse && !refreshed then (usable? fs cwd dir hash).filter fun r => r.releaseMode = o.release
  else none

/-- Looking for a record is no failure, whatever is there in its place. -/
theorem run_reusable (o : Options) (dir : Path) (mf : Manifest) (refreshed : Bool) (h : Host)
    (m : Machine) :
    ∃ m', (reusable o dir mf refreshed).run h m =
        (.ok (reuse? o m.files h.cwd dir mf.hash refreshed), m') ∧ AtMostLogged m m' := by
  unfold reusable reuse?
  split
  · obtain ⟨m', hload, hlogged⟩ := run_loadRecord dir mf.hash h m
    refine ⟨m', ?_, hlogged⟩
    rw [Action.run_bind_ok hload]
    rfl
  · exact ⟨m, rfl, .inl rfl⟩

/-! ## Section 2: The record -/

/-- The entry for `mf` can be made and refreshed; `m'` is the machine on which
    a record is then looked for. -/
def Ready (s : Store) (mf : Manifest) (h : Host) (m : Machine) (refreshed : Bool)
    (m' : Machine) : Prop :=
  ∃ fs, m.files.makeDirectories h.cwd (s.entry mf.hash) = .ok fs ∧
    (refresh s (s.entry mf.hash) mf).run h { m with files := fs } = (.ok refreshed, m')

/-- What is left of a run once a record has been looked for. -/
def goOn (o : Options) (dir : Path) (mf : Manifest) : Option Record → Action Record
  | some r => do
      Action.ask (.log (.reusing r.resolvedAt.display))
      return r
  | none => resolve o dir mf

theorem record_eq (o : Options) (s : Store) (mf : Manifest) :
    record o s mf = (do
      let dir ← s.makeEntry mf.hash
      let refreshed ← refresh s dir mf
      let found ← reusable o dir mf refreshed
      goOn o dir mf found) := rfl

theorem run_record_ready {refreshed : Bool} (hready : Ready s mf h m refreshed m₁) :
    ∃ m₂, AtMostLogged m₁ m₂ ∧
      (record o s mf).run h m = (goOn o (s.entry mf.hash) mf
        (reuse? o m₁.files h.cwd (s.entry mf.hash) mf.hash refreshed)).run h m₂ ∧
      (record o s mf).calls h m = (goOn o (s.entry mf.hash) mf
        (reuse? o m₁.files h.cwd (s.entry mf.hash) mf.hash refreshed)).calls h m₂ := by
  obtain ⟨fs, hmake, hrefresh⟩ := hready
  have hentry := run_makeEntry s mf.hash h m
  rw [hmake] at hentry
  obtain ⟨m₂, hlook, hlogged⟩ := run_reusable o (s.entry mf.hash) mf refreshed h m₁
  refine ⟨m₂, hlogged, ?_, ?_⟩
  · rw [record_eq, Action.run_bind_ok hentry, Action.run_bind_ok hrefresh,
      Action.run_bind_ok hlook]
  · rw [record_eq, (alone_makeEntry s mf.hash).calls_bind hentry,
      (alone_refresh s _ mf).calls_bind hrefresh, (looks_reusable o _ mf _).alone.calls_bind hlook]

/-- A run that finds a record to reuse returns it. -/
theorem run_record_reused {refreshed : Bool} {r : Record} (hready : Ready s mf h m refreshed m₁)
    (hreuse : reuse? o m₁.files h.cwd (s.entry mf.hash) mf.hash refreshed = some r) :
    (∃ m₂, (record o s mf).run h m = (.ok r, m₂) ∧ m₂.files = m₁.files) ∧
      (record o s mf).asksToolchain h m = false := by
  obtain ⟨m₂, hlogged, hrun, hcalls⟩ := run_record_ready (o := o) hready
  rw [hreuse] at hrun hcalls
  refine ⟨⟨_, hrun, hlogged.files⟩, ?_⟩
  rw [Action.asksToolchain_eq, hcalls]
  rfl

/-- A run that finds none asks the toolchain, once and on the files that it has
    left by then. -/
theorem calls_record_resolved {refreshed : Bool} (hready : Ready s mf h m refreshed m₁)
    (hreuse : reuse? o m₁.files h.cwd (s.entry mf.hash) mf.hash refreshed = none) :
    (record o s mf).calls h m = [(Resolve.call (s.entry mf.hash) o.resolve, m₁.files)] := by
  obtain ⟨m₂, hlogged, _, hcalls⟩ := run_record_ready (o := o) hready
  rw [hreuse] at hcalls
  rw [hcalls, ← hlogged.files]
  exact calls_resolve o (s.entry mf.hash) mf h m₂

theorem run_record_resolved {refreshed : Bool} (hready : Ready s mf h m refreshed m₁)
    (hreuse : reuse? o m₁.files h.cwd (s.entry mf.hash) mf.hash refreshed = none) :
    (∃ m₂, AtMostLogged m₁ m₂ ∧
      (record o s mf).run h m = (resolve o (s.entry mf.hash) mf).run h m₂) ∧
      (record o s mf).asksToolchain h m = true := by
  obtain ⟨m₂, hlogged, hrun, _⟩ := run_record_ready (o := o) hready
  rw [hreuse] at hrun
  refine ⟨⟨m₂, hlogged, hrun⟩, ?_⟩
  rw [Action.asksToolchain_eq, calls_record_resolved hready hreuse]
  rfl

theorem resolved_of_ready {refreshed : Bool} (hready : Ready s mf h m refreshed m₁)
    (hreuse : reuse? o m₁.files h.cwd (s.entry mf.hash) mf.hash refreshed = none) :
    Resolved h o (s.entry mf.hash) mf m₁.files ((record o s mf).run h m).1
      ((record o s mf).run h m).2.files := by
  obtain ⟨⟨m₂, hlogged, hrun⟩, _⟩ := run_record_resolved hready hreuse
  have hresolved := run_resolve o (s.entry mf.hash) mf h m₂
  rw [hlogged.files] at hresolved
  rw [hrun]
  exact hresolved

/-- A run asks the toolchain only once the entry is ready. -/
theorem exists_ready_of_asks (hasks : (record o s mf).asksToolchain h m = true) :
    ∃ refreshed m₁, Ready s mf h m refreshed m₁ := by
  -- A run that stops before has made requests of its own only.
  have hentry := run_makeEntry s mf.hash h m
  rw [record_eq] at hasks
  cases hmake : m.files.makeDirectories h.cwd (s.entry mf.hash) with
  | error e =>
    rw [hmake] at hentry
    rw [Action.asksToolchain_bind_error hentry,
      (alone_makeEntry s mf.hash).asksToolchain] at hasks
    cases hasks
  | ok fs =>
    rw [hmake] at hentry
    rw [Action.asksToolchain_bind_ok hentry, (alone_makeEntry s mf.hash).asksToolchain,
      Bool.false_or] at hasks
    rcases hrefresh : (refresh s (s.entry mf.hash) mf).run h { m with files := fs } with
      ⟨f | refreshed, m₁⟩
    · rw [Action.asksToolchain_bind_error hrefresh,
        (alone_refresh s _ mf).asksToolchain] at hasks
      cases hasks
    · exact ⟨refreshed, m₁, fs, hmake, hrefresh⟩

/-- A record is returned only once the entry is ready. -/
theorem exists_ready_of_ok {r : Record} (hrun : (record o s mf).run h m = (.ok r, m₂)) :
    ∃ refreshed m₁, Ready s mf h m refreshed m₁ := by
  have hentry := run_makeEntry s mf.hash h m
  rw [record_eq] at hrun
  cases hmake : m.files.makeDirectories h.cwd (s.entry mf.hash) with
  | error e =>
    rw [hmake] at hentry
    rw [Action.run_bind_error hentry] at hrun
    cases hrun
  | ok fs =>
    rw [hmake] at hentry
    rw [Action.run_bind_ok hentry] at hrun
    rcases hrefresh : (refresh s (s.entry mf.hash) mf).run h { m with files := fs } with
      ⟨f | refreshed, m₁⟩
    · rw [Action.run_bind_error hrefresh] at hrun
      cases hrun
    · exact ⟨refreshed, m₁, fs, hmake, hrefresh⟩

/-! ## Section 3: The whole -/

/-- The manifest for the dependencies of a script. -/
def manifestFor (o : Options) (deps : List Dependency) : Manifest :=
  Manifest.ofDependencies o.manifest deps

variable {scanned : Script.Scan} {content : Bytes}

theorem run_scan (hscan : (scan homes source).run h m = (.ok (scanned, content), m₁)) :
    scanned.hash = sha256Hex content ∧ m₁.files = m.files := by
  have hfiles := (looks_scan homes source).files h m
  rw [hscan] at hfiles
  refine ⟨?_, hfiles⟩
  unfold scan at hscan
  rcases hread : source.read.run h m with ⟨f | bytes, m₂⟩
  · rw [Action.run_bind_error hread] at hscan
    cases hscan
  · rw [Action.run_bind_ok hread] at hscan
    dsimp only at hscan
    obtain ⟨m₃, hlog, _⟩ := Action.run_logAll (({} : Log.Given).limit
      (Script.scan ⟨⟨source.folder, homes.home?, homes.homeOf?⟩, toolVersion⟩ bytes).events).2 h m₂
    rw [Action.run_bind_ok hlog] at hscan
    cases hscan
    rfl

/-- What has been read is scanned as it is, in the folder of its source. -/
theorem run_scan_of_read (homes : Homes) (hread : source.read.run h m = (.ok content, m₁)) :
    ∃ m₂, (scan homes source).run h m = (.ok (Script.scan
      ⟨⟨source.folder, homes.home?, homes.homeOf?⟩, toolVersion⟩ content, content), m₂) := by
  obtain ⟨m₂, hlog, _⟩ := Action.run_logAll (({} : Log.Given).limit
    (Script.scan ⟨⟨source.folder, homes.home?, homes.homeOf?⟩, toolVersion⟩ content).events).2 h m₁
  unfold scan
  rw [Action.run_bind_ok hread]
  dsimp only
  exact ⟨m₂, Action.run_bind_ok hlog⟩

/-- A script on standard input is scanned as it is. -/
theorem run_scan_ofStdin (homes : Homes) (folder : Path) (h : Host) (m : Machine) :
    ∃ m', (scan homes (.ofStdin folder)).run h m =
      (.ok (Script.scan ⟨⟨folder, homes.home?, homes.homeOf?⟩, toolVersion⟩ h.stdin, h.stdin),
        m') :=
  run_scan_of_read homes rfl

/-- A script without dependencies is left to itself. -/
theorem run_prepare_idle (hscan : (scan homes source).run h m = (.ok (scanned, content), m₁))
    (hidle : (scanned.dependencies.isEmpty && o.skipPackage) = true) :
    ((prepare homes o s source).run h m).2.files = m.files ∧
      (prepare homes o s source).asksToolchain h m = false := by
  have hlog : ∀ m : Machine, (Action.ask (.log .nothingToResolve)).run h m =
      (.ok (), m.see (.logged .nothingToResolve)) := fun _ => rfl
  obtain ⟨_, hfiles⟩ := run_scan hscan
  unfold prepare
  rw [Action.run_bind_ok hscan, Action.asksToolchain_bind_ok hscan,
    (looks_scan homes source).alone.asksToolchain]
  dsimp only
  rw [if_pos hidle, Action.run_bind_ok (hlog m₁), Action.asksToolchain_bind_ok (hlog m₁)]
  exact ⟨hfiles, rfl⟩

theorem run_prepare_error {f : Failure}
    (hscan : (scan homes source).run h m = (.ok (scanned, content), m₁))
    (hbusy : (scanned.dependencies.isEmpty && o.skipPackage) = false)
    (hrecord : (record o s (manifestFor o scanned.dependencies)).run h m₁ = (.error f, m₂)) :
    (prepare homes o s source).run h m = (.error f, m₂) := by
  unfold prepare
  rw [Action.run_bind_ok hscan]
  dsimp only
  rw [if_neg (by rw [hbusy]; exact Bool.false_ne_true)]
  exact Action.run_bind_error hrecord

theorem run_prepare_ok {r : Record}
    (hscan : (scan homes source).run h m = (.ok (scanned, content), m₁))
    (hbusy : (scanned.dependencies.isEmpty && o.skipPackage) = false)
    (hrecord : (record o s (manifestFor o scanned.dependencies)).run h m₁ = (.ok r, m₂)) :
    ∃ m₃, (prepare homes o s source).run h m =
        (.ok ⟨r.args, source.argument, if source.isReplayable then none else some content,
          some r⟩, m₃) ∧
      m₃.files = if o.marker then
          s.markedFiles h (s.markerPath (source.identity scanned.hash))
            (manifestFor o scanned.dependencies).hash m₂.files
        else m₂.files := by
  obtain ⟨m₃, hmark, hfiles⟩ := run_writeMarker s (source.identity scanned.hash)
    (manifestFor o scanned.dependencies).hash h m₂
  unfold prepare
  rw [Action.run_bind_ok hscan]
  dsimp only
  rw [if_neg (by rw [hbusy]; exact Bool.false_ne_true)]
  change ∃ m₃, (record o s (manifestFor o scanned.dependencies) >>= _).run h m₁ = _ ∧ _
  rw [Action.run_bind_ok hrecord]
  split
  · exact ⟨m₃, Action.run_bind_ok hmark, hfiles⟩
  · exact ⟨m₂, rfl, rfl⟩

/-- A run returns the arguments of its record, or fails as its record does. -/
theorem result_prepare (hscan : (scan homes source).run h m = (.ok (scanned, content), m₁))
    (hbusy : (scanned.dependencies.isEmpty && o.skipPackage) = false) :
    ((prepare homes o s source).run h m).1.map (fun p => (p.args, p.record)) =
      ((record o s (manifestFor o scanned.dependencies)).run h m₁).1.map
        fun r => (r.args, some r) := by
  rcases hrecord : (record o s (manifestFor o scanned.dependencies)).run h m₁ with ⟨f | r, m₂⟩
  · rw [run_prepare_error hscan hbusy hrecord]
    rfl
  · obtain ⟨m₃, hprepare, _⟩ := run_prepare_ok hscan hbusy hrecord
    rw [hprepare]
    rfl

/-- The calls of a run are those that it makes for its record. -/
theorem calls_prepare (hscan : (scan homes source).run h m = (.ok (scanned, content), m₁))
    (hbusy : (scanned.dependencies.isEmpty && o.skipPackage) = false) :
    (prepare homes o s source).calls h m =
      (record o s (manifestFor o scanned.dependencies)).calls h m₁ := by
  unfold prepare
  rw [(looks_scan homes source).alone.calls_bind hscan]
  dsimp only
  rw [if_neg (by rw [hbusy]; exact Bool.false_ne_true)]
  refine Action.calls_bind_alone (a := record o s (manifestFor o scanned.dependencies))
    fun r => ?_
  split
  · exact (alone_writeMarker s _ _).bind fun _ => Action.only_pure _
  · exact Action.only_pure _

theorem asksToolchain_prepare
    (hscan : (scan homes source).run h m = (.ok (scanned, content), m₁))
    (hbusy : (scanned.dependencies.isEmpty && o.skipPackage) = false) :
    (prepare homes o s source).asksToolchain h m =
      (record o s (manifestFor o scanned.dependencies)).asksToolchain h m₁ := by
  rw [Action.asksToolchain_eq, calls_prepare hscan hbusy, ← Action.asksToolchain_eq]

end Prepare
end ScriptDeps
