import Mathlib.Data.List.Infix
import ScriptDeps.Proofs.Invocation.SystemPaths
import ScriptDeps.Proofs.Prepare.Sound
import ScriptDeps.Proofs.Prepare.Builder

/-! # Reachable stores

    Beside the files goes what the toolchain has answered, read off its calls
    alone (`Host.answer?`, `Store.Answers.after`): what it has shown in an
    entry, completed on the files that it has left there.  Whatever runs there
    have been since the cache root was absent, with whatever scripts, options,
    times and behaviours of the toolchain, the store is sound for the latest
    answers: a run keeps the invariant (`run_prepare_sound`), so every
    reachable store has it (`Reachable.isSound`). -/

namespace ScriptDeps

open FileSystem Store

/-! ## Section 1: Model -/

/-- Whether the toolchain is told to build in release mode. -/
def Call.isRelease (call : Call) : Bool :=
  ["-c", "release"].map String.toList <:+: call.args

/-- The answer of the toolchain to a call that is made on the files `fs`, and
    the place it is given in; a call that fails has none. -/
def Host.answer? (h : Host) (call : Call) (fs : FileSystem) : Option (Location × Answer) := do
  let dir ← call.directory
  let (d, _) ← (fs.findNode h.cwd true dir).toOption
  let (left, es) ← (h.capture call fs).toOption
  let shown ← ((Capture.run es).result call.program.display).1.toOption
  return (d, Resolve.completed h dir left shown, call.isRelease)

namespace Store

/-- The answers after a call, if it has one in an entry below `top`. -/
def Answers.hear (top : Location) (h : Host) (latest : Answers) (asked : Call × FileSystem) :
    Answers :=
  match h.answer? asked.1 asked.2 with
  | some (d, answer) => fun n => if d = top ++ [storeName, n] then some answer else latest n
  | none => latest

/-- The answers after a number of calls. -/
def Answers.after (latest : Answers) (top : Location) (h : Host)
    (calls : List (Call × FileSystem)) : Answers :=
  calls.foldl (hear top h) latest

end Store

/-- A run in the directory `cwd`, or anywhere if the root is absolute. -/
structure Host.IsAllowed (h : Host) (root : Path) (cwd : Location) : Prop where
  cwd      : h.cwd = cwd ∨ root.isAbsolute = true
  confined : h.Confined
  dated    : h.Dated

/-- The files that can be there, with the latest answers, after any runs on a
    store whose root was absent at first.  Between runs anything may happen
    outside the root. -/
inductive Reachable (s : Store) (cwd top : Location) : Answers → FileSystem → Prop
  | start {fs : FileSystem} (habsent : s.Absent cwd top fs) :
      Reachable s cwd top (fun _ => none) fs
  | edit {latest : Answers} {fs fs' : FileSystem} (hreach : Reachable s cwd top latest fs)
      (hlocated : s.Located cwd top fs')
      (hsame : ∀ names, fs'.at? (top ++ names) = fs.at? (top ++ names)) :
      Reachable s cwd top latest fs'
  | run {latest : Answers} {fs : FileSystem} (hreach : Reachable s cwd top latest fs)
      (homes : Homes) (o : Prepare.Options) (s' : Store) (source : Script.Source) (h : Host)
      (seen : List Sight) (hroot : s'.root = s.root) (hallowed : h.IsAllowed s.root cwd) :
      Reachable s cwd top
        (latest.after top h ((prepare homes o s' source).calls h ⟨fs, seen⟩))
        ((prepare homes o s' source).run h ⟨fs, seen⟩).2.files

namespace Store

variable {s s' : Store} {cwd cwd' top : Location} {latest : Answers} {fs fs' : FileSystem}

/-! ## Section 2: Stores with one root -/

theorem components_of_isAbsolute {p : Path} (h : p.isAbsolute = true) :
    ∃ rest, p.components = .root :: rest := by
  have hhead : p.head = [.root] := by
    unfold Path.head
    rw [if_pos h]
  rw [Path.components_eq, hhead]
  exact ⟨_, rfl⟩

/-- An absolute path leads to the same place from everywhere. -/
theorem route_anywhere {p : Path} {pre post : List Path.Component} {links : Nat} {loc : Location}
    (hcwd : cwd' = cwd ∨ p.isAbsolute = true) (hp : p.components = pre ++ post)
    (hpost : ∀ rest, post ≠ .root :: rest) (hroute : Route fs linkLimit cwd pre links loc) :
    Route fs linkLimit cwd' pre links loc := by
  rcases hcwd with rfl | habsolute
  · exact hroute
  · obtain ⟨rest, hrest⟩ := components_of_isAbsolute habsolute
    rw [hp] at hrest
    cases pre with
    | nil => exact absurd hrest (hpost rest)
    | cons c pre =>
      obtain rfl := (List.cons.inj hrest).1
      exact hroute.of_root cwd'

theorem Located.of_root (hlocated : s.Located cwd top fs) (hroot : s'.root = s.root)
    (hcwd : cwd' = cwd ∨ s.root.isAbsolute = true) : s'.Located cwd' top fs := by
  rcases hlocated with ⟨hwf, pre, links, here, n, ns, hroute, hway⟩ | ⟨hthere, links, hroute⟩
  · refine .inl ⟨hwf, pre, links, here, n, ns, ?_, hroot ▸ hway⟩
    exact route_anywhere hcwd hway.2.2.1 (by simp) hroute
  · refine .inr ⟨hthere, links, ?_⟩
    rw [hroot]
    exact route_anywhere hcwd (List.append_nil _).symm (by simp) hroute

theorem IsSound.of_root (hsound : s.IsSound top latest fs) (hroot : s'.root = s.root) :
    s'.IsSound top latest fs := by
  have hentry : ∀ hash, s'.entry hash = s.entry hash := fun hash => by
    rw [entry_eq, entry_eq, entries, entries, hroot]
  refine ⟨fun names node hnode => ?_, hsound.kept⟩
  have hright := hsound.right names node hnode
  match names with
  | [] => trivial
  | [_] => exact hright
  | [_, _] => exact hright
  | [_, _, _] =>
    intro hn
    obtain ⟨hmanifest, hplaceholder, hrecord⟩ := hright hn
    refine ⟨hmanifest, hplaceholder, fun hf => ?_⟩
    obtain ⟨t, modified, mode, r, heq, hread, hhash, hdirectory, hlatest⟩ := hrecord hf
    exact ⟨t, modified, mode, r, heq, hread, hhash, hdirectory.trans (hentry _).symm, hlatest⟩
  | _ :: _ :: _ :: _ :: _ => trivial

end Store

namespace Prepare

variable {s : Store} {h : Host} {top : Location} {latest : Answers} {mf : Manifest} {m m' : Machine}
  {homes : Homes} {o : Options} {source : Script.Source}

/-! ## Section 3: The answer to a call -/

theorem isRelease_call (dir : Path) (o : Resolve.Options) :
    (Resolve.call dir o).isRelease = o.release := by
  obtain ⟨swift, release, noSandbox⟩ := o
  cases release <;> cases noSandbox <;> rfl

theorem answer?_call {dir : Path} {d : Location} {fs : FileSystem} (o : Options)
    (hfind : fs.findNode h.cwd true dir = .ok (d, .directory)) :
    h.answer? (Resolve.call dir o.resolve) fs =
      match h.capture (Resolve.call dir o.resolve) fs with
      | .error _ => none
      | .ok (left, es) => ((Capture.run es).result o.swift.display).1.toOption.map fun shown =>
          (d, Resolve.completed h dir left shown, o.release) := by
  have hmode : (Resolve.call dir o.resolve).isRelease = o.release := isRelease_call dir o.resolve
  show ((fs.findNode h.cwd true dir).toOption.bind _) = _
  rw [hfind]
  show ((h.capture (Resolve.call dir o.resolve) fs).toOption.bind _) = _
  cases h.capture (Resolve.call dir o.resolve) fs with
  | error e => rfl
  | ok answer =>
    obtain ⟨left, es⟩ := answer
    dsimp only
    rw [← hmode]
    show (((Capture.run es).result o.swift.display).1.toOption.bind _) = _
    cases ((Capture.run es).result o.swift.display).1 with
    | error f => rfl
    | ok shown => rfl

/-- A new answer is noted for the entry in which it is given. -/
theorem hear_of_answer (latest : Answers) {asked : Call × FileSystem} {answer : Answer}
    (h : Host) (hanswer : h.answer? asked.1 asked.2 = some (entryAt top mf.hash, answer)) :
    Answers.hear top h latest asked = latest.note (Utf8.encode mf.hash) answer := by
  unfold Answers.hear Answers.note
  rw [hanswer]
  funext n
  have hplace : entryAt top mf.hash = top ++ [storeName, n] ↔ n = Utf8.encode mf.hash := by
    rw [entryAt, List.append_right_inj]
    simp [eq_comm]
  simp only [hplace]

theorem hear_of_none (latest : Answers) {asked : Call × FileSystem}
    (hanswer : h.answer? asked.1 asked.2 = none) : Answers.hear top h latest asked = latest := by
  unfold Answers.hear
  rw [hanswer]

/-! ## Section 4: One run -/

/-- Finding or making the record of an entry keeps a store sound; if it fails,
    no record and no marker is changed. -/
theorem run_record_sound (o : Options) (mf : Manifest) (hlocated : s.Located h.cwd top m.files)
    (hsound : s.IsSound top latest m.files) (hroomy : s.IsRoomy) (hroot : s.root.IsText)
    (hconfined : h.Confined) (hdated : h.Dated) {result : Except Failure Record}
    (hrun : (record o s mf).run h m = (result, m')) :
    s.Stands h.cwd top m'.files ∧
      s.IsSound top (latest.after top h ((record o s mf).calls h m)) m'.files ∧
      ((∃ f, result = .error f) → SameResults top m.files m'.files) := by
  have hplain := hsound.isPlainCache mf
  have hdir : m.files.at? (entryAt top mf.hash ++ [manifestName]) ≠ some .directory := by
    intro hnode
    obtain ⟨_, _, _, heq, _⟩ := (hsound.file hnode).manifest rfl
    cases heq
  -- The store is sound when a record is looked for, and what has been done so far
  -- has changed no record and no marker.
  obtain ⟨refreshed, m₁, hready⟩ := exists_ready hlocated hroomy hplain hdir
  obtain ⟨fs, hopened, hrefreshed⟩ := hready.opened hlocated hroomy hplain
  have hsound₁ := (hsound.opened hopened).refreshed hrefreshed
  have hsettled := settled_of_refreshed hplain hopened hrefreshed
  have hsame := sameResults_ready hopened hrefreshed
  cases hreuse : reuse? o m₁.files h.cwd (s.entry mf.hash) mf.hash refreshed with
  | some r =>
    obtain ⟨⟨m₂, hreused, hfiles⟩, hasks⟩ := run_record_reused hready hreuse
    rw [hrun] at hreused
    cases hreused
    rw [Action.calls_of_not_asked hasks, hfiles]
    exact ⟨hsettled.stands, hsound₁, nofun⟩
  | none =>
    -- The toolchain is called once: a failure adds at most what has been built, and an
    -- answer is noted as the latest one.
    have hresolved := resolved_of_ready hready hreuse
    rw [calls_record_resolved hready hreuse]
    rw [hrun] at hresolved
    show _ ∧ s.IsSound top (Answers.hear top h latest _) _ ∧ _
    dsimp only at hresolved
    generalize m'.files = fs₃ at hresolved ⊢
    have hentry := hsettled.leadsToEntry hroomy
    have hanswer := answer?_call o (hentry.leads.findNode hentry.fitsDir hentry.directory)
    cases hresolved with
    | notStarted hcall =>
      rw [hcall] at hanswer
      rw [hear_of_none latest hanswer]
      exact ⟨hsettled.stands, hsound₁, fun _ => hsame⟩
    | failed hcall hresult =>
      have hbuilt := hentry.builtIn hconfined hcall
      rw [hcall] at hanswer
      dsimp only at hanswer
      rw [hresult] at hanswer
      rw [hear_of_none latest hanswer]
      exact ⟨(hsettled.builtIn hbuilt).stands, hsound₁.builtIn hbuilt,
        fun _ => hsame.trans (sameResults_builtIn hbuilt)⟩
    | recorded hcall hresult =>
      have hbuilt := hentry.builtIn hconfined hcall
      have hsettled₂ := hsettled.builtIn hbuilt
      rw [hcall] at hanswer
      dsimp only at hanswer
      rw [hresult] at hanswer
      rw [hear_of_answer latest h hanswer]
      exact ⟨(hsettled₂.saved hroomy rfl).stands,
        (hsound₁.builtIn hbuilt).saved hsettled₂ hroomy hroot hdated o _, nofun⟩

/-- A run keeps a store sound, and one that fails changes no record and no
    marker. -/
theorem run_prepare_sound (hlocated : s.Located h.cwd top m.files)
    (hsound : s.IsSound top latest m.files) (hroomy : s.IsRoomy) (hroot : s.root.IsText)
    (hconfined : h.Confined) (hdated : h.Dated) {result : Except Failure Prepared}
    (hrun : (prepare homes o s source).run h m = (result, m')) :
    s.Located h.cwd top m'.files ∧
      s.IsSound top (latest.after top h ((prepare homes o s source).calls h m)) m'.files ∧
      ((∃ f, result = .error f) → SameResults top m.files m'.files) := by
  rcases hscan : (scan homes source).run h m with ⟨f | ⟨scanned, content⟩, m₁⟩
  · -- The script cannot be read, and nothing has been done.
    have hfiles := (looks_scan homes source).files h m
    have hcalls : (prepare homes o s source).calls h m = [] := by
      unfold prepare
      rw [Action.calls_bind_error hscan,
        Action.calls_of_not_asked ((looks_scan homes source).alone.asksToolchain h m)]
    rw [hscan] at hfiles
    unfold prepare at hrun
    rw [Action.run_bind_error hscan] at hrun
    cases hrun
    rw [hfiles, hcalls]
    exact ⟨hlocated, hsound, fun _ => .refl top _⟩
  · obtain ⟨hhash, hfiles⟩ := run_scan hscan
    cases hidle : scanned.dependencies.isEmpty && o.skipPackage with
    | true =>
      -- Nothing is to be resolved, and the store is left alone.
      obtain ⟨hfiles', hasks⟩ := run_prepare_idle (s := s) hscan hidle
      rw [hrun] at hfiles'
      rw [Action.calls_of_not_asked hasks, hfiles']
      exact ⟨hlocated, hsound, fun _ => .refl top _⟩
    | false =>
      rw [calls_prepare hscan hidle]
      rw [← hfiles] at hlocated hsound ⊢
      rcases hrecord : (record o s (manifestFor o scanned.dependencies)).run h m₁ with
        ⟨f | r, m₂⟩
      · obtain ⟨hstands, hsound₂, hsame⟩ := run_record_sound o _ hlocated hsound hroomy hroot
          hconfined hdated hrecord
        rw [run_prepare_error hscan hidle hrecord] at hrun
        cases hrun
        exact ⟨.inr hstands, hsound₂, fun _ => hsame ⟨f, rfl⟩⟩
      · -- A run that has its record cannot fail any more: only the marker is to come.
        obtain ⟨hstands, hsound₂, _⟩ := run_record_sound o _ hlocated hsound hroomy hroot
          hconfined hdated hrecord
        obtain ⟨m₃, hprepare, hmarked⟩ := run_prepare_ok hscan hidle hrecord
        rw [hhash] at hmarked
        rw [hprepare] at hrun
        cases hrun
        rcases hstands.same_or_marked hroomy hsound₂.markers hmarked with hsame | hkept
        · rw [hsame]
          exact ⟨.inr hstands, hsound₂, nofun⟩
        · exact ⟨.inr hkept.stands, hsound₂.marked hkept, nofun⟩

/-- So does a run with another staleness threshold, or in another directory. -/
theorem run_prepare_allowed {s' : Store} {cwd : Location} (hlocated : s.Located cwd top m.files)
    (hsound : s.IsSound top latest m.files) (hroomy : s.IsRoomy) (hroot : s.root.IsText)
    (hsroot : s'.root = s.root) (hallowed : h.IsAllowed s.root cwd)
    {result : Except Failure Prepared}
    (hrun : (prepare homes o s' source).run h m = (result, m')) :
    s.Located cwd top m'.files ∧
      s.IsSound top (latest.after top h ((prepare homes o s' source).calls h m)) m'.files ∧
      ((∃ f, result = .error f) → SameResults top m.files m'.files) := by
  have hroomy' : s'.IsRoomy := by
    unfold IsRoomy
    rw [hsroot]
    exact hroomy
  have hback : cwd = h.cwd ∨ s'.root.isAbsolute = true := by
    rw [hsroot]
    exact hallowed.cwd.imp_left Eq.symm
  obtain ⟨hlocated', hsound', hsame⟩ := run_prepare_sound (hlocated.of_root hsroot hallowed.cwd)
    (hsound.of_root hsroot) hroomy' (hsroot ▸ hroot) hallowed.confined hallowed.dated hrun
  exact ⟨hlocated'.of_root hsroot.symm hback, hsound'.of_root hsroot.symm, hsame⟩

end Prepare

/-! ## Section 5: Any number of runs -/

variable {s : Store} {cwd top : Location} {latest : Answers} {fs : FileSystem}

/-- Every reachable store is sound. -/
theorem Reachable.isSound (hroomy : s.IsRoomy) (hroot : s.root.IsText)
    (hreach : Reachable s cwd top latest fs) :
    s.Located cwd top fs ∧ s.IsSound top latest fs := by
  induction hreach with
  | start habsent => exact ⟨.inl habsent, isSound_of_absent habsent⟩
  | edit hreach hlocated hsame ih =>
    obtain ⟨_, hsound⟩ := ih
    refine ⟨hlocated, hsound.of_right (fun names node hnode => ?_) fun n => hsame _⟩
    rw [hsame] at hnode
    exact hsound.right names node hnode
  | run hreach homes o s' source h seen hsroot hallowed ih =>
    obtain ⟨hlocated, hsound⟩ := ih
    obtain ⟨hlocated', hsound', _⟩ := Prepare.run_prepare_allowed (m := ⟨_, seen⟩)
      hlocated hsound hroomy hroot hsroot hallowed rfl
    exact ⟨hlocated', hsound'⟩

/-- In every reachable store the manifests have the digests that their
    entries are named after, and the records are those of the latest answers
    of the toolchain in their entries, none of which is lost; a run that fails
    from there changes no record and no marker, and one of a script without
    dependencies changes nothing at all. -/
theorem Reachable.results_are_latest (hroomy : s.IsRoomy) (hroot : s.root.IsText)
    (hreach : Reachable s cwd top latest fs) :
    s.Located cwd top fs ∧
    (∀ n node, fs.at? (top ++ [storeName, n, manifestName]) = some node → IsManifestOf n node) ∧
    (∀ n node, fs.at? (top ++ [storeName, n, recordName]) = some node →
      s.IsRecordOf latest n node) ∧
    (∀ n answer, latest n = some answer →
      (fs.at? (top ++ [storeName, n, recordName])).isSome) ∧
    ∀ homes o s' source h seen result m', s'.root = s.root → h.IsAllowed s.root cwd →
      (prepare homes o s' source).run h ⟨fs, seen⟩ = (result, m') →
      ((∃ f, result = .error f) →
        (∀ n, m'.files.at? (top ++ [storeName, n, recordName]) =
          fs.at? (top ++ [storeName, n, recordName])) ∧
        ∀ names, m'.files.at? (top ++ markersName :: names) =
          fs.at? (top ++ markersName :: names)) ∧
      (∀ scanned content m₁,
        (Prepare.scan homes source).run h ⟨fs, seen⟩ = (.ok (scanned, content), m₁) →
        scanned.dependencies = [] → o.skipPackage = true →
        ∀ names, m'.files.at? (top ++ names) = fs.at? (top ++ names)) := by
  obtain ⟨hlocated, hsound⟩ := hreach.isSound hroomy hroot
  refine ⟨hlocated, fun n node hnode => (hsound.right _ node hnode rfl).manifest rfl,
    fun n node hnode => (hsound.right _ node hnode rfl).record rfl, hsound.kept, ?_⟩
  intro homes o s' source h seen result m' hsroot hallowed hrun
  refine ⟨fun hfailed => ?_, fun scanned content m₁ hscan hnone hskip names => ?_⟩
  · obtain ⟨_, _, hsame⟩ := Prepare.run_prepare_allowed (m := ⟨fs, seen⟩) hlocated hsound hroomy
      hroot hsroot hallowed hrun
    exact ⟨(hsame hfailed).record, (hsame hfailed).marker⟩
  · obtain ⟨hfiles, _⟩ := Prepare.run_prepare_idle (o := o) (s := s') hscan
      (by rw [hnone, hskip]; rfl)
    rw [hrun] at hfiles
    rw [hfiles]

/-! ## Section 6: A first run -/

namespace Prepare

/-- In the small cache nothing is to be added to what the toolchain shows. -/
theorem completed_small {h : Host} (hcwd : h.cwd = []) {fs : FileSystem}
    (hbuilt : Built smallStore [] smallTop smallManifest .empty fs) :
    Resolve.completed h (smallStore.entry smallManifest.hash) fs ["-I/x".toList] =
      ["-I/x".toList] := by
  have hentry := hbuilt.settled.leadsToEntry isRoomy_small
  have hleads := hentry.leads.child (isEntryName_of_mem_ownNames (by decide)) hbuilt.build
  -- Nothing is there in the build directory, and nothing outside the cache.
  have hlisting : ∀ n, Path.IsEntryName n →
      fs.visits h.cwd (((smallStore.entry smallManifest.hash).child buildName).child n) = [] := by
    intro n hn
    rw [hcwd]
    refine Invocation.visits_of_missing_child hleads hn ?_
    rw [List.append_assoc]
    refine (hbuilt.at?_entry (by simp)).trans ?_
    simp [at?, FileSystem.empty]
  have hx : fs.at? [Utf8.encode "x".toList] = none := by
    rw [hbuilt.other _ (by decide) (by decide)]
    rfl
  have hmodules : fs.isDirectory h.cwd
      (Path.ofText (Invocation.modulesPath "/x".toList)) = false :=
    isDirectory_of_missing hx rfl (by decide) (by decide) h.cwd
  obtain ⟨hlength, _, hattached, _⟩ := Invocation.prefers_run_complete ["-I/x".toList]
    (m := ⟨fs, []⟩) (hlisting _ (by decide)) (hlisting _ (by decide))
  have hword := hattached 0 "/x".toList rfl (by decide) id
  unfold Invocation.preferred at hword
  rw [hmodules, if_neg Bool.false_ne_true] at hword
  unfold Resolve.completed
  generalize ((Invocation.complete _ _).run h _).1 = patched at hlength hword ⊢
  obtain ⟨word, rfl⟩ := List.length_eq_one_iff.1 hlength
  rw [Option.some.inj hword]
  rfl

end Prepare

open Prepare in
/-- After a first run that has asked the toolchain its record is there, with
    the arguments that have been shown. -/
theorem Reachable.results_are_latest_once :
    ∃ p m' latest t modified mode r,
      (prepare smallHomes smallOptions smallStore (.ofStdin "/")).run (smallHost 0 smallAnswer)
        ⟨.empty, []⟩ = (.ok p, m') ∧
      Reachable smallStore [] smallTop latest m'.files ∧
      latest (Utf8.encode smallManifest.hash) = some (["-I/x".toList], false) ∧
      m'.files.at? (smallTop ++ [storeName, Utf8.encode smallManifest.hash, recordName]) =
        some (.file (Utf8.encode t) modified mode) ∧
      Record.ofText? t = some r ∧ r.hash = smallManifest.hash ∧
      r.directory = smallStore.entry smallManifest.hash ∧ r.args = ["-I/x".toList] ∧
      r.releaseMode = false := by
  obtain ⟨_, hscan⟩ := run_smallScan 0 smallAnswer ⟨.empty, []⟩
  have hmf : manifestFor smallOptions smallScan.dependencies = smallManifest := rfl
  obtain ⟨p, r, m', fs, hrun, _, hkept, hbuilt, hr⟩ := prepare_builds hscan smallScan_busy hmf rfl
    located_small isRoomy_small ⟨"/c".toList, rfl⟩ (isPlainCache_empty _ _)
    (by rw [at?_empty]; simp) result_smallAnswer (asks_small 0 smallAnswer)
  rw [completed_small rfl hbuilt] at hr
  have hreach := Reachable.run (.start absent_small) smallHomes smallOptions smallStore
    (.ofStdin "/") (smallHost 0 smallAnswer) [] rfl
    ⟨.inl rfl, Host.confined_builder _ _, by decide⟩
  change Action.run _ (smallHost 0 smallAnswer) _ = _ at hrun
  rw [hrun] at hreach
  obtain ⟨t, modified, mode, hrender, hnode⟩ := hkept.record
  rw [entryAt_append] at hnode
  have hread : Record.ofText? t = some r :=
    Record.ofText?_render (by rw [hr]; show (smallHost 0 smallAnswer).Dated; decide) hrender
  obtain ⟨_, _, hrecords, _⟩ :=
    Reachable.results_are_latest isRoomy_small ⟨"/c".toList, rfl⟩ hreach
  obtain ⟨t', _, _, r', heq, hread', _, _, hlatest⟩ := hrecords _ _ hnode
  obtain rfl : t = t' := Utf8.encode_injective (Node.file.inj heq).1
  obtain rfl : r = r' := Option.some.inj (hread.symm.trans hread')
  refine ⟨p, m', _, t, modified, mode, r, hrun, hreach, ?_, hnode, hread, ?_⟩
  · rw [hlatest, hr]
    rfl
  · rw [hr]
    exact ⟨rfl, rfl, rfl, rfl⟩

end ScriptDeps
