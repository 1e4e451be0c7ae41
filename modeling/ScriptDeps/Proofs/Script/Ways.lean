import ScriptDeps.Proofs.Prepare.Requests
import ScriptDeps.Proofs.Prepare.Reuse

/-! # The ways in which a script is read

    A script comes from a regular file, a pipe, standard input, the command
    line, or a private copy of a file.  The ways differ in what is opened and
    when it is read (`Way.Offers`), but the content and the folder are what
    they should be (`Way.Offers.exists_open`).  So whichever way a script
    comes, its dependencies are the same, and so are its manifest and its entry
    (`any_way_same_entry`). -/

namespace ScriptDeps
namespace Script

open FileSystem

/-! ## Section 1: Model -/

/-- The name of a new private file. -/
def temporaryName (h : Host) : Name :=
  Utf8.encode "swift-sh-inline-content-" ++ h.freshName ++ Utf8.encode ".swift"

/-- The directory for temporary files can be reached, and the name of a new
    private file is not in use there. -/
structure HasRoom (h : Host) (m : Machine) : Prop where
  name  : Path.IsEntryName (temporaryName h)
  fits  : (h.temporary.child (temporaryName h)).Fits
  fresh : ∃ loc, m.files.Leads h.cwd h.temporary loc ∧
    m.files.at? (loc ++ [temporaryName h]) = none

/-- In the working directory `cwd` the path `p` is short for `full`, which is
    in the directory `d`. -/
structure IsIn (cwd p full d : Path) : Prop where
  named    : ¬ p.same (Path.ofText stdinArgument) = true
  absolute : p.absolute cwd = .ok full
  parent   : full.parent? = some d

/-- What the user names. -/
inductive Way where
  /-- A path on the command line, which may be that of standard input. -/
  | path (p : Path)
  /-- The text of the script itself. -/
  | text (t : Text)
  /-- A path whose file is copied before it is compiled. -/
  | copy (p : Path)

/-- How a way is opened in the working directory `cwd`. -/
def Way.opening (cwd : Path) : Way → Action Source
  | .path p => Source.ofPath cwd p
  | .text t => Source.ofContent cwd t
  | .copy p => Source.copyOf cwd p

/-- The script `content` in the directory `d` is what a way leads to. -/
inductive Way.Offers (cwd d : Path) (content : Bytes) (h : Host) (m : Machine) : Way → Prop where
  | regularFile {p full : Path} {loc : Location} {node : Node} (hin : IsIn cwd p full d)
      (hfind : m.files.findNode h.cwd true p = .ok (loc, node)) (hkind : node.kind = .file)
      (hread : m.files.read h.cwd full = .ok content) : Offers cwd d content h m (.path p)
  | namedPipe {p full : Path} {loc : Location} {node : Node} (hin : IsIn cwd p full d)
      (hfind : m.files.findNode h.cwd true p = .ok (loc, node)) (hkind : node.kind = .other)
      (hread : m.files.read h.cwd full = .ok content) : Offers cwd d content h m (.path p)
  | standardInput {p : Path} (hp : p.same (Path.ofText stdinArgument) = true) (hcwd : cwd = d)
      (hstdin : h.stdin = content) : Offers cwd d content h m (.path p)
  | inlineText {t : Text} (hcwd : cwd = d) (htext : Utf8.encode t = content)
      (hroom : HasRoom h m) : Offers cwd d content h m (.text t)
  | privateCopy {p full : Path} (hin : IsIn cwd p full d)
      (hread : m.files.read h.cwd p = .ok content) (hroom : HasRoom h m) :
      Offers cwd d content h m (.copy p)

variable {homes : Homes} {cwd d p full : Path} {content : Bytes} {h : Host} {m m' : Machine}
  {way : Way} {source : Source}

/-! ## Section 2: Private files -/

/-- A file that is there is filled and given its mode, and can then be read. -/
theorem run_fill {loc : Location} {n : Name} {node : Node}
    (hleads : m.files.Leads h.cwd p loc) (hn : Path.IsEntryName n) (hfits : (p.child n).Fits)
    (hnode : m.files.at? (loc ++ [n]) = some node) (hfile : node.kind = .file)
    (content : Bytes) (mode : Nat) :
    ∃ m', (Source.fill (p.child n) content mode).run h m = (.ok (), m') ∧
      m'.files.read h.cwd (p.child n) = .ok content := by
  obtain ⟨old, modified, mode', rfl⟩ : ∃ old modified mode', node = .file old modified mode' := by
    cases node with
    | file old modified mode' => exact ⟨old, modified, mode', rfl⟩
    | _ => cases hfile
  have hroot : loc ++ [n] ≠ [] := by simp
  have hlink : ∀ {fs : FileSystem} {content modified mode},
      fs.at? (loc ++ [n]) = some (.file content modified mode) → NoLink fs (loc ++ [n]) := by
    intro fs content modified mode hat t
    rw [hat]
    simp
  -- A file takes the place of a file, so the way to it stays what it was.
  have hkeeps : ∀ {fs : FileSystem} {content modified mode} (node' : Node),
      fs.at? (loc ++ [n]) = some (.file content modified mode) →
        Keeps fs (fs.put (loc ++ [n]) node') := by
    intro fs content modified mode node' hat
    exact keeps_put_file hroot (by rw [hat]; simp) (hlink hat) node'
  let fs₁ := m.files.put (loc ++ [n]) (.file content h.now mode')
  let fs₂ := fs₁.put (loc ++ [n]) (.file content h.now mode)
  have hat₁ : fs₁.at? (loc ++ [n]) = some (.file content h.now mode') :=
    at?_put_self m.files _ hroot
  have hat₂ : fs₂.at? (loc ++ [n]) = some (.file content h.now mode) := at?_put_self fs₁ _ hroot
  have hleads₁ : fs₁.Leads h.cwd p loc := hleads.mono (hkeeps _ hnode)
  have hleads₂ : fs₂.Leads h.cwd p loc := hleads₁.mono (hkeeps _ hat₁)
  have hwrite : (Action.ask (.write (p.child n) content)).run h m =
      (.ok (.ok ()), { m with files := fs₁ }) := by
    rw [Action.run_ask, Machine.respond, write_child hleads hn hfits (hlink hnode), hnode]
    rfl
  have hmode : (Action.ask (.setMode (p.child n) mode)).run h { m with files := fs₁ } =
      (.ok (.ok ()), { m with files := fs₂ }) := by
    rw [Action.run_ask, Machine.respond, setMode_child hleads₁ hn hfits (hlink hat₁), hat₁]
    rfl
  refine ⟨{ m with files := fs₂ }, ?_, ?_⟩
  · unfold Source.fill
    rw [Action.run_bind_ok hwrite]
    exact Action.run_bind_ok hmode
  · show fs₂.read h.cwd (p.child n) = .ok content
    rw [read_child hleads₂ hn hfits (hlink hat₂), hat₂]

/-- A private file that is made can be read. -/
theorem HasRoom.run_makeTemporary (hroom : HasRoom h m) (content : Bytes) (mode : Nat) :
    ∃ file m', (Source.makeTemporary content mode).run h m = (.ok file, m') ∧
      m'.files.read h.cwd file = .ok content := by
  obtain ⟨loc, hleads, hnone⟩ := hroom.fresh
  let made := Node.file [] h.now privateMode
  let fs := m.files.put (loc ++ [temporaryName h]) made
  have hroot : loc ++ [temporaryName h] ≠ [] := by simp
  have hfind : m.files.find h.cwd false
      (Machine.temporaryPath h "swift-sh-inline-content-" ".swift") =
        .ok (.missing loc (temporaryName h)) := by
    refine (find_child hleads hroom.name hroom.fits false nofun).trans ?_
    rw [hnone]
  have hmake : (Action.ask (.temporary "swift-sh-inline-content-".toList ".swift".toList)).run h m =
      (.ok (.ok (h.temporary.child (temporaryName h))), { m with files := fs }) := by
    rw [Action.run_ask]
    unfold Machine.respond
    dsimp only
    rw [hfind]
    rfl
  -- The name is a new one, so the way to it stays what it was.
  have hkeeps : Keeps m.files fs :=
    keeps_put_file hroot (by rw [hnone]; simp) (fun t => by rw [hnone]; simp) _
  obtain ⟨m', hfill, hread⟩ := run_fill (m := { m with files := fs }) (hleads.mono hkeeps)
    hroom.name hroom.fits (at?_put_self m.files made hroot) rfl content mode
  refine ⟨h.temporary.child (temporaryName h), m', ?_, hread⟩
  unfold Source.makeTemporary
  rw [Action.run_bind_ok hmake]
  exact Action.run_bind_ok (Action.run_orUndo_ok hfill _)

/-! ## Section 3: Opening and reading -/

/-- A source is read at the path that it is run from, or else at the one that
    was named. -/
theorem run_read_of_path (hpath : (source.runPath.orElse fun _ => source.origin) = some p)
    (hread : m.files.read h.cwd p = .ok content) : source.read.run h m = (.ok content, m) := by
  have hask : (Action.ask (.read p)).run h m = (.ok (.ok content), m) := by
    rw [← hread]
    rfl
  unfold Source.read
  rw [hpath]
  exact Action.run_bind_ok hask

/-- What is no directory is opened in the directory that holds its absolute
    path. -/
theorem exists_run_ofPath {loc : Location} {node : Node} (hin : IsIn cwd p full d)
    (hfind : m.files.findNode h.cwd true p = .ok (loc, node)) (hkind : node.kind ≠ .directory) :
    ∃ source, (Source.ofPath cwd p).run h m = (.ok source, m) ∧ source.folder = d ∧
      (source.runPath.orElse fun _ => source.origin) = some full := by
  obtain ⟨hnamed, habsolute, hparent⟩ := hin
  have hstatus := Action.run_status p true h m
  have hsame : (Machine.statusOf node).kind = node.kind := by cases node <;> rfl
  have hfolder : full.parent?.getD ⟨[Path.slash]⟩ = d := by rw [hparent]; rfl
  rw [hfind] at hstatus
  unfold Source.ofPath
  rw [if_neg hnamed, Action.run_bind_ok hstatus]
  dsimp only [Except.map]
  rw [hsame, if_neg hkind, Action.run_bind_ok (Source.run_resolve_ok habsolute h m)]
  by_cases hfile : node.kind = .file
  · rw [if_pos hfile]
    exact ⟨_, rfl, hfolder, rfl⟩
  · rw [if_neg hfile]
    exact ⟨_, rfl, hfolder, rfl⟩

/-- What can be read is a file or a pipe. -/
theorem exists_findNode_of_read (hread : m.files.read h.cwd p = .ok content) :
    ∃ loc node, m.files.findNode h.cwd true p = .ok (loc, node) ∧ node.kind ≠ .directory := by
  unfold FileSystem.read at hread
  split at hread
  · next hfind => exact ⟨_, _, hfind, by simp [Node.kind]⟩
  · next hfind => exact ⟨_, _, hfind, by simp [Node.kind]⟩
  · cases hread
  · cases hread

/-- Whichever way a script comes, it is opened in its directory, and what is
    read is its content. -/
theorem Way.Offers.exists_open (hoffers : way.Offers cwd d content h m) :
    ∃ source m', (way.opening cwd).run h m = (.ok source, m') ∧ source.folder = d ∧
      source.read.run h m' = (.ok content, m') := by
  cases hoffers with
  | regularFile hin hfind hkind hread =>
    obtain ⟨source, hopen, hfolder, hpath⟩ := exists_run_ofPath hin hfind (by rw [hkind]; decide)
    exact ⟨source, m, hopen, hfolder, run_read_of_path hpath hread⟩
  | namedPipe hin hfind hkind hread =>
    obtain ⟨source, hopen, hfolder, hpath⟩ := exists_run_ofPath hin hfind (by rw [hkind]; decide)
    exact ⟨source, m, hopen, hfolder, run_read_of_path hpath hread⟩
  | standardInput hp hcwd hstdin =>
    refine ⟨.ofStdin cwd, m, ?_, hcwd, ?_⟩
    · show Action.run (Source.ofPath cwd _) h m = _
      unfold Source.ofPath
      rw [if_pos hp]
      rfl
    · rw [← hstdin]
      rfl
  | @inlineText t hcwd htext hroom =>
    -- The text goes to a private file, and that is what is read.
    obtain ⟨file, m', hmake, hread⟩ := hroom.run_makeTemporary content 0o400
    refine ⟨⟨.inlined, some file, none, cwd, some file⟩, m', ?_, hcwd, run_read_of_path rfl hread⟩
    show Action.run (Source.ofContent cwd t) h m = _
    unfold Source.ofContent
    rw [htext, Action.run_bind_ok hmake]
    rfl
  | @privateCopy p full hin hread hroom =>
    -- The copy is read, but the folder stays that of the original.
    obtain ⟨loc, node, hfind, hkind⟩ := exists_findNode_of_read hread
    obtain ⟨original, hopen, hfolder, _⟩ := exists_run_ofPath hin hfind hkind
    obtain ⟨file, m', hmake, hread'⟩ := hroom.run_makeTemporary content 0o600
    have hask : (Action.ask (.read p)).run h m = (.ok (.ok content), m) := by
      rw [← hread]
      rfl
    refine ⟨⟨.inlined, some file, original.origin, original.folder, some file⟩, m', ?_, hfolder,
      run_read_of_path rfl hread'⟩
    show Action.run (Source.copyOf cwd p) h m = _
    unfold Source.copyOf
    rw [if_neg hin.named, Action.run_bind_ok hopen, Action.run_bind_ok hask]
    exact Action.run_bind_ok hmake

/-! ## Section 4: Preparing -/

/-- A record that is returned is for the manifest that was asked for. -/
theorem hash_of_run_record {o : Prepare.Options} {s : Store} {mf : Manifest} {r : Record}
    (hrun : (Prepare.record o s mf).run h m = (.ok r, m')) : r.hash = mf.hash := by
  obtain ⟨refreshed, m₁, hready⟩ := Prepare.exists_ready_of_ok hrun
  -- The record was found, and then it was checked; or it is a new one.
  cases hreuse : Prepare.reuse? o m₁.files h.cwd (s.entry mf.hash) mf.hash refreshed with
  | some r' =>
    obtain ⟨⟨m₂, hreused, _⟩, _⟩ := Prepare.run_record_reused hready hreuse
    rw [hrun] at hreused
    cases hreused
    unfold Prepare.reuse? at hreuse
    split at hreuse
    · exact (Prepare.usable?_eq_some.1 (Option.filter_eq_some_iff.1 hreuse).1).2.1
    · cases hreuse
  | none =>
    have hresolved := Prepare.resolved_of_ready hready hreuse
    rw [hrun] at hresolved
    dsimp only at hresolved
    generalize m'.files = fs at hresolved
    cases hresolved with
    | recorded => rfl

variable {o : Prepare.Options} {s : Store} {scanned : Scan}

/-- A run that prepares a script makes the entry of its manifest. -/
theorem makeDirectories_mem_requests
    (hscan : (Prepare.scan homes source).run h m = (.ok (scanned, content), m'))
    (hbusy : (scanned.dependencies.isEmpty && o.skipPackage) = false) :
    .makeDirectories (s.entry (Prepare.manifestFor o scanned.dependencies).hash) ∈
      (prepare homes o s source).requests h m := by
  unfold prepare
  rw [Action.requests_bind_ok hscan]
  refine List.mem_append_right _ ?_
  dsimp only
  rw [if_neg (by rw [hbusy]; exact Bool.false_ne_true)]
  exact List.Mem.head _

/-- Where a script without dependencies needs no package, none is prepared. -/
theorem result_prepare_idle
    (hscan : (Prepare.scan homes source).run h m = (.ok (scanned, content), m'))
    (hidle : (scanned.dependencies.isEmpty && o.skipPackage) = true) :
    ((prepare homes o s source).run h m).1.map (fun p => (p.args, p.record)) = .ok ([], none) := by
  unfold prepare
  rw [Action.run_bind_ok hscan]
  dsimp only
  rw [if_pos hidle]
  rfl

/-- A script with the given content in the directory `d` has one scan, whichever
    way it comes: it can be opened and scanned, and this is what the scan
    yields.  So with the same options it is prepared with the same manifest and
    in the same entry, and what it is handed over with is what the record for
    this manifest says. -/
theorem any_way_same_entry (homes : Homes) (d : Path) (content : Bytes) :
    ∃ scanned : Scan, ∀ (way : Way) (cwd : Path) (h : Host) (m : Machine),
      way.Offers cwd d content h m →
      ∃ source m₁ m₂, (way.opening cwd).run h m = (.ok source, m₁) ∧
        (Prepare.scan homes source).run h m₁ = (.ok (scanned, content), m₂) ∧
        ∀ (o : Prepare.Options) (s : Store),
          ((scanned.dependencies.isEmpty && o.skipPackage) = true →
            ((prepare homes o s source).run h m₁).1.map (fun p => (p.args, p.record)) =
              .ok ([], none)) ∧
          ((scanned.dependencies.isEmpty && o.skipPackage) = false →
            .makeDirectories (s.entry (Prepare.manifestFor o scanned.dependencies).hash) ∈
              (prepare homes o s source).requests h m₁ ∧
            ((prepare homes o s source).run h m₁).1.map (fun p => (p.args, p.record)) =
              ((Prepare.record o s (Prepare.manifestFor o scanned.dependencies)).run h m₂).1.map
                (fun r => (r.args, some r)) ∧
            ∀ p r, ((prepare homes o s source).run h m₁).1 = .ok p → p.record = some r →
              r.hash = (Prepare.manifestFor o scanned.dependencies).hash) := by
  refine ⟨scan ⟨⟨d, homes.home?, homes.homeOf?⟩, toolVersion⟩ content,
    fun way cwd h m hoffers => ?_⟩
  obtain ⟨source, m₁, hopen, hfolder, hread⟩ := hoffers.exists_open
  obtain ⟨m₂, hscan⟩ := Prepare.run_scan_of_read homes hread
  -- Of the source the scan only depends on its folder, and that is `d` for every way.
  rw [hfolder] at hscan
  refine ⟨source, m₁, m₂, hopen, hscan, fun o s => ⟨result_prepare_idle hscan, fun hbusy => ?_⟩⟩
  have hresult := Prepare.result_prepare (s := s) hscan hbusy
  refine ⟨makeDirectories_mem_requests hscan hbusy, hresult, fun p r hp hr => ?_⟩
  rw [hp] at hresult
  rcases hrecord : (Prepare.record o s (Prepare.manifestFor o _)).run h m₂ with ⟨f | r', m₃⟩
  · rw [hrecord] at hresult
    cases hresult
  · rw [hrecord] at hresult
    have hsame := (Prod.mk.inj (Except.ok.inj hresult)).2
    rw [hr] at hsame
    obtain rfl := Option.some.inj hsame
    exact hash_of_run_record hrecord

/-- The names of the working directory, a file and a pipe in it, and of the
    directory for temporary files. -/
def folderName : Name := Utf8.encode "w".toList
def fileName : Name := Utf8.encode "a.swift".toList
def pipeName : Name := Utf8.encode "p".toList
def roomName : Name := Utf8.encode "t".toList

/-- A script with a package in the directory that it lies in. -/
def localScript : Text := "import A // ./b".toList

/-- The script in a file and in a pipe of the working directory. -/
def smallMachine : Machine :=
  ⟨⟨[([folderName], .directory),
    ([folderName, fileName], .file (Utf8.encode localScript) 0 plainMode),
    ([folderName, pipeName], .pipe (Utf8.encode localScript)), ([roomName], .directory)]⟩, []⟩

/-- A host that gives it on standard input, too. -/
def smallHost : Host := Scripted.bare 0 [folderName] (Utf8.encode localScript) "/t" []

/-- The ways to read that script. -/
def smallWays : List Way :=
  [.path "a.swift", .path "p", .path "-", .text localScript, .copy "a.swift"]

/-- A node of the working directory is found by its name and by its absolute path. -/
theorem findNode_inFolder {n : Name} {node : Node} (hn : Path.IsEntryName n)
    (hfits : (Path.child ⟨[]⟩ n).Fits) (hfits' : (Path.child "/w" n).Fits)
    (hnode : smallMachine.files.at? [folderName, n] = some node) (hlink : ∀ t, node ≠ .link t) :
    smallMachine.files.findNode [folderName] true (Path.child ⟨[]⟩ n) =
        .ok ([folderName, n], node) ∧
      smallMachine.files.findNode [folderName] true (Path.child "/w" n) =
        .ok ([folderName, n], node) := by
  have hhere : smallMachine.files.Leads [folderName] ⟨[]⟩ [folderName] := ⟨linkLimit, .nil _ _⟩
  have hroot : smallMachine.files.Leads [folderName] "/w" [folderName] :=
    ⟨linkLimit, .root _ (.enter (by decide) (by decide) (.nil _ _))⟩
  have hnode' : smallMachine.files.at? ([folderName] ++ [n]) = some node := hnode
  have hnone : ∀ t, smallMachine.files.at? ([folderName] ++ [n]) ≠ some (.link t) := by
    intro t h
    exact hlink t (Option.some.inj (hnode'.symm.trans h))
  rw [findNode_child hhere hn hfits true fun _ => hnone,
    findNode_child hroot hn hfits' true fun _ => hnone, hnode']
  exact ⟨rfl, rfl⟩

theorem hasRoom_small : HasRoom smallHost smallMachine where
  name := by decide
  fits := by decide
  fresh := ⟨[roomName], ⟨linkLimit, .root _ (.enter (by decide) (by decide) (.nil _ _))⟩,
    by decide⟩

theorem offers_smallWays : ∀ way ∈ smallWays,
    way.Offers "/w" "/w" (Utf8.encode localScript) smallHost smallMachine := by
  have hthere : smallMachine.files.at? [folderName, fileName] =
      some (.file (Utf8.encode localScript) 0 plainMode) := by decide
  have hthere' : smallMachine.files.at? [folderName, pipeName] =
      some (.pipe (Utf8.encode localScript)) := by decide
  obtain ⟨hfile, hfile'⟩ :=
    findNode_inFolder (by decide) (by decide) (by decide) hthere (by simp)
  obtain ⟨hpipe, hpipe'⟩ :=
    findNode_inFolder (by decide) (by decide) (by decide) hthere' (by simp)
  have hin : IsIn "/w" "a.swift" "/w/a.swift" "/w" := ⟨by decide, rfl, by decide⟩
  have hin' : IsIn "/w" "p" "/w/p" "/w" := ⟨by decide, rfl, by decide⟩
  have hread : ∀ {p : Path} {loc : Location} {node : Node},
      smallMachine.files.findNode [folderName] true p = .ok (loc, node) →
      (node = .file (Utf8.encode localScript) 0 plainMode ∨
        node = .pipe (Utf8.encode localScript)) →
      smallMachine.files.read smallHost.cwd p = .ok (Utf8.encode localScript) := by
    intro p loc node hfind hnode
    have hcwd : smallHost.cwd = [folderName] := rfl
    rw [hcwd, FileSystem.read, hfind]
    rcases hnode with rfl | rfl
    · rfl
    · rfl
  simp only [smallWays, List.forall_mem_cons]
  exact ⟨.regularFile hin hfile rfl (hread hfile' (.inl rfl)),
    .namedPipe hin' hpipe rfl (hread hpipe' (.inr rfl)), .standardInput (by decide) rfl rfl,
    .inlineText rfl rfl hasRoom_small, .privateCopy hin (hread hfile (.inl rfl)) hasRoom_small,
    by simp⟩

/-- The package is looked for in the working directory, whichever way the script is read. -/
theorem any_way_same_entry_small :
    (∀ way ∈ smallWays,
      way.Offers "/w" "/w" (Utf8.encode localScript) smallHost smallMachine) ∧
    ∃ scanned : Scan, scanned.dependencies = [⟨"A".toList, .directory "./b" "/w", .latest⟩] ∧
      ∀ way ∈ smallWays, ∃ source m₁ m₂,
        (way.opening "/w").run smallHost smallMachine = (.ok source, m₁) ∧
        (Prepare.scan Prepare.smallHomes source).run smallHost m₁ =
          (.ok (scanned, Utf8.encode localScript), m₂) := by
  obtain ⟨scanned, hscanned⟩ :=
    any_way_same_entry Prepare.smallHomes "/w" (Utf8.encode localScript)
  have hways : ∀ way ∈ smallWays, ∃ source m₁ m₂,
      (way.opening "/w").run smallHost smallMachine = (.ok source, m₁) ∧
      (Prepare.scan Prepare.smallHomes source).run smallHost m₁ =
        (.ok (scanned, Utf8.encode localScript), m₂) := by
    intro way hway
    obtain ⟨source, m₁, m₂, hopen, hscan, _⟩ := hscanned way "/w" smallHost smallMachine
      (offers_smallWays way hway)
    exact ⟨source, m₁, m₂, hopen, hscan⟩
  refine ⟨offers_smallWays, scanned, ?_, hways⟩
  -- What is scanned is told by the way over standard input.
  obtain ⟨source, m₁, m₂, hopen, hscan⟩ := hways (.path "-") (by simp [smallWays])
  cases hopen
  obtain ⟨m₃, hscan'⟩ :=
    Prepare.run_scan_ofStdin Prepare.smallHomes "/w" smallHost smallMachine
  cases hscan.symm.trans hscan'
  decide +kernel

end Script
end ScriptDeps
