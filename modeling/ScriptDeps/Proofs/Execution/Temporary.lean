import ScriptDeps.Proofs.Execution.Run
import ScriptDeps.Proofs.Script.PrivateFile

/-! # Private files

    A script on the command line, and a script that is to be compiled, is put
    into a private file in the directory for temporary files.  That file is
    there, with the whole script, as long as a program may be running it, and
    it is gone when the command ends, however it ends
    (`private_file_is_released`). -/

namespace ScriptDeps

open FileSystem

namespace Tool

open CommandLine (Preparation Command)
open Script (temporaryFile HasPrivate HasPart Admits apart)
open Store (IsClear)

/-! ## Section 1: Model -/

/-- A command that prepares a script, and whether the script is put into a private
    file. -/
inductive Prepares : Command → Preparation → Text → Bool → Prop
  | run (p : Preparation) (script : Text) (args : List Text) :
      Prepares (.run p script args) p script p.content
  | build (p : Preparation) (script : Text) : Prepares (.build p script) p script true

/-- The script that an argument is, or names. -/
def contentOf (h : Host) (fs : FileSystem) (p : Preparation) (script : Text) :
    Except IoError Bytes :=
  if p.content then .ok (Utf8.encode script)
  else if (Path.ofText script).same (Path.ofText Script.stdinArgument) then .ok h.stdin
  else fs.read h.cwd (Path.ofText script)

/-- What is at `dir` and below while a command uses a script: what has been there,
    and the private file with the script, if there is one. -/
def Holds (h : Host) (dir : Location) (fs : FileSystem) (p : Preparation) (script : Text) :
    Bool → FileSystem → Prop
  | false, fs' => SameBelow dir fs fs'
  | true, fs' => ∃ content, contentOf h fs p script = .ok content ∧ HasPrivate h dir content fs fs'

/-- The source of a script that has been opened, and the files then. -/
def Opened (h : Host) (dir : Location) (fs : FileSystem) (p : Preparation) (script : Text) :
    Bool → Script.Source → FileSystem → Prop
  | false, source, fs' => source.temporary = none ∧ fs' = fs
  | true, source, fs' => ∃ content, contentOf h fs p script = .ok content ∧
      Script.RunsPrivate h dir content fs source fs'

/-- A request `r` that a command makes, and the files `fs'` that it is made on. -/
structure Moment (h : Host) (dir : Location) (fs : FileSystem) (p : Preparation) (script : Text)
    (copied : Bool) (r : Request) (fs' : FileSystem) : Prop where
  holds   : SameBelow dir fs fs' ∨ copied = true ∧ HasPart h dir (contentOf h fs p script) fs fs'
  running : ∀ call input, r = .execute call input → Holds h dir fs p script copied fs' ∧
    (copied = true → (temporaryFile h).display ∈ call.args)

/-- What using an open script may ask for. -/
inductive Uses (s : Store) (source : Script.Source) : Request → Prop
  | prepares {r : Request} (h : Prepare.Asks s source r) : Uses s source r
  | executes (call : Call) (input : Input) (h : source.argument ∈ call.args) :
      Uses s source (.execute call input)

/-- The files at `dir` and below, before a command and at a moment of it. -/
structure Released (h : Host) (dir : Location) (fs : FileSystem) (p : Preparation)
    (script : Text) (copied : Bool) (q : Program (Except Failure Nat)) (fs' : FileSystem) :
    Prop where
  /-- When the command has ended, all is as before. -/
  ended : ∀ result, q = .done result → SameBelow dir fs fs'
  /-- Until then there may be one new file, which holds a beginning of the script. -/
  meanwhile : SameBelow dir fs fs' ∨ copied = true ∧ HasPart h dir (contentOf h fs p script) fs fs'
  /-- It is there with the whole script, and can be read, when a program is told to run it,
      and it still is when the program ends. -/
  running : ∀ call input next, q = .ask (.execute call input) next → copied = true →
    (temporaryFile h).display ∈ call.args ∧ ∃ content, contentOf h fs p script = .ok content ∧
      HasPrivate h dir content fs fs' ∧ fs'.read h.cwd (temporaryFile h) = .ok content ∧
      ∀ bytes performance, h.execute call bytes fs' = .ok performance →
        HasPrivate h dir content fs performance.files

variable {e : Environment} {settings : Settings} {prep : Preparation} {script : Text}
  {copied : Bool} {h : Host} {F : Request → Prop} {I : Request → FileSystem → Prop}
  {dir : Location} {fs fs' fs'' : FileSystem} {s : Store} {source : Script.Source} {r : Request}

/-! ## Section 2: Opening -/

theorem contentOf_of_content (hcontent : prep.content = true) :
    contentOf h fs prep script = .ok (Utf8.encode script) := by
  rw [contentOf, if_pos hcontent]

theorem always_openContent (hslash : Path.slash ∉ h.freshName)
    (hremove : ¬ F (.removeFile (temporaryFile h)))
    (hI : Admits h dir (contentOf h fs prep script) fs I) (hcontent : prep.content = true)
    (cwd : Path) :
    (Script.Source.ofContent cwd script).Always (apart s h F dir) I
      (Opened h dir fs prep script true) (SameBelow dir fs) fs := by
  rw [contentOf_of_content hcontent] at hI
  exact (Script.Source.always_ofContent hslash hremove hI cwd).mono fun source fs' hruns =>
    ⟨Utf8.encode script, contentOf_of_content hcontent, hruns⟩

theorem always_openScript (hslash : Path.slash ∉ h.freshName)
    (hremove : ¬ F (.removeFile (temporaryFile h)))
    (hI : ∀ r fs', r.opens = true → SameBelow dir fs fs' ∨
      prep.content = true ∧ HasPart h dir (contentOf h fs prep script) fs fs' → I r fs') :
    (openScript e prep script).Always (apart s h F dir) I
      (Opened h dir fs prep script prep.content) (SameBelow dir fs) fs := by
  unfold openScript
  split
  · next hcontent =>
    rw [hcontent]
    exact always_openContent hslash hremove
      (fun r fs' hr hholds => hI r fs' hr (hholds.imp_right fun hpart => ⟨hcontent, hpart⟩))
      hcontent e.cwd
  · next hcontent =>
    rw [Bool.eq_false_iff.2 hcontent]
    have hsame : ∀ r, r.opens = true → I r fs := fun r hr => hI r fs hr (.inl (.refl dir fs))
    exact (Script.Source.always_ofPath hsame _ _).mono fun source fs' ⟨hsame, hnone⟩ =>
      ⟨hnone, hsame⟩

theorem always_openCopy (hslash : Path.slash ∉ h.freshName)
    (hremove : ¬ F (.removeFile (temporaryFile h)))
    (hI : Admits h dir (contentOf h fs prep script) fs I) :
    (openCopy e prep script).Always (apart s h F dir) I (Opened h dir fs prep script true)
      (SameBelow dir fs) fs := by
  unfold openCopy
  split
  · next hcontent => exact always_openContent hslash hremove hI hcontent e.cwd
  · next hcontent =>
    have hcopied : contentOf h fs prep script =
        if (Path.ofText script).same (Path.ofText Script.stdinArgument) then .ok h.stdin
        else fs.read h.cwd (Path.ofText script) := by
      rw [contentOf, if_neg hcontent]
    rw [hcopied] at hI
    have hcopy : (Script.Source.copyOf e.cwd (Path.ofText script)).Always (apart s h F dir) I
        (Opened h dir fs prep script true) (SameBelow dir fs) fs :=
      (Script.Source.always_copyOf hslash hremove _ _ hI).mono
        fun source fs' ⟨content, hread, hruns⟩ => ⟨content, hcopied.trans hread, hruns⟩
    dsimp only
    split
    · exact Action.always_throw _ (.refl dir fs)
    · exact hcopy

/-! ## Section 3: Using and closing -/

/-- Using an open script changes nothing in `dir`. -/
theorem Uses.sameBelow (huses : Uses s source r) (helsewhere : s.Elsewhere h.cwd dir fs)
    (hspares : h.Spares dir) {x : r.Answer} (hserved : Served h F fs r x fs') :
    SameBelow dir fs fs' := by
  cases huses with
  | prepares hasks => exact helsewhere.sameBelow hspares hasks hserved
  | executes call input _ =>
    have hrefl : SameBelow dir fs fs := .refl dir fs
    exact hserved.whole hrefl (Machine.files_execute hrefl fun bytes =>
      hspares.execute call bytes fs) nofun nofun

theorem uses_prepare (homes : Homes) (o : Prepare.Options) :
    (prepare homes o s source).Only (Uses s source) :=
  Program.Only.mono (asks_prepare homes o s source) fun _ => .prepares

theorem uses_run (homes : Homes) (o : Prepare.Options) (swift : Path) (args : List Text) :
    Action.Only (Uses s source) (do
      let prepared ← prepare homes o s source
      execute swift prepared args) := by
  -- What is executed names the script, since that is what has been prepared.
  refine (uses_prepare homes o).bind_of_gives (gives_prepare homes o s source)
    fun prepared hscript => ?_
  rw [execute_eq]
  refine (Action.only_ask (.executes _ _ ?_)).bind fun answer =>
    Program.Only.mono (looks_exitCodeOf swift answer) fun _ hlooks => .prepares (.looks hlooks)
  rw [← hscript]
  exact List.mem_append_right _ (List.mem_cons_self ..)

theorem uses_require (call : Call) (hargs : source.argument ∈ call.args) :
    (require call).Only (Uses s source) := by
  refine (Action.only_ask (.executes call .closed hargs)).bind fun answer => ?_
  split
  · exact Action.only_throw _
  · split
    · exact Action.only_throw _
    · split
      · exact Action.only_pure _
      · exact Action.only_throw _
      · exact Action.only_throw _

theorem uses_build (homes : Homes) (o : Prepare.Options) (swift : Path) :
    Action.Only (Uses s source) (do
      let prepared ← prepare homes o s source
      let output := outputOf source
      Action.ask (.log (.compiling output))
      require (buildCall swift prepared output)
      Action.ask (.complain ("✓ Built " ++ output.display))) := by
  refine (uses_prepare homes o).bind_of_gives (gives_prepare homes o s source)
    fun prepared hscript => ?_
  refine (Action.only_ask (.prepares (.looks rfl))).bind fun _ =>
    (uses_require _ ?_).bind fun _ => Action.only_ask (.prepares (.looks rfl))
  rw [← hscript]
  exact List.mem_append_right _ (List.mem_cons_self ..)

theorem Holds.of_same (hholds : Holds h dir fs prep script copied fs')
    (hsame : SameBelow dir fs' fs'') : Holds h dir fs prep script copied fs'' := by
  cases copied with
  | false => exact SameBelow.trans hholds hsame
  | true =>
    obtain ⟨content, hcontent, hprivate⟩ := hholds
    exact ⟨content, hcontent, hprivate.of_same hsame⟩

theorem Holds.part (hholds : Holds h dir fs prep script copied fs') :
    SameBelow dir fs fs' ∨ copied = true ∧ HasPart h dir (contentOf h fs prep script) fs fs' := by
  cases copied with
  | false => exact .inl hholds
  | true =>
    obtain ⟨content, hcontent, hprivate⟩ := hholds
    exact .inr ⟨rfl, content, content, hcontent, List.prefix_refl _, hprivate⟩

theorem Opened.holds (hopened : Opened h dir fs prep script copied source fs') :
    Holds h dir fs prep script copied fs' := by
  cases copied with
  | false => exact hopened.2 ▸ SameBelow.refl dir fs
  | true =>
    obtain ⟨content, hcontent, hruns⟩ := hopened
    exact ⟨content, hcontent, hruns.holds⟩

/-- The private file is the script that a program is told to run. -/
theorem Opened.argument (hopened : Opened h dir fs prep script true source fs') :
    source.argument = (temporaryFile h).display := by
  obtain ⟨content, _, hruns⟩ := hopened
  rw [Script.Source.argument, hruns.runPath]

/-- Whatever an open script is used for, it is there meanwhile. -/
theorem always_use {α : Type} {use : Action α} (hspares : h.Spares dir)
    (huse : use.Only (Uses s source)) (hopened : Opened h dir fs prep script copied source fs') :
    use.Always (apart s h F dir) (Moment h dir fs prep script copied)
      (fun _ => Holds h dir fs prep script copied) (Holds h dir fs prep script copied) fs' := by
  refine huse.always (fun r fs'' huses hholds => ⟨hholds.part, fun call input hr => ?_⟩)
    (fun r fs'' x fs₃ huses hholds ⟨hapart, hserved⟩ =>
      hholds.of_same (huses.sameBelow hapart.elsewhere hspares hserved)) hopened.holds
  refine ⟨hholds, fun hcopied => ?_⟩
  subst hcopied hr
  rw [← hopened.argument]
  cases huses with
  | executes _ _ hargs => exact hargs
  | prepares hasks => exact absurd (isExecute_of_asks hasks) nofun

/-- To close a script leaves nothing behind. -/
theorem always_close (hremove : ¬ F (.removeFile (temporaryFile h)))
    (hopened : Opened h dir fs prep script copied source fs')
    (hholds : Holds h dir fs prep script copied fs'') :
    source.close.Always (apart s h F dir) (Moment h dir fs prep script copied)
      (fun _ => SameBelow dir fs) fs'' := by
  unfold Script.Source.close
  cases copied with
  | false =>
    rw [hopened.1]
    exact hholds
  | true =>
    obtain ⟨_, _, hruns⟩ := hopened
    rw [hruns.temporary]
    have hmoment : Moment h dir fs prep script true (.removeFile (temporaryFile h)) fs'' :=
      ⟨hholds.part, nofun⟩
    obtain ⟨content, _, hprivate⟩ := hholds
    exact hprivate.always_discard hremove hmoment

theorem always_whileOpen {α : Type} {opening : Action Script.Source}
    {use : Script.Source → Action α} (hspares : h.Spares dir)
    (hremove : ¬ F (.removeFile (temporaryFile h)))
    (hopening : opening.Always (apart s h F dir) (Moment h dir fs prep script copied)
      (Opened h dir fs prep script copied) (SameBelow dir fs) fs)
    (huse : ∀ source, (use source).Only (Uses s source)) :
    (Script.Source.whileOpen opening use).Always (apart s h F dir)
      (Moment h dir fs prep script copied) (fun _ => SameBelow dir fs) (SameBelow dir fs) fs := by
  -- To close is the last thing on every way out, and closing undoes what opening has done.
  refine hopening.bind fun source fs' hsource => ?_
  exact (always_use hspares (huse source) hsource).thenAlways fun fs'' hholds =>
    always_close hremove hsource hholds

/-! ## Section 4: The whole -/

theorem moment_of_opens (hr : r.opens = true) (hholds : SameBelow dir fs fs' ∨
      copied = true ∧ HasPart h dir (contentOf h fs prep script) fs fs') :
    Moment h dir fs prep script copied r fs' := by
  refine ⟨hholds, fun call input heq => ?_⟩
  subst heq
  cases hr

theorem always_perform {command : Command} {file : Path} (hslash : Path.slash ∉ h.freshName)
    (hspares : h.Spares dir) (hremove : ¬ F (.removeFile (temporaryFile h)))
    (hcommand : Prepares command prep script copied) :
    (perform e settings file command).Always (apart (store e settings) h F dir)
      (Moment h dir fs prep script copied) (fun _ => SameBelow dir fs) (SameBelow dir fs) fs := by
  cases hcommand with
  | run _ _ args =>
    refine always_whileOpen hspares hremove (always_openScript hslash hremove ?_) fun source =>
      uses_run e.homes _ _ args
    intro r fs' hr hholds
    exact moment_of_opens hr hholds
  | build =>
    refine (always_whileOpen hspares hremove (always_openCopy hslash hremove ?_) fun source =>
      uses_build e.homes _ _).bind fun _ _ hsame => Action.always_pure hsame
    intro r fs' hr hholds
    exact moment_of_opens hr (hholds.imp_right fun hpart => ⟨rfl, hpart⟩)

theorem released_of_end {result : Except Failure Nat}
    (hend : (∀ code, result = .ok code → SameBelow dir fs fs') ∧
      ∀ f, result = .error f → SameBelow dir fs fs') :
    Released h dir fs prep script copied (.done result) fs' := by
  have hsame : SameBelow dir fs fs' := by
    cases result with
    | ok code => exact hend.1 code rfl
    | error f => exact hend.2 f rfl
  exact ⟨fun _ _ => hsame, .inl hsame, nofun⟩

theorem released_of_moment (hspares : h.Spares dir)
    {next : r.Answer → Program (Except Failure Nat)}
    (hmoment : Moment h dir fs prep script copied r fs')
    (hway : fs'.Leads h.cwd h.temporary dir) :
    Released h dir fs prep script copied (.ask r next) fs' := by
  refine ⟨nofun, ?_, fun call input next' hq hcopied => ?_⟩
  · exact hmoment.holds
  · cases hq
    subst hcopied
    obtain ⟨⟨content, hcontent, hprivate⟩, hargs⟩ := hmoment.running call input rfl
    exact ⟨hargs rfl, content, hcontent, hprivate, hprivate.read hway,
      fun bytes performance hexecute => hprivate.of_same (hspares.execute _ _ _ _ hexecute)⟩

theorem Uses.tame (huses : Uses s source r) : r.Tame s := by
  cases huses with
  | executes => trivial
  | prepares hasks =>
    cases hasks with
    | looks hlooks => exact Request.tame_of_looks hlooks
    | linkMarker content target => exact ⟨_, Store.isPlainName_markerName source content, rfl⟩
    | makeEntry _ | writeManifest _ _ | writePlaceholder _ | writeRecord _ _ | capture _
    | makeMarkers | removeMarker _ => trivial

theorem tame_whileOpen {α : Type} {opening : Action Script.Source}
    {use : Script.Source → Action α} (hopening : opening.Only (·.opens = true))
    (huse : ∀ source, (use source).Only (Uses s source)) :
    (Script.Source.whileOpen opening use).Only (Request.Tame s) := by
  refine Action.Only.bind (Program.Only.mono hopening fun _ => Request.tame_of_opens)
    fun source => ?_
  refine Program.Only.bind (Program.Only.mono (huse source) fun _ => Uses.tame) fun result => ?_
  refine Program.Only.bind (source.only_close.mono ?_) fun _ => trivial
  rintro r ⟨file, _, rfl⟩
  trivial

theorem tame_perform {command : Command} (hcommand : Prepares command prep script copied)
    (file : Path) : (perform e settings file command).Only (Request.Tame (store e settings)) := by
  cases hcommand with
  | run _ _ args =>
    exact tame_whileOpen (opens_openScript e _ _) fun source => uses_run e.homes _ _ args
  | build =>
    exact (tame_whileOpen (opens_openCopy e _ _) fun source => uses_build e.homes _ _).bind
      fun _ => Action.only_pure _

/-- A store whose paths are clear is elsewhere at every moment of a command, if programs
    that are started leave them clear. -/
theorem apart_of_clear {command : Command} {file : Path} {top : Location}
    (hclear : IsClear top dir fs) (hbeside : (store e settings).IsBeside h.temporary top dir)
    (hkeeps : h.KeepsClear top dir) (hcommand : Prepares command prep script copied)
    {q : Program (Except Failure Nat)}
    (hreach : (ExceptT.run (perform e settings file command)).Reaches (.faulty h F) fs q fs') :
    (store e settings).Apart h dir fs' := by
  -- Every request that a command makes leaves the paths clear, so they are at each moment.
  have hkept := Program.Only.keeps (S := .faulty h F) (J := IsClear top dir)
    (tame_perform hcommand file) fun r fs x fs' htame hclear hserved =>
      hclear.of_served hbeside hkeeps htame hserved
  exact (hkept.of_reaches hclear hreach).apart hbeside

/-! ## Section 6: A program that is killed -/

/-- The directory for temporary files. -/
def roomTop : Location := [Script.roomName]

/-- Nothing but that directory. -/
def roomFiles : FileSystem := ⟨[(roomTop, .directory)]⟩

/-- A toolchain by which every script is killed. -/
def killedHost : Host :=
  { Scripted.bare 0 [] [] "/t" [] with
    execute := fun _ _ fs => .ok ⟨fs, [], [], { signals := [], ending := .signaled 9 }⟩ }

/-- Settings that put the cache at `/c` and need no package. -/
def idleSettings : Settings := { root := some "/c", skipPackage := true }

def inlineScript : Text := "print(1)".toList

def inlineCommand : Command := .run { content := true } inlineScript []

/-- How the tool runs that script. -/
def inlineRun : Action Nat := perform pipedEnvironment idleSettings "/s" inlineCommand

theorem isBeside_room :
    (store pipedEnvironment idleSettings).IsBeside killedHost.temporary
      [Utf8.encode "c".toList] roomTop where
  root := by decide
  path := by decide
  short := by decide
  notBelow := by decide
  notAbove := by decide

theorem isClear_room : IsClear [Utf8.encode "c".toList] roomTop roomFiles where
  plain := by
    intro loc _ target htarget
    by_cases hroot : loc = []
    · rw [hroot, at?_root] at htarget
      cases htarget
    · have hmem := List.mem_singleton.1 (mem_nodes_of_at? htarget hroot)
      cases (Prod.mk.inj hmem).2
  way := by
    intro loc hloc
    rcases List.prefix_cons_iff.1 hloc with rfl | ⟨rest, rfl, hrest⟩
    · exact at?_root roomFiles
    · rw [List.prefix_nil.1 hrest]
      rfl

theorem spares_killedHost (dir : Location) : killedHost.Spares dir where
  capture := nofun
  execute := by
    intro call input fs performance hexecute
    cases hexecute
    exact .refl dir fs

theorem keepsClear_killedHost (top dir : Location) : killedHost.KeepsClear top dir where
  capture := nofun
  execute := by
    intro call input fs performance hexecute hclear
    cases hexecute
    exact hclear

theorem hasRoom_killedHost : Script.HasRoom killedHost ⟨roomFiles, []⟩ where
  name := by decide
  fits := by decide
  fresh := ⟨roomTop, isClear_room.leads isBeside_room [], by decide⟩

theorem idle_inlineScript :
    ((Script.scan ⟨⟨"/", pipedEnvironment.homes.home?, pipedEnvironment.homes.homeOf?⟩, toolVersion⟩
      (Utf8.encode inlineScript)).dependencies.isEmpty &&
        (prepareOptions { content := true } idleSettings true).skipPackage) = true := by
  decide +kernel

/-- The script is run, and the run ends with the signal. -/
theorem killedHost_runs :
    (∃ call input, .execute call input ∈ inlineRun.requests killedHost ⟨roomFiles, []⟩) ∧
      (inlineRun.run killedHost ⟨roomFiles, []⟩).1 = .ok 137 := by
  obtain ⟨file, m₁, hmake, hread⟩ :=
    hasRoom_killedHost.run_makeTemporary (Utf8.encode inlineScript) 0o400
  let source : Script.Source := ⟨.inlined, some file, none, "/", some file⟩
  have hopen : (openScript pipedEnvironment { content := true } inlineScript).run killedHost
      ⟨roomFiles, []⟩ = (.ok source, m₁) := Action.run_bind_ok hmake
  have hread' : source.read.run killedHost m₁ = (.ok (Utf8.encode inlineScript), m₁) :=
    Script.run_read_of_path rfl hread
  obtain ⟨m', hscan⟩ := Prepare.run_scan_of_read pipedEnvironment.homes hread'
  -- Nothing is declared, so there is nothing to prepare.
  obtain ⟨prepared, m₂, hprepare⟩ : ∃ prepared m₂, (prepare pipedEnvironment.homes
      (prepareOptions { content := true } idleSettings true) (store pipedEnvironment idleSettings)
      source).run killedHost m₁ = (.ok prepared, m₂) := by
    have hresult := Script.result_prepare_idle hscan idle_inlineScript
      (s := store pipedEnvironment idleSettings)
    rcases hrun : (prepare pipedEnvironment.homes _ (store pipedEnvironment idleSettings)
      source).run killedHost m₁ with ⟨f | prepared, m₂⟩
    · rw [hrun] at hresult
      cases hresult
    · exact ⟨prepared, m₂, rfl⟩
  have hreaches : Reaches pipedEnvironment idleSettings { content := true } inlineScript killedHost
      ⟨roomFiles, []⟩ source (Utf8.encode inlineScript) prepared m₁ m₂ :=
    ⟨hopen, ⟨m', hscan⟩, hprepare⟩
  obtain ⟨hresult, hrequests⟩ := run_eq_execute hreaches []
  have hinline : inlineRun =
      run pipedEnvironment idleSettings { content := true } inlineScript [] := rfl
  rw [hinline, hresult, hrequests, run_execute]
  refine ⟨⟨runCall (prepareOptions { content := true } idleSettings true).swift prepared [],
    runInput prepared, ?_⟩, rfl⟩
  refine List.mem_append_right _ (List.mem_append_left _ (List.mem_append_right _
    (List.mem_filter (p := Request.isExecute).1 ?_).1))
  rw [requests_execute]
  exact List.mem_singleton_self _

end Tool
end ScriptDeps
