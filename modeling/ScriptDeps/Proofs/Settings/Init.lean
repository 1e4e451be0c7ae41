import ScriptDeps.Proofs.CommandLine.Reading
import ScriptDeps.Proofs.Session
import ScriptDeps.Proofs.Settings.File

/-! # Initializing settings

    To initialize settings is to save the defaults.  The command is done only
    if settings have been loaded, and so `--force` replaces a file exactly if
    the file can be loaded (`init_forces_iff`): it is refused by a file that it
    could repair.  Without `--force` a file that is there stays as it is. -/

namespace ScriptDeps

open FileSystem (HasPlace)

/-! ## Section 1: The defaults -/

/-- The file is there and holds the defaults as they are written, and the
    defaults are what is loaded from it. -/
structure Settings.HoldsDefaults (fs : FileSystem) (h : Host) (file : Path) : Prop where
  written : ∃ content, ({} : Settings).render = .ok content ∧
    fs.read h.cwd file = .ok (Utf8.encode content)
  loaded  : ∀ m, m.files = fs → (load file).run h m = (.ok {}, m)

/-- The defaults are saved where there is a place for them; if there is no file
    yet, nothing else changes. -/
theorem Settings.run_save_default {h : Host} {m : Machine} {file : Path} {old : Option Bytes}
    (hplace : HasPlace m.files h.cwd file old) :
    ((save file {}).run h m).1 = .ok () ∧
      HoldsDefaults ((save file {}).run h m).2.files h file ∧
      (old = none → ∀ loc node, m.files.at? loc = some node →
        ((save file {}).run h m).2.files.at? loc = some node) := by
  obtain ⟨content, hrender⟩ := render_ok_iff.2 isWritable_default
  obtain ⟨fs, hsave, hwritten, hkept⟩ := run_save_ok hrender hplace
  rw [hsave]
  refine ⟨rfl, ⟨⟨content, hrender, hwritten.read⟩, ?_⟩, hkept⟩
  intro m' hfiles
  obtain rfl : m'.files = fs := hfiles
  exact run_load_of_read isWritable_default hrender hwritten.read

namespace Tool

open CommandLine (Argument Order readNormal eq_ok_of_toOption)
open Settings (load locate HoldsDefaults)

variable {e : Environment} {args : List Argument} {o : Order} {h : Host} {m m' : Machine}
  {file : Path} {old : Option Bytes} {force : Bool}

/-! ## Section 2: The command -/

/-- Without `--force` a file that is there stays, with all others. -/
theorem run_initSettings_present (hpresent : m.files.isPresent h.cwd file = true) :
    ((initSettings file false).run h m).1 = .ok () ∧
      ((initSettings file false).run h m).2.files = m.files := by
  have hask : (Action.ask (.isPresent file)).run h m = (.ok true, m) := by
    rw [Action.run_ask, Machine.respond, hpresent]
  rw [initSettings, Action.run_bind_ok hask]
  exact ⟨rfl, rfl⟩

/-- Otherwise the defaults are saved. -/
theorem run_initSettings_saves (hsave : force = true ∨ m.files.isPresent h.cwd file = false)
    (hok : ((Settings.save file {}).run h m).1 = .ok ()) :
    ((initSettings file force).run h m).1 = .ok () ∧
      ((initSettings file force).run h m).2.files =
        ((Settings.save file {}).run h m).2.files := by
  have hask : (Action.ask (.isPresent file)).run h m = (.ok (m.files.isPresent h.cwd file), m) :=
    rfl
  have hcond : (m.files.isPresent h.cwd file && !force) = false := by
    rcases hsave with rfl | hnone
    · exact Bool.and_false _
    · rw [hnone, Bool.false_and]
  have hrun : (Settings.save file {}).run h m =
      (.ok (), ((Settings.save file {}).run h m).2) := Prod.ext hok rfl
  rw [initSettings, Action.run_bind_ok hask, if_neg (by simp [hcond]), Action.run_bind_ok hrun]
  exact ⟨rfl, rfl⟩

theorem run_perform_init (e : Environment) (s : Settings) (file : Path) (force : Bool) (h : Host)
    (m : Machine) (hok : ((initSettings file force).run h m).1 = .ok ()) :
    ((perform e s file (.settings (some (.init force)))).run h m).1 = .ok 0 ∧
      ((perform e s file (.settings (some (.init force)))).run h m).2.files =
        ((initSettings file force).run h m).2.files := by
  have hrun : (initSettings file force).run h m =
      (.ok (), ((initSettings file force).run h m).2) := Prod.ext hok rfl
  have hperform : perform e s file (.settings (some (.init force))) =
      initSettings file force >>= fun _ => pure 0 := rfl
  rw [hperform, Action.run_bind_ok hrun]
  exact ⟨rfl, rfl⟩

/-- Settings that cannot be loaded end a use of the tool with one of two codes. -/
theorem exitCode_of_load {f : Failure} (hload : ((load file).run h m).1 = .error f) :
    f.exitCode = 4 ∨ f.exitCode = 5 := by
  rw [Settings.run_load] at hload
  dsimp only at hload
  split at hload
  · cases hload
  · cases hload
    exact .inl rfl
  · unfold Settings.ofBytes at hload
    split at hload
    · cases hload
      exact .inl rfl
    · split at hload
      · cases hload
        exact .inr rfl
      · cases hload

/-- Once settings are loaded, the defaults are saved by force or if there is no
    file yet. -/
theorem run_session_init {s : Settings} (hread : readNormal e.settings? args = .ok o)
    (hcommand : o.command = .settings (some (.init force)))
    (hload : (load (locate e.places o.settings)).run h m = (.ok s, m))
    (hplace : HasPlace m.files h.cwd (locate e.places o.settings) old)
    (hsave : force = true ∨ old = none) :
    ((session e args).run h m).1 = 0 ∧ ((session e args).run h m).2.files =
      ((Settings.save (locate e.places o.settings) {}).run h m).2.files := by
  have hpresent : force = true ∨ m.files.isPresent h.cwd (locate e.places o.settings) = false := by
    refine hsave.imp_right fun hnone => ?_
    rw [hplace.isPresent, hnone]
    rfl
  obtain ⟨hok, hsaved⟩ := run_initSettings_saves hpresent (Settings.run_save_default hplace).1
  obtain ⟨hcode, hdone⟩ := run_perform_init e s (locate e.places o.settings) force h m hok
  obtain ⟨hexit, hfiles⟩ := run_session_ok hread (by rw [hcommand]; exact nofun) hload
  rw [hcommand] at hexit hfiles
  exact ⟨hexit.trans (congrArg outcomeCode hcode), hfiles.trans (hdone.trans hsaved)⟩

/-- Where there is a place for the file, by force or with no file yet one is
    left that holds the defaults exactly if settings could be loaded before; if
    they could not, no file changes.  Without `--force` every node stays as it
    is, and if there is a file nothing changes. -/
theorem init_forces_iff (hread : readNormal e.settings? args = .ok o)
    (hcommand : o.command = .settings (some (.init force)))
    (hfile : locate e.places o.settings = file) (hplace : HasPlace m.files h.cwd file old) :
    (force = true ∨ old = none →
      ((((session e args).run h m).1 = 0 ∧
        HoldsDefaults ((session e args).run h m).2.files h file) ↔
          ∃ s, ((load file).run h m).1 = .ok s)) ∧
    (∀ f, ((load file).run h m).1 = .error f →
      (((session e args).run h m).1 = 4 ∨ ((session e args).run h m).1 = 5) ∧
        ((session e args).run h m).2.files = m.files) ∧
    (force = false →
      (∀ loc node, m.files.at? loc = some node →
        ((session e args).run h m).2.files.at? loc = some node) ∧
      (old ≠ none → ((session e args).run h m).2.files = m.files)) := by
  subst hfile
  have hother : ∀ shell, o.command ≠ .completions shell := by rw [hcommand]; exact nofun
  cases hresult : ((load (locate e.places o.settings)).run h m).1 with
  | error f =>
    -- The command is not done, whatever it is.
    have hload : (load (locate e.places o.settings)).run h m = (.error f, m) :=
      Prod.ext hresult (by rw [Settings.run_load])
    obtain ⟨hexit, hfiles⟩ := run_session_error hread hother hload
    have hcode := exitCode_of_load hresult
    rw [← hexit] at hcode
    refine ⟨fun _ => ⟨fun hdone => ?_, fun hok => ?_⟩, fun _ _ => ⟨hcode, hfiles⟩,
      fun _ => ⟨fun loc node hnode => hfiles ▸ hnode, fun _ => hfiles⟩⟩
    · rcases hcode with hcode | hcode <;> rw [hdone.1] at hcode <;> cases hcode
    · obtain ⟨s, hs⟩ := hok
      cases hs
  | ok s =>
    have hload : (load (locate e.places o.settings)).run h m = (.ok s, m) :=
      Prod.ext hresult (by rw [Settings.run_load])
    obtain ⟨_, hholds, hkept⟩ := Settings.run_save_default hplace
    refine ⟨fun hsave => ⟨fun _ => ⟨s, rfl⟩, fun _ => ?_⟩, nofun, fun hforce => ?_⟩
    · obtain ⟨hexit, hfiles⟩ := run_session_init hread hcommand hload hplace hsave
      rw [hfiles]
      exact ⟨hexit, hholds⟩
    · subst hforce
      cases old with
      | none =>
        obtain ⟨_, hfiles⟩ := run_session_init hread hcommand hload hplace (.inr rfl)
        exact ⟨fun loc node hnode => hfiles ▸ hkept rfl loc node hnode, fun hne => absurd rfl hne⟩
      | some bytes =>
        obtain ⟨hok, hstay⟩ := run_initSettings_present hplace.isPresent
        obtain ⟨_, hdone⟩ := run_perform_init e s (locate e.places o.settings) false h m hok
        obtain ⟨_, hfiles⟩ := run_session_ok hread hother hload
        rw [hcommand] at hfiles
        have hsame := hfiles.trans (hdone.trans hstay)
        exact ⟨fun loc node hnode => hsame ▸ hnode, fun _ => hsame⟩

/-! ## Section 3: A home directory -/

def homeEnvironment : Environment := ⟨⟨some "/home", none, none⟩, fun _ => none, none, none, "/"⟩

def homeNames : List Name := ["home", ".config", "swift-sh"].map fun n => Utf8.encode n.toList

/-- A home directory with a file of settings. -/
def homeWith (content : Bytes) : FileSystem :=
  ⟨[(homeNames ++ [Utf8.encode "config.toml".toList], .file content 0 FileSystem.plainMode),
    (homeNames, .directory), (homeNames.take 2, .directory), (homeNames.take 1, .directory)]⟩

theorem hasPlace_homeWith (content : Bytes) :
    HasPlace (homeWith content) [] Settings.homeFile (some content) := by
  have hshort : ∀ n ∈ homeNames, n.length ≤ FileSystem.nameLimit := by decide +kernel
  have hdirs : FileSystem.DirectoriesAlong (homeWith content) [] homeNames :=
    ⟨by rfl, by rfl, by rfl, trivial⟩
  have hroute := FileSystem.route_names FileSystem.linkLimit hshort hdirs
  exact .inl (FileSystem.ready_of_route (n := Utf8.encode "config.toml".toList) (by decide +kernel)
    (by decide +kernel) (.root [] hroute) (by rfl) (by decide +kernel) (by rfl))

/-- The arguments of `config init --force`. -/
def forceArguments : List Argument := ["swift-sh", "config", "init", "--force"].map CommandLine.word

theorem readNormal_forceArguments :
    readNormal homeEnvironment.settings? forceArguments =
      .ok ⟨0, none, .settings (some (.init true))⟩ :=
  eq_ok_of_toOption (by decide +kernel)

theorem locate_homeEnvironment : locate homeEnvironment.places none = Settings.homeFile := by
  decide

/-- A file with one setting. -/
def oneSetting : Bytes := Utf8.encode "[cache]\nstaleness_hours = 1\n".toList

/-- A file with settings is replaced, and where there is none one is made. -/
theorem init_forces_iff_one :
    (HasPlace (homeWith oneSetting) Settings.homeHost.cwd Settings.homeFile (some oneSetting) ∧
      ((load Settings.homeFile).run Settings.homeHost ⟨homeWith oneSetting, []⟩).1 =
        .ok { stalenessHours := 1 } ∧
      HoldsDefaults ((session homeEnvironment forceArguments).run Settings.homeHost
        ⟨homeWith oneSetting, []⟩).2.files Settings.homeHost Settings.homeFile) ∧
    HasPlace Settings.homeFiles Settings.homeHost.cwd Settings.homeFile none ∧
    ((load Settings.homeFile).run Settings.homeHost ⟨Settings.homeFiles, []⟩).1 = .ok {} ∧
    HoldsDefaults ((session homeEnvironment forceArguments).run Settings.homeHost
      ⟨Settings.homeFiles, []⟩).2.files Settings.homeHost Settings.homeFile := by
  have hplace : HasPlace (homeWith oneSetting) Settings.homeHost.cwd Settings.homeFile
      (some oneSetting) := hasPlace_homeWith oneSetting
  have hload : ((load Settings.homeFile).run Settings.homeHost ⟨homeWith oneSetting, []⟩).1 =
      .ok { stalenessHours := 1 } := by
    rw [Settings.run_load, hplace.read]
    exact eq_ok_of_toOption (by decide +kernel)
  have hempty : HasPlace Settings.homeFiles Settings.homeHost.cwd Settings.homeFile none :=
    Settings.hasPlace_homeFile
  have hmissing : ((load Settings.homeFile).run Settings.homeHost ⟨Settings.homeFiles, []⟩).1 =
      .ok {} :=
    congrArg Prod.fst (Settings.run_load_missing hempty.read)
  obtain ⟨hreplaced, _⟩ := init_forces_iff (m := ⟨homeWith oneSetting, []⟩)
    readNormal_forceArguments rfl locate_homeEnvironment hplace
  obtain ⟨hmade, _⟩ := init_forces_iff (m := ⟨Settings.homeFiles, []⟩)
    readNormal_forceArguments rfl locate_homeEnvironment hempty
  exact ⟨⟨hplace, hload, ((hreplaced (.inl rfl)).2 ⟨_, hload⟩).2⟩, hempty, hmissing,
    ((hmade (.inl rfl)).2 ⟨_, hmissing⟩).2⟩

/-- A table without its closing bracket. -/
def brokenTable : Bytes := Utf8.encode "[cache\n".toList

theorem run_load_brokenTable :
    (load Settings.homeFile).run Settings.homeHost ⟨homeWith brokenTable, []⟩ =
      (.error (.settingsInvalid Settings.homeFile "no table of settings".toList),
        ⟨homeWith brokenTable, []⟩) := by
  have hplace : HasPlace (homeWith brokenTable) Settings.homeHost.cwd Settings.homeFile
      (some brokenTable) := hasPlace_homeWith brokenTable
  have hbroken : Settings.ofText? "[cache\n".toList = none := by decide +kernel
  rw [Settings.run_load, hplace.read]
  show (Settings.ofBytes _ (Utf8.encode _), _) = _
  rw [Settings.ofBytes, Utf8.decode_encode]
  dsimp only
  rw [hbroken]

/-! ## Section 4: A path past a missing directory -/

def aName : Name := Utf8.encode "a".toList

def bName : Name := Utf8.encode "b".toList

/-- A file `/b` at the root. -/
def rootWith (content : Bytes) : FileSystem := ⟨[([bName], .file content 0 FileSystem.plainMode)]⟩

/-- The same with a directory `/a`. -/
def rootWithDirectory (content : Bytes) : FileSystem := (rootWith content).put [aName] .directory

/-- The path that leads to `/b` once `/a` is made. -/
def pastPath : Path := "/a/../b"

theorem steps_pastPath : pastPath.steps = [.root, .name aName, .up, .name bName] := by decide

theorem steps_upPath : Path.steps "/a/.." = [.root, .name aName, .up] := by decide

theorem find_pastPath (content : Bytes) (last : Bool) :
    (rootWith content).find [] last pastPath = .error .noEntry := by
  rw [FileSystem.find_eq_walk (by decide), steps_pastPath, FileSystem.walk,
    FileSystem.walk_name _ _ _ _ (by decide)]
  rfl

theorem find_pastPath_made (content : Bytes) (last : Bool) :
    (rootWithDirectory content).find [] last pastPath =
      .ok (.node [bName] (.file content 0 FileSystem.plainMode)) := by
  rw [FileSystem.find_eq_walk (by decide), steps_pastPath, FileSystem.walk,
    FileSystem.walk_name _ _ _ _ (by decide)]
  show FileSystem.walk _ _ _ _ _ = _
  rw [FileSystem.walk, FileSystem.walk_name _ _ _ _ (by decide)]
  rfl

/-- To make the directory `/a/..` is to make `/a`. -/
theorem makeDirectories_upPath (content : Bytes) :
    (rootWith content).makeDirectories [] "/a/.." = .ok (rootWithDirectory content) := by
  -- The path leads nowhere before `/a` is there, and back to the root afterwards.
  have hup : (rootWith content).makeDirectory [] "/a/.." = .error .noEntry := by
    rw [FileSystem.makeDirectory, FileSystem.find_eq_walk (by decide), steps_upPath,
      FileSystem.walk, FileSystem.walk_name _ _ _ _ (by decide)]
    rfl
  have hdown : (rootWith content).makeDirectory [] "/a" = .ok (rootWithDirectory content) := by
    rw [FileSystem.makeDirectory, FileSystem.find_eq_walk (by decide),
      show Path.steps "/a" = [.root, .name aName] by decide, FileSystem.walk,
      FileSystem.walk_name _ _ _ _ (by decide)]
    rfl
  have hroot : ∀ last, (rootWithDirectory content).find [] last "/a/.." =
      .ok (.node [] .directory) := by
    intro last
    rw [FileSystem.find_eq_walk (by decide), steps_upPath, FileSystem.walk,
      FileSystem.walk_name _ _ _ _ (by decide)]
    show FileSystem.walk _ _ _ _ _ = _
    rw [FileSystem.walk, FileSystem.walk]
    rfl
  have hthere : (rootWithDirectory content).isDirectory [] "/a/.." = true := by
    rw [FileSystem.isDirectory, FileSystem.findNode, hroot]
    rfl
  have hparents : (rootWith content).makeDirectoriesWithin [] 5 "/a" =
      .ok (rootWithDirectory content) := by
    rw [FileSystem.makeDirectoriesWithin, if_neg (by decide), hdown]
  have hagain : (rootWithDirectory content).ensureDirectory [] "/a/.." =
      .ok (rootWithDirectory content) := by
    rw [FileSystem.ensureDirectory, FileSystem.makeDirectory, hroot]
    exact if_pos hthere
  have hparent : Path.parent? "/a/.." = some ("/a" : Path) := by decide
  show FileSystem.makeDirectoriesWithin _ _ 6 _ = _
  rw [FileSystem.makeDirectoriesWithin, if_neg (by decide), hup]
  dsimp only
  rw [hparent]
  dsimp only
  rw [hparents]
  exact hagain

/-- The arguments of `--config /a/../b config init`. -/
def pastArguments : List Argument :=
  ["swift-sh", "--config", "/a/../b", "config", "init"].map CommandLine.word

/-- Settings initialized past a missing directory go over the file that is found
    once it is made. -/
theorem files_session_past (content : Bytes) :
    ∃ defaults, ({} : Settings).render = .ok defaults ∧
      ((session homeEnvironment pastArguments).run Settings.homeHost
          ⟨rootWith content, []⟩).2.files =
        (rootWithDirectory content).put [bName]
          (.file (Utf8.encode defaults) 0 FileSystem.plainMode) := by
  obtain ⟨defaults, hrender⟩ := Settings.render_ok_iff.2 Settings.isWritable_default
  refine ⟨defaults, hrender, ?_⟩
  have hread : readNormal homeEnvironment.settings? pastArguments =
      .ok ⟨0, some pastPath, .settings (some (.init false))⟩ :=
    eq_ok_of_toOption (by decide +kernel)
  have hload : (load pastPath).run Settings.homeHost ⟨rootWith content, []⟩ =
      (.ok {}, ⟨rootWith content, []⟩) := by
    apply Settings.run_load_missing
    show (rootWith content).read [] pastPath = _
    rw [FileSystem.read, FileSystem.findNode, find_pastPath]
  have habsent : (rootWith content).isPresent [] pastPath = false := by
    rw [FileSystem.isPresent, FileSystem.findNode, find_pastPath]
    rfl
  have hprepare : (Settings.prepare pastPath).run Settings.homeHost ⟨rootWith content, []⟩ =
      (.ok (), ⟨rootWithDirectory content, []⟩) :=
    Settings.run_prepare_of_made (by decide) (makeDirectories_upPath content)
  have hwrite : (rootWithDirectory content).write [] 0 pastPath (Utf8.encode defaults) =
      .ok ((rootWithDirectory content).put [bName]
        (.file (Utf8.encode defaults) 0 FileSystem.plainMode)) := by
    rw [FileSystem.write, find_pastPath_made]
  have hput := Settings.run_put_of_written (h := Settings.homeHost)
    (m := ⟨rootWithDirectory content, []⟩) hrender hwrite
  have hsave := (congrArg (fun a => Action.run a Settings.homeHost ⟨rootWith content, []⟩)
    (Settings.save_eq pastPath {})).trans ((Action.run_bind_ok hprepare).trans hput)
  have hcase : false = true ∨ (rootWith content).isPresent [] pastPath = false := .inr habsent
  obtain ⟨hok, hsaved⟩ := run_initSettings_saves (h := Settings.homeHost)
    (m := ⟨rootWith content, []⟩) hcase (congrArg Prod.fst hsave)
  obtain ⟨_, hdone⟩ := run_perform_init homeEnvironment {} pastPath false _ _ hok
  obtain ⟨_, hfiles⟩ := run_session_ok hread (fun _ heq => by cases heq) hload
  rw [hfiles.trans (hdone.trans hsaved), hsave]
  rfl

/-! ## Section 5: What fails -/

/-- A broken file is not replaced by force.  And without force a file is
    overwritten, if it is only found once the directory of its path is made. -/
theorem init_refused_and_overwriting :
    (HasPlace (homeWith brokenTable) Settings.homeHost.cwd Settings.homeFile (some brokenTable) ∧
      ((session homeEnvironment forceArguments).run Settings.homeHost
        ⟨homeWith brokenTable, []⟩).1 = 5 ∧
      ((session homeEnvironment forceArguments).run Settings.homeHost
        ⟨homeWith brokenTable, []⟩).2.files = homeWith brokenTable) ∧
    (rootWith oneSetting).at? [bName] = some (.file oneSetting 0 FileSystem.plainMode) ∧
    ((session homeEnvironment pastArguments).run Settings.homeHost
      ⟨rootWith oneSetting, []⟩).2.files.at? [bName] ≠
        some (.file oneSetting 0 FileSystem.plainMode) := by
  obtain ⟨hexit, hfiles⟩ := run_session_error readNormal_forceArguments
    (fun _ heq => by cases heq) run_load_brokenTable
  refine ⟨⟨hasPlace_homeWith brokenTable, hexit, hfiles⟩, rfl, ?_⟩
  obtain ⟨defaults, hrender, hafter⟩ := files_session_past oneSetting
  rw [hafter, FileSystem.at?_put_self _ _ (by simp)]
  -- The file holds the defaults afterwards, and they are other settings than before.
  intro hsame
  have hbytes : Utf8.encode defaults = oneSetting := (Node.file.inj (Option.some.inj hsame)).1
  have htext := Settings.ofText?_renderOnly Settings.isWritable_default (fun _ => true) hrender
  have hother : Settings.ofText? "[cache]\nstaleness_hours = 1\n".toList =
      some { stalenessHours := 1 } := by decide +kernel
  rw [Utf8.encode_injective hbytes, hother] at htext
  exact absurd (congrArg Settings.stalenessHours (Option.some.inj htext)) (by decide)

end Tool
end ScriptDeps
