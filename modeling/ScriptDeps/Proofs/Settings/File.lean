import ScriptDeps.Proofs.FileSystem.Writing
import ScriptDeps.Proofs.Run
import ScriptDeps.Proofs.Settings.Written
import ScriptDeps.Settings.File
import ScriptDeps.Toolchain.Scripted

/-! # The file of settings there and back

    What is loaded depends on the content of the file alone (`run_load`).
    Settings that can be written are saved wherever there is a place for their
    file (`run_save_ok`); settings that cannot be written are not saved, and
    then every node stays as it is (`run_save_error`). -/

namespace ScriptDeps
namespace Settings

open FileSystem (HasPlace Ready)

variable {s : Settings} {h : Host} {m : Machine} {file : Path} {old : Option Bytes}
  {content : Text}

/-! ## Section 1: Loading -/

/-- The settings that the bytes of a file mean, or why they mean none. -/
def ofBytes (file : Path) (bytes : Bytes) : Except Failure Settings :=
  match Utf8.decode bytes with
  | none => .error (.io ("reading config from " ++ file.display) .notText)
  | some content =>
      match ofText? content with
      | none => .error (.settingsInvalid file "no table of settings".toList)
      | some s => .ok s

theorem run_load (file : Path) (h : Host) (m : Machine) :
    (load file).run h m =
      (match m.files.read h.cwd file with
        | .error .noEntry => .ok {}
        | .error e => .error (.io ("reading config from " ++ file.display) e)
        | .ok bytes => ofBytes file bytes, m) := by
  have hread : (Action.ask (.read file)).run h m = (.ok (m.files.read h.cwd file), m) := rfl
  rw [load, Action.run_bind_ok hread]
  cases hcontent : m.files.read h.cwd file with
  | error e => cases e <;> rfl
  | ok bytes =>
    dsimp only
    unfold ofBytes
    cases Utf8.decode bytes with
    | none => rfl
    | some content =>
      dsimp only
      cases ofText? content <;> rfl

theorem run_load_missing (hread : m.files.read h.cwd file = .error .noEntry) :
    (load file).run h m = (.ok {}, m) := by
  rw [run_load, hread]

/-- From a file with some of the settings those are loaded, and the defaults of
    the others. -/
theorem run_load_of_read {keep : Field → Bool} (hs : s.IsWritable)
    (hrender : s.renderOnly keep = .ok content)
    (hread : m.files.read h.cwd file = .ok (Utf8.encode content)) :
    (load file).run h m = (.ok (s.keeping keep), m) := by
  rw [run_load, hread]
  dsimp only
  rw [ofBytes, Utf8.decode_encode]
  dsimp only
  rw [ofText?_renderOnly hs keep hrender]

/-! ## Section 2: Saving -/

/-- Makes the directory of the file, if its path names one. -/
def prepare (file : Path) : Action PUnit :=
  match directoryOf file with
  | some d => do Action.orFail (← Action.ask (.makeDirectories d)) fun e => .settingsDirectory d e
  | none => pure ()

/-- Writes the text of settings. -/
def put (file : Path) (s : Settings) : Action PUnit :=
  match s.render with
  | .error e => throw (.settingsUnwritable e.text)
  | .ok content => do
      Action.orFail (← Action.ask (.write file (Utf8.encode content))) fun e =>
        .io ("writing config to " ++ file.display) e
      Action.ask (.log (.settingsWritten file))

theorem save_eq (file : Path) (s : Settings) :
    save file s = prepare file >>= fun _ => put file s := by
  unfold save prepare
  cases directoryOf file with
  | none => rfl
  | some d => rfl

/-- Nothing is lost when the directory is made. -/
theorem at?_run_prepare (file : Path) (h : Host) (m : Machine) {loc : Location} {node : Node}
    (hnode : m.files.at? loc = some node) :
    ((prepare file).run h m).2.files.at? loc = some node := by
  unfold prepare
  cases directoryOf file with
  | none => exact hnode
  | some d =>
    dsimp only
    rw [Action.run_bind_ok (Action.run_ask (.makeDirectories d) h m), Machine.respond]
    cases hmake : m.files.makeDirectories h.cwd d with
    | error e => exact hnode
    | ok fs => exact FileSystem.at?_of_makeDirectories hmake loc node hnode

theorem run_prepare_of_made {d : Path} {fs : FileSystem} (hd : directoryOf file = some d)
    (hmake : m.files.makeDirectories h.cwd d = .ok fs) :
    (prepare file).run h m = (.ok (), { m with files := fs }) := by
  have hask : (Action.ask (.makeDirectories d)).run h m =
      (.ok (.ok ()), { m with files := fs }) := by
    rw [Action.run_ask, Machine.respond, hmake]
    rfl
  rw [prepare, hd]
  dsimp only
  rw [Action.run_bind_ok hask]
  rfl

theorem run_put_of_written {fs : FileSystem} (hrender : s.render = .ok content)
    (hwrite : m.files.write h.cwd h.now file (Utf8.encode content) = .ok fs) :
    (put file s).run h m =
      (.ok (), { m with files := fs }.see (.logged (.settingsWritten file))) := by
  have hask : (Action.ask (.write file (Utf8.encode content))).run h m =
      (.ok (.ok ()), { m with files := fs }) := by
    rw [Action.run_ask, Machine.respond, hwrite]
    rfl
  rw [put, hrender]
  dsimp only
  rw [Action.run_bind_ok hask]
  rfl

/-- With its directory made, the file can be written. -/
theorem run_prepare_ok (hplace : HasPlace m.files h.cwd file old) :
    ∃ fs, (prepare file).run h m = (.ok (), { m with files := fs }) ∧
      Ready fs h.cwd file old := by
  obtain ⟨d, hparent, hhere, hmade⟩ := hplace.makeDirectories
  by_cases hempty : d.bytes = []
  · -- The file lies in the current directory, and its path names no other.
    have hnone : directoryOf file = none := by rw [directoryOf, hparent]; simp [hempty]
    rw [prepare, hnone]
    exact ⟨m.files, rfl, hhere hempty⟩
  · have hsome : directoryOf file = some d := by rw [directoryOf, hparent]; simp [hempty]
    obtain ⟨fs, hmake, hready⟩ := hmade hempty
    exact ⟨fs, run_prepare_of_made hsome hmake, hready⟩

/-- Settings that can be written are saved where there is a place for them; if
    there is no file yet, nothing else changes. -/
theorem run_save_ok (hrender : s.render = .ok content) (hplace : HasPlace m.files h.cwd file old) :
    ∃ fs, (save file s).run h m =
        (.ok (), { m with files := fs }.see (.logged (.settingsWritten file))) ∧
      HasPlace fs h.cwd file (some (Utf8.encode content)) ∧
      (old = none → ∀ loc node, m.files.at? loc = some node → fs.at? loc = some node) := by
  obtain ⟨fs, hprepare, hready⟩ := run_prepare_ok hplace
  obtain ⟨fs', hwrite, hwritten, hkept⟩ := hready.write h.now (Utf8.encode content)
  have hprepared : ∀ loc node, m.files.at? loc = some node → fs.at? loc = some node := by
    intro loc node hnode
    have hnode' := at?_run_prepare file h m hnode
    rwa [hprepare] at hnode'
  refine ⟨fs', ?_, .inl hwritten, fun hnone loc node hnode =>
    hkept hnone loc node (hprepared loc node hnode)⟩
  rw [save_eq, Action.run_bind_ok hprepare]
  exact run_put_of_written hrender hwrite

/-- Settings that cannot be written are not saved, and nothing is lost. -/
theorem run_save_error {e : Unwritable} (hrender : s.render = .error e) (file : Path) (h : Host)
    (m : Machine) :
    (∃ f, ((save file s).run h m).1 = .error f) ∧
      ∀ loc node, m.files.at? loc = some node →
        ((save file s).run h m).2.files.at? loc = some node := by
  have hkept : ∀ loc node, m.files.at? loc = some node →
      ((prepare file).run h m).2.files.at? loc = some node := fun _ _ => at?_run_prepare file h m
  have hput : put file s = throw (.settingsUnwritable e.text) := by rw [put, hrender]
  rw [save_eq, hput]
  rcases hprepare : (prepare file).run h m with ⟨f | _, m'⟩
  · rw [hprepare] at hkept
    rw [Action.run_bind_error hprepare]
    exact ⟨⟨f, rfl⟩, hkept⟩
  · rw [hprepare] at hkept
    rw [Action.run_bind_ok hprepare]
    exact ⟨⟨_, rfl⟩, hkept⟩

/-! ## Section 3: There and back -/

/-- Settings that can be written are saved as a document with a line for each
    of them and loaded as they were saved; the settings whose lines are taken
    out of the document have their defaults.  Other settings are not saved,
    and what has been read is then still read. -/
theorem saved_and_loaded (s : Settings) (h : Host) (m : Machine) (file : Path) :
    (s.IsWritable → ∃ lines : Field → Text, (∀ f, s.line f = .ok (lines f)) ∧
      ((∃ old, HasPlace m.files h.cwd file old) → ∃ m', (save file s).run h m = (.ok (), m') ∧
        m'.files.read h.cwd file = .ok (Utf8.encode (document lines)) ∧
        ∀ h', h'.cwd = h.cwd → (load file).run h' m' = (.ok s, m')) ∧
      ∀ (keep : Field → Bool) (m' : Machine), m'.files.read h.cwd file =
          .ok (Utf8.encode (document fun f => if keep f then lines f else [])) →
        (load file).run h m' = (.ok (s.keeping keep), m')) ∧
    (¬ s.IsWritable → ∃ f, ((save file s).run h m).1 = .error f) ∧
    ∀ e, s.render = .error e → ∀ p bytes, m.files.read h.cwd p = .ok bytes →
      ((save file s).run h m).2.files.read h.cwd p = .ok bytes := by
  refine ⟨fun hs => ?_, fun hs => ?_, fun e hrender p bytes hread => ?_⟩
  · have hlines := s.line_of_isWritable hs
    have hrender := fun keep => renderOnly_eq_document hlines keep
    refine ⟨_, hlines, ?_, fun keep m' hread => run_load_of_read hs (hrender keep) hread⟩
    rintro ⟨old, hplace⟩
    obtain ⟨fs, hsave, hwritten, _⟩ := run_save_ok (hrender fun _ => true) hplace
    refine ⟨_, hsave, hwritten.read, fun h' hcwd => ?_⟩
    rw [← hcwd] at hwritten
    exact run_load_of_read hs (hrender fun _ => true) hwritten.read
  · cases hrender : s.render with
    | ok content => exact absurd (render_ok_iff.1 ⟨content, hrender⟩) hs
    | error e => exact (run_save_error hrender file h m).1
  · exact FileSystem.read_of_kept (run_save_error hrender file h m).2 hread

/-- A home directory with nothing in it. -/
def homeFiles : FileSystem := ⟨[([Utf8.encode "home".toList], .directory)]⟩

def homeFile : Path := "/home/.config/swift-sh/config.toml"

def homeHost : Host := Scripted.bare 0 [] [] "/t" []

/-- The directories for the file can be made. -/
theorem hasPlace_homeFile : HasPlace homeFiles [] homeFile none := by
  refine .inr ⟨rfl, [.root], FileSystem.linkLimit, [], ["home", ".config", "swift-sh"].map fun n =>
    Utf8.encode n.toList, Utf8.encode "config.toml".toList, ?_⟩
  exact ⟨by decide, by decide +kernel, by decide +kernel, .root [] (.nil _ _), rfl,
    ⟨.inr (by decide), .inl (by decide), .inl (by decide), trivial⟩, by decide⟩

/-- Settings with a value of more than one line, and the largest number. -/
def quotedSettings : Settings :=
  { logFormat := "a\"b'\n\\".toList, root := some "/c", stalenessHours := Nat.pow 2 63 - 1 }

theorem saved_and_loaded_quoted :
    HasPlace homeFiles homeHost.cwd homeFile none ∧ quotedSettings.IsWritable ∧
    ∃ m', (save homeFile quotedSettings).run homeHost ⟨homeFiles, []⟩ = (.ok (), m') ∧
      (load homeFile).run homeHost m' = (.ok quotedSettings, m') := by
  have hs : quotedSettings.IsWritable := by
    refine ⟨⟨_, Utf8.decode_encode _⟩, fun p hp => ⟨"/c".toList, ?_⟩, Nat.lt_succ_self _⟩
    obtain rfl := Option.some.inj hp
    exact Utf8.decode_encode _
  refine ⟨hasPlace_homeFile, hs, ?_⟩
  obtain ⟨lines, _, hsaved, _⟩ :=
    (saved_and_loaded quotedSettings homeHost ⟨homeFiles, []⟩ homeFile).1 hs
  obtain ⟨m', hsave, _, hload⟩ := hsaved ⟨none, hasPlace_homeFile⟩
  exact ⟨m', hsave, hload homeHost rfl⟩

end Settings
end ScriptDeps
