import ScriptDeps.Program
import ScriptDeps.Settings.Written

/-! # The file of settings

    Settings are loaded from a file and saved to it.  A missing file means
    the defaults. -/

namespace ScriptDeps
namespace Settings

/-- The file to use: the one named, or else the user's. -/
def locate (p : Places) (named : Option Path) : Path := named.getD p.settingsFile

/-- Reads the settings in a file. -/
def load (file : Path) : Action Settings := do
  match ← Action.ask (.read file) with
  | .error .noEntry => return {}
  | .error e => throw (.io ("reading config from " ++ file.display) e)
  | .ok bytes =>
      match Utf8.decode bytes with
      | none => throw (.io ("reading config from " ++ file.display) .notText)
      | some content =>
          match ofText? content with
          | none => throw (.settingsInvalid file "no table of settings".toList)
          | some s => return s

/-- The directory of a file, if its path names one. -/
def directoryOf (file : Path) : Option Path :=
  file.parent?.filter fun d => !d.bytes.isEmpty

/-- Writes settings to a file, whose directory is made if it is missing. -/
def save (file : Path) (s : Settings) : Action PUnit := do
  if let some d := directoryOf file then
    Action.orFail (← Action.ask (.makeDirectories d)) fun e => .settingsDirectory d e
  match s.render with
  | .error e => throw (.settingsUnwritable e.text)
  | .ok content =>
      Action.orFail (← Action.ask (.write file (Utf8.encode content))) fun e =>
        .io ("writing config to " ++ file.display) e
      Action.ask (.log (.settingsWritten file))

end Settings
end ScriptDeps
