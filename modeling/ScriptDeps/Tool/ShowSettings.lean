import ScriptDeps.CommandLine.Basic
import ScriptDeps.Settings.File

/-! # Showing and initializing settings -/

namespace ScriptDeps
namespace Tool

open CommandLine (SettingsAction)

/-- Shows the settings that are in effect. -/
def showSettings (s : Settings) : Action PUnit :=
  match s.render with
  | .ok t => Action.ask (.say t)
  | .error e => throw (.settingsUnwritable e.text)

/-- Writes the defaults; a file that is there is only replaced by `force`. -/
def initSettings (file : Path) (force : Bool) : Action PUnit := do
  if (← Action.ask (.isPresent file)) && !force then
    Action.ask (.complain ("! Config already exists at " ++ file.display))
    Action.ask (.complain "  Use --force to overwrite")
  else
    Settings.save file {}
    Action.ask (.complain ("✓ Configuration initialized at " ++ file.display))

/-- Does what is asked about settings. -/
def settings (s : Settings) (file : Path) : Option SettingsAction → Action PUnit
  | none | some .display => showSettings s
  | some .path => Action.ask (.say file.display)
  | some (.init force) => initSettings file force

end Tool
end ScriptDeps
