import ScriptDeps.Path

/-! # Commands

    What the command line can ask for.  An argument is the bytes it is given
    as; where text is expected, other bytes are refused. -/

namespace ScriptDeps
namespace CommandLine

/-- One argument as given. -/
abbrev Argument := Bytes

/-- The argument that a word is. -/
def word (s : String) : Argument := Utf8.encode s.toList

/-- What `run` and `build` say about preparing a script; `none` leaves a
    choice to the settings. -/
structure Preparation where
  /-- The script argument is the content of the script. -/
  content     : Bool := false
  ssh         : Bool := false
  skipPackage : Option Bool := none
  noSandbox   : Option Bool := none
  release     : Option Bool := none
  swift       : Option Path := none
deriving DecidableEq, Repr

/-- Shells that completions can be made for. -/
inductive Shell where
  | bash | elvish | fish | powershell | zsh
deriving DecidableEq, Repr

namespace Shell

def name : Shell → Text
  | bash => "bash".toList
  | elvish => "elvish".toList
  | fish => "fish".toList
  | powershell => "powershell".toList
  | zsh => "zsh".toList

def all : List Shell := [bash, elvish, fish, powershell, zsh]

def ofText? (t : Text) : Option Shell := all.find? fun s => s.name = t

end Shell

inductive SettingsAction where
  | display
  | path
  /-- Write the defaults; `force` replaces a file that is there. -/
  | init (force : Bool)
deriving DecidableEq, Repr

inductive Command where
  | run (p : Preparation) (script : Text) (args : List Text)
  | build (p : Preparation) (script : Text)
  | clean (targets : List Text) (dryRun keepUnused : Bool)
  | settings (action : Option SettingsAction)
  | completions (shell : Shell)
deriving DecidableEq, Repr

/-- A command with the options that go with every command. -/
structure Order where
  verbose  : Nat
  /-- The file of settings that is named. -/
  settings : Option Path
  command  : Command
deriving DecidableEq, Repr

end CommandLine
end ScriptDeps
