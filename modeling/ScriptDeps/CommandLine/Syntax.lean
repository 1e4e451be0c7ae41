import ScriptDeps.CommandLine.Basic

/-! # What each command takes

    The commands form a tree.  For each of them this says which options it
    takes, which commands stand below it, and what its operands are. -/

namespace ScriptDeps
namespace CommandLine

/-! ## Section 1: Commands -/

/-- A place in the tree of commands. -/
inductive Level where
  | top | run | build | clean | settings | settingsShow | settingsPath | settingsInit | completions
deriving DecidableEq, Repr

/-- What a word names that can stand in place of a command. -/
inductive Naming where
  | help
  | level (l : Level)
deriving DecidableEq, Repr

namespace Level

/-- The names of the commands down to this one. -/
def path : Level → List Text
  | top => []
  | run => ["run".toList]
  | build => ["build".toList]
  | clean => ["clean".toList]
  | settings => ["config".toList]
  | settingsShow => ["config".toList, "show".toList]
  | settingsPath => ["config".toList, "path".toList]
  | settingsInit => ["config".toList, "init".toList]
  | completions => ["completions".toList]

/-- The commands below this one. -/
def below : Level → List (Argument × Naming)
  | top =>
      [(word "run", .level run), (word "build", .level build), (word "clean", .level clean),
       (word "config", .level settings), (word "completions", .level completions),
       (word "help", .help)]
  | settings =>
      [(word "show", .level settingsShow), (word "path", .level settingsPath),
       (word "init", .level settingsInit), (word "help", .help)]
  | _ => []

/-- The command below this one that an argument names. -/
def command? (l : Level) (a : Argument) : Option Naming := l.below.lookup a

end Level

/-! ## Section 2: Options -/

/-- Options that are on or absent. -/
inductive Flag where
  | content | ssh
  | skipPackage (yes : Bool)
  | noSandbox (yes : Bool)
  | release (yes : Bool)
  | dryRun | keepUnused | force
deriving DecidableEq, Repr

/-- The flag that `f` takes back, if there is one. -/
def Flag.opposite? : Flag → Option Flag
  | skipPackage b => some (skipPackage !b)
  | noSandbox b => some (noSandbox !b)
  | release b => some (release !b)
  | _ => none

/-- Options that take a value. -/
inductive Setting where
  | settings | swift
deriving DecidableEq, Repr

inductive Choice where
  | help
  | version
  | verbose
  | flag (f : Flag)
  | setting (s : Setting)
deriving DecidableEq, Repr

/-- The long options of every command. -/
def commonNames : List (Text × Choice) :=
  [("help".toList, .help), ("version".toList, .version), ("verbose".toList, .verbose),
   ("config".toList, .setting .settings)]

/-- The long options of the commands that prepare a script. -/
def preparationNames : List (Text × Choice) :=
  [("script-is-content".toList, .flag .content),
   ("use-ssh-for-github-dependencies".toList, .flag .ssh),
   ("skip-package-on-no-remote-modules".toList, .flag (.skipPackage true)),
   ("no-skip-package-on-no-remote-modules".toList, .flag (.skipPackage false)),
   ("disable-sandbox-for-package-resolution".toList, .flag (.noSandbox true)),
   ("no-disable-sandbox-for-package-resolution".toList, .flag (.noSandbox false)),
   ("build-dependencies-in-release-mode".toList, .flag (.release true)),
   ("no-build-dependencies-in-release-mode".toList, .flag (.release false)),
   ("swift-path".toList, .setting .swift)]

namespace Level

/-- The long options of a command, apart from the common ones. -/
def ownNames : Level → List (Text × Choice)
  | run | build => preparationNames
  | clean =>
      [("no-end-by-cleaning-unused".toList, .flag .keepUnused), ("dry-run".toList, .flag .dryRun)]
  | settingsInit => [("force".toList, .flag .force)]
  | _ => []

/-- The option with a long name. -/
def long? (l : Level) (name : Text) : Option Choice := (commonNames ++ l.ownNames).lookup name

/-- The option with a short name. -/
def short? (l : Level) (c : Char) : Option Choice :=
  if c = 'h' then some .help
  else if c = 'V' then some .version
  else if c = 'v' then some .verbose
  else if c = 'c' && (l = run || l = build) then some (.flag .content)
  else if c = 'f' && l = settingsInit then some (.flag .force)
  else none

end Level

/-! ## Section 3: Operands -/

inductive Operand where
  /-- The script of `run` and `build`. -/
  | script
  /-- What the script is given. -/
  | arguments
  /-- What is to be cleaned. -/
  | targets
  | shell
deriving DecidableEq, Repr

/-- Whether any number of arguments make up this operand. -/
def Operand.isMany : Operand → Bool
  | arguments | targets => true
  | _ => false

/-- The operand that comes after `n` single ones. -/
def Level.operand? : Level → Nat → Option Operand
  | run, 0 | build, 0 => some .script
  | run, _ => some .arguments
  | clean, _ => some .targets
  | completions, 0 => some .shell
  | _, _ => none

end CommandLine
end ScriptDeps
