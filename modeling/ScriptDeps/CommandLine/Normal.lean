import ScriptDeps.CommandLine.Basic

/-! # The normal form of a command line

    A script can be named without `run`, and everything after it is its own.
    The normal form says both: `run` stands before the script, and `--` after
    it where something follows. -/

namespace ScriptDeps
namespace CommandLine

/-! ## Section 1: Kinds of arguments -/

/-- The argument that ends the options. -/
def endOfOptions : Argument := word "--"

def settingsOption : Argument := word "--config"
def swiftOption : Argument := word "--swift-path"
def runWord : Argument := word "run"

/-- The words that name a command. -/
def commandWords : List Argument :=
  ["run", "build", "clean", "config", "completions", "help"].map word

/-- The options that stand for a command of their own. -/
def infoOptions : List Argument := ["-h", "--help", "-V", "--version"].map word

/-- Whether `a` is one or more `-v` in one, or the long form. -/
def isVerbose (a : Argument) : Bool :=
  a = word "--verbose" ||
    match a with
    | dash :: v :: vs => dash = 0x2D && (v :: vs).all (· = 0x76)
    | _ => false

/-- Whether `a` is an option that says its value itself. -/
def isSettingsWithValue (a : Argument) : Bool :=
  (Utf8.decode a).isSome && (Cut.after? (word "--config=") a).isSome

/-- Whether `a` looks like an option: a dash and more, all of it text. -/
def looksLikeOption (a : Argument) : Bool :=
  (Utf8.decode a).isSome && a.head? = some 0x2D && 1 < a.length

/-! ## Section 2: Options before the command -/

/-- The options at the front that go with every command, with their values,
    and what follows them. -/
def splitOptions : List Argument → List Argument × List Argument
  | a :: v :: rest =>
      if a = settingsOption then
        let (front, back) := splitOptions rest
        (a :: v :: front, back)
      else if isSettingsWithValue a || isVerbose a then
        let (front, back) := splitOptions (v :: rest)
        (a :: front, back)
      else ([], a :: v :: rest)
  | [a] =>
      if a = settingsOption || isSettingsWithValue a || isVerbose a then ([a], []) else ([], [a])
  | [] => ([], [])

/-! ## Section 3: Arguments of the script -/

/-- Ends the options after the script, where arguments follow it.  The given
    arguments are those of `run`. -/
def markScript : List Argument → List Argument
  | [] => []
  | [a] => [a]
  | a :: b :: rest =>
      if a = endOfOptions then a :: b :: rest
      else if a = settingsOption || a = swiftOption then a :: b :: markScript rest
      else if looksLikeOption a then a :: markScript (b :: rest)
      else a :: endOfOptions :: b :: rest

/-! ## Section 4: The normal form -/

/-- The arguments with `run` put in where no command is named, and the script
    marked.  The first argument is the name of the program. -/
def normal : List Argument → List Argument
  | [] => [runWord]
  | program :: args =>
      let (front, back) := splitOptions args
      match back with
      | [] => program :: front ++ [runWord]
      | a :: rest =>
          if a = runWord then program :: front ++ runWord :: markScript rest
          else if commandWords.contains a || infoOptions.contains a then program :: args
          else program :: front ++ runWord :: markScript (a :: rest)

end CommandLine
end ScriptDeps
