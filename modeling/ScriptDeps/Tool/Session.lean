import ScriptDeps.CommandLine.Reader
import ScriptDeps.Log.Display
import ScriptDeps.Tool.Build
import ScriptDeps.Tool.Clean
import ScriptDeps.Tool.Run
import ScriptDeps.Tool.ShowSettings

/-! # One use of the tool

    From the arguments to the exit code: the command line is read, then the
    settings, and then the command is done.  Whatever fails is reported on the
    error stream. -/

namespace ScriptDeps
namespace Tool

open CommandLine

/-! ## Section 1: Ending without a command -/

/-- The name of a command as shown with its version. -/
def versionName (l : Level) : Text := Cut.join ['-'] ("swift-sh".toList :: l.path)

/-- What is wrong, in words. -/
def misuseText : Misuse → Text
  | .unknownArgument => "unexpected argument found".toList
  | .unknownCommand => "unrecognized subcommand".toList
  | .badValue => "invalid value for an argument".toList
  | .needlessValue => "unexpected value for an argument found".toList
  | .repeated => "an argument cannot be used multiple times".toList
  | .missingOperand => "a required argument was not provided".toList
  | .missingCommand | .nothing => "a subcommand is required but one was not provided".toList
  | .notText => "invalid UTF-8 was detected in an argument".toList

/-- How the tool is called. -/
def usage : Text :=
  ("Usage: swift-sh [OPTIONS] [run] <SCRIPT> [ARGS]...\n"
    ++ "       swift-sh [OPTIONS] <build|clean|config|completions|help>").toList

/-- Says why there is no command; the exit code. -/
def stop (s : Stop) : Program Nat := do
  match s with
  | .help => Program.request (.say usage)
  | .version l => Program.request (.say (versionName l ++ " ".toList ++ toolVersion.text))
  | .misuse m => do
      Program.request (.complain ("error: ".toList ++ misuseText m))
      Program.request (.complain usage)
  return s.exitCode

/-! ## Section 2: Completions -/

/-- The commands, with blanks between them. -/
def commandNames : Text := "run build clean config completions help".toList

/-- What makes a shell complete the names of the commands. -/
def completionScript : Shell → Text
  | .bash => "complete -W '".toList ++ commandNames ++ "' swift-sh".toList
  | .elvish =>
      "set edit:completion:arg-completer[swift-sh] = \x7b|@words| put ".toList ++ commandNames
        ++ " \x7d".toList
  | .fish => "complete -c swift-sh -a '".toList ++ commandNames ++ "'".toList
  | .powershell =>
      "Register-ArgumentCompleter -Native -CommandName swift-sh -ScriptBlock \x7b -split '".toList
        ++ commandNames ++ "' \x7d".toList
  | .zsh => "compadd_swift_sh() \x7b compadd ".toList ++ commandNames
        ++ " \x7d; compdef compadd_swift_sh swift-sh".toList

/-! ## Section 3: Commands -/

/-- Does a command; the exit code. -/
def perform (e : Environment) (s : Settings) (file : Path) : Command → Action Nat
  | .run p script args => run e s p script args
  | .build p script => do
      build e s p script
      return 0
  | .clean targets dryRun keepUnused => do
      clean e s targets dryRun keepUnused
      return 0
  | .settings action => do
      settings s file action
      return 0
  | .completions shell => do
      Action.ask (.say (completionScript shell))
      return 0

/-- Reports a failure; the exit code. -/
def report (f : Failure) : Program Nat := do
  Program.request (.complain ("Error: ".toList ++ f.message))
  if let some hint := f.hint? then Program.request (.complain ("Hint: ".toList ++ hint))
  return f.exitCode

/-- How log events are shown.  Settings that cannot be read say nothing about
    their form. -/
def display (e : Environment) (verbose : Nat) (loaded : Except Failure Settings) : Log.Display :=
  Log.Display.make e.filter? verbose
    (match loaded with
      | .ok s => Log.Format.ofName s.logFormat
      | .error _ => .text)

/-- Loads the settings and does the command of an order. -/
def obey (e : Environment) (o : Order) : Program (Except Failure Nat) := do
  let file := Settings.locate e.places o.settings
  let loaded ← ExceptT.run (Settings.load file)
  match loaded with
  | .error f => return .error f
  | .ok s => (ExceptT.run (perform e s file o.command)).showingLogs (display e o.verbose loaded)

/-! ## Section 4: The whole -/

/-- One use of the tool, given its arguments with the name of the program in
    front; the exit code. -/
def session (e : Environment) (args : List Argument) : Program Nat := do
  match readNormal e.settings? args with
  | .error s => stop s
  | .ok ⟨_, _, .completions shell⟩ => do
      Program.request (.say (completionScript shell))
      return 0
  | .ok o =>
      match ← obey e o with
      | .ok code => return code
      | .error f => report f

end Tool
end ScriptDeps
