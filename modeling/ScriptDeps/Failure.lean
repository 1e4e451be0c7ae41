import ScriptDeps.IoError
import ScriptDeps.Process
import ScriptDeps.TerminalError

/-! # Failures

    Everything that ends a command early, with its message, its exit code and
    the advice that goes with it.  Scripts own all other exit codes, so
    failures stay within a small fixed range. -/

namespace ScriptDeps

inductive Failure where
  | scriptNotFound (path : Path)
  | scriptIsDirectory (path : Path)
  | scriptWithoutExtension (path : Path)
  | settingsInvalid (path : Path) (reason : Text)
  | settingsDirectory (path : Path) (why : IoError)
  | toolchainStart (program : Text)
  | terminal (number : Int)
  | resolution (errors : Text)
  | interrupted (signal : Int)
  | compilation (line : Text) (code : Int)
  | cacheDirectory (path : Path) (why : IoError)
  | io (context : Text) (why : IoError)
  | command (line : Text) (why : IoError)
  | record (reason : Text)
  | settingsUnwritable (reason : Text)
  | internal (what : Text)
deriving DecidableEq, Repr

namespace Failure

def message : Failure → Text
  | scriptNotFound path => "Script not found: " ++ path.display
  | scriptIsDirectory path => "Script path is a directory: " ++ path.display
  | scriptWithoutExtension path =>
      "Cannot compile a script that does not have an extension: " ++ path.display
  | settingsInvalid path reason =>
      "Invalid configuration at " ++ path.display ++ ": " ++ reason
  | settingsDirectory path why =>
      "Failed to create config directory " ++ path.display ++ ": " ++ why.text
  | toolchainStart program => "Failed to launch " ++ program
  | terminal number => "Cannot allocate a pseudo-terminal: " ++ TerminalError.text number
  | resolution errors =>
      "Cannot find the REPL invocation of the dependencies package. swift stderr:\n" ++ errors
  | interrupted signal => "Interrupted by signal " ++ Decimal.ofInt signal
  | compilation line code =>
      "Compilation failed: " ++ line ++ ", exit code: " ++ Decimal.ofInt code
  | cacheDirectory path why =>
      "Failed to prepare cache directory " ++ path.display ++ ": " ++ why.text
  | io context _ => "IO error: " ++ context
  | .command line _ => "Command failed: " ++ line
  | record reason => "JSON error: " ++ reason
  | settingsUnwritable reason => "TOML serialize error: " ++ reason
  | internal what => "Internal error: " ++ what

/-- The exit code of a command that fails so. -/
def exitCode : Failure → Nat
  | scriptNotFound _ | scriptIsDirectory _ | scriptWithoutExtension _ => 2
  | toolchainStart _ | terminal _ | resolution _ => 3
  | cacheDirectory .. | io .. | .command .. => 4
  | settingsInvalid .. | settingsDirectory .. | record _ | settingsUnwritable _ => 5
  | compilation .. => 6
  | interrupted signal => (min (max (128 + signal) 0) 255).toNat
  | internal _ => 1

/-- What to do about it, where something can be done. -/
def hint? : Failure → Option Text
  | toolchainStart _ => some "Install a Swift toolchain or point to it with --swift-path".toList
  | resolution _ =>
      some "Run with -vv to see the toolchain output, or clean the cache: swift-sh clean all".toList
  | terminal _ => some "Check that /dev/ptmx is available".toList
  | _ => none

end Failure
end ScriptDeps
