import ScriptDeps.Tool.Choices

/-! # Running a script

    The toolchain is given the prepared arguments, the script, and then the
    arguments of the script.  A script that cannot be read again is written to
    its standard input; however that goes, the exit code is the toolchain's. -/

namespace ScriptDeps
namespace Tool

open CommandLine (Preparation)

/-- The call that runs a prepared script. -/
def runCall (swift : Path) (p : Prepare.Prepared) (args : List Text) : Call :=
  ⟨swift, p.args ++ p.script :: args, none⟩

/-- What the toolchain reads while the script runs. -/
def runInput (p : Prepare.Prepared) : Input :=
  match p.stdin with
  | some content => .fed content
  | none => .inherited

/-- Runs a prepared script; its exit code. -/
def execute (swift : Path) (p : Prepare.Prepared) (args : List Text) : Action Nat := do
  match ← Action.ask (.execute (runCall swift p args) (runInput p)) with
  | .error _ => throw (.toolchainStart swift.display)
  | .ok x => do
      Action.logAll x.events
      if let .signaled n := x.ending then Action.ask (.log (.scriptKilled n))
      return x.ending.exitCode

/-- Prepares and runs a script; its exit code. -/
def run (e : Environment) (s : Settings) (p : Preparation) (script : Text) (args : List Text) :
    Action Nat :=
  let options := prepareOptions p s true
  Script.Source.whileOpen (openScript e p script) fun source => do
    let prepared ← prepare e.homes options (store e s) source
    execute options.swift prepared args

end Tool
end ScriptDeps
