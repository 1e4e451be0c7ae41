import ScriptDeps.Toolchain.Invocation

/-! # Resolving dependencies

    The toolchain is run in the directory of a dependencies package.  It
    fetches and builds everything and shows the arguments for its interactive
    mode, which are completed and returned. -/

namespace ScriptDeps
namespace Resolve

/-- How the toolchain is to be run. -/
structure Options where
  /-- The path or the name of the toolchain's driver. -/
  swift     : Path
  release   : Bool
  noSandbox : Bool
deriving DecidableEq, Repr

/-- The arguments of the driver. -/
def Options.args (o : Options) : List Text :=
  (["run", "--repl"] ++ (if o.release then ["-c", "release"] else [])
    ++ (if o.noSandbox then ["--disable-sandbox"] else [])).map String.toList

/-- The call that resolves the package in `dir`. -/
def call (dir : Path) (o : Options) : Call := ⟨o.swift, o.args, some dir⟩

/-- Runs the toolchain and reads the arguments that it shows. -/
def capture (dir : Path) (o : Options) : Action (List Text) := do
  match ← Action.ask (.capture (call dir o)) with
  | .error _ => throw (.toolchainStart o.swift.display)
  | .ok events => do
      let c := Capture.run events
      Action.logAll c.events
      let (result, more) := c.result o.swift.display
      Action.logAll more
      match result with
      | .ok args => return args
      | .error f => throw f

/-- The complete arguments for the package in `dir`. -/
def invocation (dir : Path) (o : Options) : Action (List Text) := do
  let args ← capture dir o
  Action.logAll (Invocation.events args)
  ExceptT.lift (Invocation.complete args dir)

end Resolve
end ScriptDeps
