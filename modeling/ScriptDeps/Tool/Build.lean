import ScriptDeps.Tool.Choices

/-! # Compiling a script

    The compiler is given a private copy of the script and leaves a program
    next to the script itself, or in the current directory if the script has
    no path. -/

namespace ScriptDeps

/-- The path without the extension of its last name. -/
def Path.withoutExtension (p : Path) : Path :=
  match p.extension? with
  | none => p
  | some ext =>
      let q : Path := ⟨p.bytes.take (p.bytes.length - ext.length)⟩
      match q.extension? with
      | none => q
      | some ext => ⟨q.bytes.take (q.bytes.length - ext.length - 1)⟩

namespace Tool

open CommandLine (Preparation)

/-- The compiler: the name of the driver with a `c` after it. -/
def compiler (swift : Path) : Path := ⟨swift.bytes ++ Utf8.encode ['c']⟩

/-- The name of the program of a script without a path. -/
def plainOutput : Path := "main"

/-- Where the program of a script goes. -/
def outputOf (s : Script.Source) : Path := (s.origin.map Path.withoutExtension).getD plainOutput

/-- Where the program finds the dependencies when it runs. -/
def libraryDirectory (r : Record) : Path :=
  (Store.buildIn r.directory).join (Path.ofText r.configuration)

/-- What the linker is told about the dependencies. -/
def linkerArgs : Option Record → List Text
  | none => []
  | some r =>
      (["-Xlinker", "-rpath", "-Xlinker"].map String.toList) ++ [(libraryDirectory r).display]

/-- The call that compiles a prepared script. -/
def buildCall (swift : Path) (p : Prepare.Prepared) (output : Path) : Call :=
  ⟨compiler swift,
   p.args ++ linkerArgs p.record ++ [p.script, "-o".toList, output.display], none⟩

/-- A call on one line. -/
def callLine (c : Call) : Text := c.program.display ++ ' ' :: Cut.join [' '] c.args

/-- Makes a call that must succeed.  A signal that arrives meanwhile ends the
    command once the call is over. -/
def require (c : Call) : Action PUnit := do
  match ← Action.ask (.execute c .closed) with
  | .error _ => throw (.toolchainStart c.program.display)
  | .ok x =>
      match x.signals.getLast? with
      | some s => throw (.interrupted s.forwarded.number)
      | none =>
          match x.ending with
          | .exited 0 => return ()
          | .exited code => throw (.compilation (callLine c) code)
          -- A compiler that is killed has no code of its own.
          | .signaled _ => throw (.compilation (callLine c) (-1))

/-- A private copy of the script that an argument names, or is. -/
def openCopy (e : Environment) (p : Preparation) (script : Text) : Action Script.Source := do
  if p.content then Script.Source.ofContent e.cwd script
  else
    let path := Path.ofText script
    if !path.same (Path.ofText Script.stdinArgument) && path.extension?.isNone then
      throw (.scriptWithoutExtension path)
    Script.Source.copyOf e.cwd path

/-- Prepares and compiles a script. -/
def build (e : Environment) (s : Settings) (p : Preparation) (script : Text) : Action PUnit :=
  let options := prepareOptions p s false
  Script.Source.whileOpen (openCopy e p script) fun source => do
    let prepared ← prepare e.homes options (store e s) source
    let output := outputOf source
    Action.ask (.log (.compiling output))
    require (buildCall options.swift prepared output)
    Action.ask (.complain ("✓ Built " ++ output.display))

end Tool
end ScriptDeps
