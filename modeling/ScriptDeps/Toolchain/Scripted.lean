import ScriptDeps.FileSystem.Listing
import ScriptDeps.Machine

/-! # Scripted toolchains

    A toolchain whose behaviour is laid down beforehand, for each of its
    tasks.  With it, all that a program does can be computed: what is called,
    what is written, and which files are there at the end. -/

namespace ScriptDeps

/-- What a toolchain is called for. -/
inductive Task where
  /-- Building dependencies and showing the interactive mode. -/
  | resolve
  | script
  | compile
deriving DecidableEq, Repr

namespace Scripted

/-! ## Section 1: Model -/

/-- What the toolchain does for a task. -/
structure Act where
  /-- What it writes; `place` in it stands for the directory it runs in. -/
  output     : Bytes := []
  errors     : Bytes := []
  /-- What it leaves in the directory it runs in. -/
  layout     : FileSystem.Layout := []
  /-- A signal that arrives meanwhile, and by which it then ends. -/
  signal     : Option Signal := none
  /-- How it ends otherwise. -/
  ending     : Ending := .exited 0
  /-- Whether it reads its standard input when nothing asks for that. -/
  readsInput : Bool := false
deriving DecidableEq, Repr

/-- What stands in an output for the directory the toolchain runs in. -/
def place : Bytes := Utf8.encode "@PWD@".toList

/-- Puts `value` in the place of every `mark`; `fuel` bounds their number. -/
def fill (mark value : Bytes) : Nat → Bytes → Bytes
  | 0, bs => bs
  | fuel + 1, bs =>
      match Cut.splitAt? mark bs with
      | some (before, rest) => before ++ value ++ fill mark value fuel rest
      | none => bs

def Act.outputIn (a : Act) (dir : Path) : Bytes := fill place dir.bytes a.output.length a.output

/-- How an act ends. -/
def Act.finalEnding (a : Act) : Ending :=
  match a.signal with
  | some s => .signaled s.forwarded.number
  | none => a.ending

end Scripted

structure Scripted where
  /-- The directory of the toolchain's programs, where they are looked for
      by name. -/
  bin : Path
  act : Task → Scripted.Act

namespace Scripted

/-! ## Section 2: Calls -/

/-- The name of the compiler. -/
def compilerName : Name := Utf8.encode "swiftc".toList

/-- The task that a call is for. -/
def taskOf (program : Name) (args : List Text) : Task :=
  if program = compilerName then .compile
  else if args.head? = some "run".toList then .resolve
  else .script

/-- The program of the toolchain that is started as `program` in `dir`. -/
def program? (s : Scripted) (fs : FileSystem) (dir : Location) (program : Path) : Option Name :=
  let file : Path :=
    if program.bytes.contains Path.slash then program else s.bin.child program.bytes
  match fs.findNode dir true file with
  | .ok (loc, .file _ _ mode) =>
      if mode &&& 0o111 != 0 && loc.dropLast = fs.locate [] s.bin then loc.getLast? else none
  | _ => none

/-- A call as it reaches the toolchain. -/
structure Started where
  program   : Name
  directory : Path
  args      : List Text
deriving DecidableEq, Repr

/-- Starts a call from the directory at `cwd`. -/
def start (s : Scripted) (cwd : Location) (c : Call) (fs : FileSystem) : Except IoError Started :=
  let dir := (c.directory.map (fs.locate cwd)).getD cwd
  match if c.program.bytes.isEmpty then none else s.program? fs dir c.program with
  | none => .error .noEntry
  | some name =>
      if c.args.any (·.contains '\x00') then .error .zeroByte
      else .ok ⟨name, FileSystem.pathOf dir, c.args⟩

/-- What the toolchain does when it is started so. -/
def actOf (s : Scripted) (x : Started) : Act := s.act (taskOf x.program x.args)

/-- Whether a started program reads its standard input to the end. -/
def readsInput (s : Scripted) (x : Started) : Bool :=
  taskOf x.program x.args = .script && (x.args.contains ['-'] || (s.actOf x).readsInput)

/-! ## Section 3: The host -/

/-- The surroundings that a scripted toolchain makes up with `h`. -/
def host (s : Scripted) (h : Host) : Host :=
  { h with
    capture := fun c fs => do
      let x ← s.start h.cwd c fs
      let a := s.actOf x
      return (fs.placeAll x.directory a.layout,
        [.terminal (terminalOutput (a.outputIn x.directory)), .errors a.errors]
          ++ a.signal.toList.map .signal ++ [.terminalEnd, .errorsEnd, .exited a.finalEnding])
    execute := fun c _ fs => do
      let x ← s.start h.cwd c fs
      let a := s.actOf x
      return ⟨fs.placeAll x.directory a.layout, a.outputIn x.directory, a.errors,
        { signals := a.signal.toList, ending := a.finalEnding }⟩ }

/-- A host without any toolchain. -/
def bare (now : Instant) (cwd : Location) (stdin : Bytes) (temporary : Path) (freshName : Name) :
    Host where
  now := now
  cwd := cwd
  stdin := stdin
  temporary := temporary
  freshName := freshName
  capture := fun _ _ => .error .noEntry
  execute := fun _ _ _ => .error .noEntry

end Scripted
end ScriptDeps
