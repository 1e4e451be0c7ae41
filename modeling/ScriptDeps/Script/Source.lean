import ScriptDeps.Program
import ScriptDeps.Script.Scan
import ScriptDeps.Store.Identity

/-! # Where scripts come from

    A script is a file, a pipe, standard input, or text given on the command
    line.  The text is put into a private temporary file; so is the copy of a
    script that is to be compiled. -/

namespace ScriptDeps

/-! ## Section 1: Absolute paths -/

/-- The absolute form of `p` in the directory `cwd`: components are kept as
    they are, a final slash stays, and exactly two slashes in front stay. -/
def Path.absolute (p cwd : Path) : Except IoError Path :=
  if p.bytes.isEmpty then .error .emptyPath
  else
    -- Two slashes in front are kept; three or more are one.
    let cs := p.components.filter fun c => c != .here
    let start : Path :=
      if !p.isAbsolute then cwd
      else match p.bytes with
        | a :: b :: c :: _ =>
            if a = slash && b = slash && c != slash then ⟨[slash, slash]⟩ else ⟨[]⟩
        | [a, b] => if a = slash && b = slash then ⟨[slash, slash]⟩ else ⟨[]⟩
        | _ => ⟨[]⟩
    let cs := if start = ⟨[slash, slash]⟩ then cs.tail else cs
    let full := cs.foldl (fun q c => q.join c.path) start
    .ok (if p.bytes.getLast? = some slash then full.join ⟨[]⟩ else full)

namespace Script

/-! ## Section 2: Model -/

inductive SourceKind where
  /-- A regular file, which the toolchain reads again itself. -/
  | file
  /-- A pipe or a device, readable once. -/
  | pipe
  | stdin
  /-- Text from the command line, or the private copy of a script. -/
  | inlined
deriving DecidableEq, Repr

structure Source where
  kind      : SourceKind
  /-- The file that the toolchain runs; without one the content is piped. -/
  runPath   : Option Path
  /-- The absolute path that was named, if one was. -/
  origin    : Option Path
  /-- Where relative paths of dependencies start. -/
  folder    : Path
  /-- A file that is to be removed with the source. -/
  temporary : Option Path
deriving DecidableEq, Repr

/-- The argument that names standard input. -/
def stdinArgument : Text := ['-']

namespace Source

/-- Whether the toolchain can read the script from a file. -/
def isReplayable (s : Source) : Bool := s.runPath.isSome

/-- The argument that hands the script to the toolchain. -/
def argument (s : Source) : Text :=
  match s.runPath with
  | some p => p.display
  | none => stdinArgument

/-- The identity of the script, given the digest of its content. -/
def identity (s : Source) (contentHash : Text) : Identity :=
  match s.kind, s.origin with
  | .file, some p => Identity.ofPath p
  | .inlined, _ => Identity.inlined contentHash
  | _, _ => Identity.stdin contentHash

/-! ## Section 3: Opening -/

/-- Removes a private file.  There is nothing to be done if that fails. -/
def discard (file : Path) : Program PUnit := do
  let _ ← Program.request (.removeFile file)
  return ()

/-- Puts the content into a private file and sets its mode. -/
def fill (file : Path) (content : Bytes) (mode : Nat) : Action PUnit := do
  Action.orFail (← Action.ask (.write file content)) fun e => .io "writing temporary script" e
  Action.orFail (← Action.ask (.setMode file mode)) fun e =>
    .io "restricting temporary script permissions" e

/-- A private file with the given content; none is left if that fails. -/
def makeTemporary (content : Bytes) (mode : Nat) : Action Path := do
  let made ← Action.ask (.temporary "swift-sh-inline-content-" ".swift")
  let file ← Action.orFail made fun e => .io "creating temporary script" e
  Action.orUndo (fill file content mode) (discard file)
  return file

/-- Makes sure that the current directory is known. -/
def needDirectory : Action PUnit := do
  Action.orFail (← Action.ask .workingDirectory) fun e => .io "reading current directory" e

/-- The absolute form of `p`; for a relative one the current directory is
    needed. -/
def resolve (cwd p : Path) : Action Path := do
  let full ← Action.orFail (p.absolute cwd) fun e => .io ("resolving " ++ p.display) e
  if !p.isAbsolute then
    Action.orFail (← Action.ask .workingDirectory) fun e => .io ("resolving " ++ p.display) e
  return full

/-- The script on standard input. -/
def ofStdin (cwd : Path) : Source := ⟨.stdin, none, none, cwd, none⟩

/-- The script at a path given on the command line. -/
def ofPath (cwd p : Path) : Action Source := do
  if p.same (Path.ofText stdinArgument) then
    needDirectory
    return ofStdin cwd
  match ← Action.ask (.status p true) with
  | .error .noEntry => throw (.scriptNotFound p)
  | .error e => throw (.io ("reading metadata of " ++ p.display) e)
  | .ok status =>
      if status.kind = .directory then throw (.scriptIsDirectory p)
      let full ← resolve cwd p
      let folder := full.parent?.getD ⟨[Path.slash]⟩
      if status.kind = .file then return ⟨.file, some full, some full, folder, none⟩
      else return ⟨.pipe, none, some full, folder, none⟩

/-- The script given as text, in a file that nobody can change. -/
def ofContent (cwd : Path) (content : Text) : Action Source := do
  let file ← makeTemporary (Utf8.encode content) 0o400
  -- The file is there already, and goes again if this fails.
  Action.orUndo needDirectory (discard file)
  return ⟨.inlined, some file, none, cwd, some file⟩

/-- A private copy of a script; relative paths of dependencies still start at
    the directory of the script itself. -/
def copyOf (cwd p : Path) : Action Source := do
  if p.same (Path.ofText stdinArgument) then
    let content ← Action.orFail (← Action.ask .standardInput) fun e =>
      .io "reading script from stdin" e
    needDirectory
    let file ← makeTemporary content 0o600
    return ⟨.inlined, some file, none, cwd, some file⟩
  else
    let script ← ofPath cwd p
    let content ← Action.orFail (← Action.ask (.read p)) fun e =>
      .io ("reading script " ++ p.display) e
    let file ← makeTemporary content 0o600
    return ⟨.inlined, some file, script.origin, script.folder, some file⟩

/-! ## Section 4: Reading and closing -/

/-- The content of the script. -/
def read (s : Source) : Action Bytes := do
  -- A pipe has no file to run and is read by its name, once.
  match s.runPath.orElse fun _ => s.origin with
  | none => Action.orFail (← Action.ask .standardInput) fun e => .io "reading script" e
  | some p =>
      match ← Action.ask (.read p) with
      | .ok content => return content
      | .error .isDirectory => throw (.io "reading script" .isDirectory)
      | .error e => throw (.io ("opening script " ++ p.display) e)

/-- Removes the temporary file of the source. -/
def close (s : Source) : Program PUnit :=
  match s.temporary with
  | none => pure ()
  | some p => discard p

/-- Opens a source, uses it, and closes it whatever happens. -/
def whileOpen {α : Type} (opening : Action Source) (use : Source → Action α) : Action α := do
  let s ← opening
  Action.thenAlways (use s) s.close

end Source
end Script
end ScriptDeps
