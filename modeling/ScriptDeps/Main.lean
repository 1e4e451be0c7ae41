import ScriptDeps.FileSystem.Change
import ScriptDeps.Tool.Session
import Std.Time.DateTime

/-! # The command

    Answers the requests of a program with the files, the streams and the
    environment of this process.  Every request is one operation of the
    system; what to ask for, and what to make of the answer, is decided in
    `Tool.session`.

    This process starts no others and makes no symbolic links: requests for
    those are answered as not supported. -/

namespace ScriptDeps
namespace Main

/-! ## Section 1: Errors -/

/-- The causes that have a number. -/
def numbered : List IoError :=
  [.noEntry, .inputOutput, .denied, .alreadyExists, .notDirectory, .isDirectory, .invalid,
   .brokenPipe, .nameTooLong, .unsupported, .notEmpty, .tooManyLinks]

/-- The number that an error of the system carries. -/
def number? : IO.Error → Option UInt32
  | .alreadyExists _ n _ | .otherError n _ | .resourceBusy n _ | .resourceVanished n _
  | .unsupportedOperation n _ | .hardwareFault n _ | .unsatisfiedConstraints n _
  | .illegalOperation n _ | .protocolError n _ | .timeExpired n _ | .interrupted _ n _
  | .noFileOrDirectory _ n _ | .invalidArgument _ n _ | .permissionDenied _ n _
  | .resourceExhausted _ n _ | .inappropriateType _ n _ | .noSuchThing _ n _ => some n
  | .unexpectedEof | .userError _ => none

/-- The cause of an error of the system; some operations carry its number
    negated. -/
def causeOf (e : IO.Error) : IoError :=
  ((number? e).bind fun n =>
    numbered.find? fun c => c.system?.map (·.1) = some n.toInt32.toInt.natAbs).getD
      (.other e.toString.toList)

/-- The outcome of an operation, with its failure as a cause. -/
def outcome {α : Type} (act : IO α) : IO (Except IoError α) := do
  match ← act.toBaseIO with
  | .ok a => return .ok a
  | .error e => return .error (causeOf e)

/-! ## Section 2: Files -/

/-- The name by which the system knows a path.  Names here are text, so a
    path of other bytes cannot be reached. -/
def nameOf (p : Path) : String := String.ofList p.display

/-- What the system says about the node at `p`. -/
def look (p : Path) (follow : Bool) : IO IO.FS.Metadata := do
  let file := (← IO.currentDir) / nameOf p
  if follow then file.metadata else file.symlinkMetadata

def kindOf : IO.FS.FileType → Kind
  | .dir => .directory
  | .file => .file
  | .symlink => .link
  | .other => .other

def statusOf (m : IO.FS.Metadata) : Status where
  kind := kindOf m.type
  size := m.byteSize.toNat
  modified := m.modified.sec * 1000000000 + m.modified.nsec.toNat

/-- The sorted names in a directory. -/
def list (p : Path) : IO (List Name) := do
  let entries ← ((← IO.currentDir) / nameOf p).readDir
  return (entries.toList.map fun e => Utf8.encode e.fileName.toList).mergeSort FileSystem.nameLe

/-- Whether a directory is at `p`. -/
def isDirectory (p : Path) (follow : Bool) : IO Bool := do
  match ← outcome (look p follow) with
  | .ok m => return m.type == .dir
  | .error _ => return false

/-- Lists the node at `p` and what lies below it, nodes that vanish meanwhile
    left out.  Only the start of a walk is followed if it is a link. -/
partial def walk (depth : Nat) (p : Path) : IO (List Visit) := do
  match ← outcome (look p false) with
  | .error _ => return []
  | .ok m =>
      let below ←
        if ← isDirectory p (depth == 0) then
          match ← outcome (list p) with
          | .ok names => names.flatMapM fun n => walk (depth + 1) (p.child n)
          | .error _ => pure []
        else pure []
      let s := statusOf m
      return ⟨p, s.kind, s.size, depth⟩ :: below

/-- Where the link at `p` leads, with every link on the way followed. -/
def followLink (p : Path) : IO (Except IoError Path) := do
  match ← outcome (look p false) with
  | .error e => return .error e
  | .ok m =>
      if m.type != .symlink then return .error .invalid
      else
        match ← outcome (IO.FS.realPath (nameOf p)) with
        | .ok target => return .ok (Path.ofText target.toString.toList)
        | .error _ => return .error .unsupported

/-- The characters of a name that is made up. -/
def nameCharacters : Text :=
  "ABCDEFGHIJKLMNOPQRSTUVWXYZabcdefghijklmnopqrstuvwxyz0123456789".toList

/-- Six characters by chance. -/
def freshName : IO Text :=
  (List.replicate 6 ()).mapM fun () => do
    return nameCharacters.getD (← IO.rand 0 (nameCharacters.length - 1)) '0'

/-- The access that three bits of a mode allow. -/
def accessOf (bits : Nat) : IO.AccessRight where
  read := bits.testBit 2
  write := bits.testBit 1
  execution := bits.testBit 0

def rightsOf (mode : Nat) : IO.FileRight where
  user := accessOf (mode / 64)
  group := accessOf (mode / 8)
  other := accessOf mode

/-- Sets the mode of the file at `p`. -/
def setMode (p : Path) (mode : Nat) : IO (Except IoError Unit) :=
  outcome (IO.setAccessRights (nameOf p) (rightsOf mode))

/-- Makes a new file in the directory for temporary files, for its owner alone;
    a name in use is given up for another, `tries` times at most. -/
def makeTemporary (front back : Text) : Nat → IO (Except IoError Path)
  | 0 => return .error .alreadyExists
  | tries + 1 => do
      let directory := (← IO.getEnv "TMPDIR").getD "/tmp"
      let p := (directory : Path).child (Utf8.encode (front ++ (← freshName) ++ back))
      match ← outcome (IO.FS.Handle.mk (nameOf p) .writeNew) with
      | .error .alreadyExists => makeTemporary front back tries
      | .error e => return .error e
      | .ok _ =>
          match ← setMode p FileSystem.privateMode with
          | .ok () => return .ok p
          | .error e => do
              -- A file that others might read is not left behind.
              let _ ← outcome (IO.FS.removeFile (nameOf p))
              return .error e

/-! ## Section 3: Answers -/

/-- Answers a request. -/
def answer : (r : Request) → IO r.Answer
  | .read p => outcome do return (← IO.FS.readBinFile (nameOf p)).toList
  | .write p content => outcome (IO.FS.writeBinFile (nameOf p) ⟨content.toArray⟩)
  | .makeDirectories p => outcome (IO.FS.createDirAll (nameOf p))
  | .isPresent p => return (← outcome (look p true)).isOk
  | .isDirectory p => isDirectory p true
  | .status p follow => outcome do return statusOf (← look p follow)
  | .removeFile p => outcome (IO.FS.removeFile (nameOf p))
  | .removeTree p => do
      if ← isDirectory p false then outcome (IO.FS.removeDirAll (nameOf p))
      else outcome (IO.FS.removeFile (nameOf p))
  | .link .. => return .error .unsupported
  | .readLink p => followLink p
  | .list p => outcome (list p)
  | .walk p => walk 0 p
  | .temporary front back => makeTemporary front back 1000
  | .setMode p mode => setMode p mode
  | .workingDirectory => outcome do
      let _ ← IO.currentDir
  | .standardInput => outcome do return (← (← IO.getStdin).readBinToEnd).toList
  | .now => return (← Std.Time.Timestamp.now).toNanosecondsSinceUnixEpoch.val
  | .log _ | .progress _ => return ()
  | .say line => IO.println (String.ofList line)
  | .complain line => IO.eprintln (String.ofList line)
  | .capture _ | .execute .. => return .error .unsupported

/-- Runs a program to its end. -/
def perform {α : Type} : Program α → IO α
  | .done a => return a
  | .ask r next => do perform (next (← answer r))

/-! ## Section 4: The environment -/

/-- A variable of the environment as a path, if it is set and not empty. -/
def pathVariable (name : String) : IO (Option Path) := do
  return ((← IO.getEnv name).filter (!·.isEmpty)).map fun value => Path.ofText value.toList

/-- The home directory of a user, given the lines of the database of users. -/
def homeIn (database : Text) (user : Text) : Option Path :=
  (Cut.pieces (· = '\n') database).findSome? fun line =>
    match Cut.pieces (· = ':') line with
    | name :: _ :: _ :: _ :: _ :: home :: _ =>
        if name = user then some (Path.ofText home) else none
    | _ => none

def environment : IO Tool.Environment := do
  let users := (← (IO.FS.readFile "/etc/passwd").toBaseIO).toOption.getD ""
  return {
    places := ⟨← pathVariable "HOME", ← pathVariable "XDG_CONFIG_HOME",
      ← pathVariable "XDG_CACHE_HOME"⟩
    homeOf? := homeIn users.toList
    settings? := (← IO.getEnv "SWIFT_SH_CONFIG").map fun value => Path.ofText value.toList
    filter? := (← IO.getEnv "RUST_LOG").map String.toList
    cwd := Path.ofText (← IO.currentDir).toString.toList }

end Main
end ScriptDeps

open ScriptDeps in
/-- Uses the tool once; the exit code is the result. -/
def main (args : List String) : IO UInt32 := do
  let words := "swift-sh" :: args
  let code ← Main.perform (Tool.session (← Main.environment) (words.map CommandLine.word))
  return code.toUInt32
