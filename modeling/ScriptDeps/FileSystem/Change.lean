import ScriptDeps.FileSystem.Lookup

/-! # Changing files

    Each operation either fails with its cause and changes nothing, or yields
    the file system after it. -/

namespace ScriptDeps
namespace FileSystem

/-! ## Section 1: Files -/

/-- The mode of files that are created without one. -/
def plainMode : Nat := 0o644

/-- The mode of files that are for their owner alone. -/
def privateMode : Nat := 0o600

/-- Makes `content` the content of the file at `p`, created if missing. -/
def write (fs : FileSystem) (cwd : Location) (now : Instant) (p : Path) (content : Bytes) :
    Except IoError FileSystem :=
  match fs.find cwd true p with
  | .ok (.node loc (.file _ _ mode)) => .ok (fs.put loc (.file content now mode))
  | .ok (.node _ (.pipe _)) => .ok fs
  | .ok (.node _ _) => .error .isDirectory
  | .ok (.missing parent name) =>
      if p.bytes.getLast? = some Path.slash then .error .isDirectory
      else .ok (fs.put (parent ++ [name]) (.file content now plainMode))
  | .error e => .error e

/-- Makes `mode` the mode of the file at `p`.  Other nodes have none, and stay
    as they are. -/
def setMode (fs : FileSystem) (cwd : Location) (p : Path) (mode : Nat) :
    Except IoError FileSystem :=
  match fs.findNode cwd true p with
  | .ok (loc, .file content modified _) => .ok (fs.put loc (.file content modified mode))
  | .ok _ => .ok fs
  | .error e => .error e

/-- Removes what is at `p`, if it is no directory; a link is removed itself. -/
def removeFile (fs : FileSystem) (cwd : Location) (p : Path) : Except IoError FileSystem :=
  match fs.findNode cwd false p with
  | .ok (_, .directory) => .error .isDirectory
  | .ok (loc, _) => .ok (fs.erase loc)
  | .error e => .error e

/-- Removes a directory with everything below it; links below it are removed
    and not followed. -/
def removeTree (fs : FileSystem) (cwd : Location) (p : Path) : Except IoError FileSystem :=
  match fs.findNode cwd false p with
  | .ok (loc, .directory) => .ok (fs.eraseTree loc)
  | .ok (loc, .link _) => .ok (fs.erase loc)
  | .ok _ => .error .notDirectory
  | .error e => .error e

/-- Makes a link at `p`. -/
def link (fs : FileSystem) (cwd : Location) (target p : Path) : Except IoError FileSystem :=
  if target.bytes.isEmpty then .error .noEntry
  else match fs.find cwd false p with
    | .ok (.node ..) => .error .alreadyExists
    | .ok (.missing parent name) => .ok (fs.put (parent ++ [name]) (.link target))
    | .error e => .error e

/-! ## Section 2: Directories -/

/-- Makes the directory `p` in a directory that is there. -/
def makeDirectory (fs : FileSystem) (cwd : Location) (p : Path) : Except IoError FileSystem :=
  match fs.find cwd false p with
  | .ok (.node ..) => .error .alreadyExists
  | .ok (.missing parent name) => .ok (fs.put (parent ++ [name]) .directory)
  | .error e => .error e

/-- Makes `p`, unless it is a directory already. -/
def ensureDirectory (fs : FileSystem) (cwd : Location) (p : Path) : Except IoError FileSystem :=
  match fs.makeDirectory cwd p with
  | .ok fs' => .ok fs'
  | .error e => if fs.isDirectory cwd p then .ok fs else .error e

/-- Makes `p` after those of its parents that are missing; `fuel` bounds the
    number of parents. -/
def makeDirectoriesWithin (fs : FileSystem) (cwd : Location) :
    Nat → Path → Except IoError FileSystem
  | 0, _ => .error .noEntry
  | fuel + 1, p =>
      if p.bytes.isEmpty then .ok fs
      else match fs.makeDirectory cwd p with
        | .ok fs' => .ok fs'
        | .error .noEntry =>
            match p.parent? with
            | none => .error (.other "failed to create whole tree".toList)
            | some parent =>
                match fs.makeDirectoriesWithin cwd fuel parent with
                | .ok fs' => fs'.ensureDirectory cwd p
                | .error e => .error e
        | .error e => if fs.isDirectory cwd p then .ok fs else .error e

/-- Makes the directory `p` and its missing parents. -/
def makeDirectories (fs : FileSystem) (cwd : Location) (p : Path) : Except IoError FileSystem :=
  fs.makeDirectoriesWithin cwd (p.bytes.length + 1) p

end FileSystem
end ScriptDeps
