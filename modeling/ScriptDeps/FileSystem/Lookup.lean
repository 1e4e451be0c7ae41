import ScriptDeps.FileSystem.Basic

/-! # Following paths

    `find` walks a path component by component.  A link on the way is
    replaced by its target; at most `linkLimit` links are followed.  The last
    component may be missing, so that it can be created. -/

namespace ScriptDeps

/-- The components to walk: a slash or a dot at the end asks for a directory. -/
def Path.steps (p : Path) : List Path.Component :=
  let ends := p.bytes.getLast? = some slash || (Cut.before? [slash, dot] p.bytes).isSome
  p.components ++ if ends then [.here] else []

namespace FileSystem

/-! ## Section 1: Model -/

/-- Where a path leads. -/
inductive Found where
  | node (loc : Location) (n : Node)
  /-- Only the last name is missing from the directory at `parent`. -/
  | missing (parent : Location) (name : Name)
deriving DecidableEq, Repr

/-- The most links that one walk follows. -/
def linkLimit : Nat := 40

/-- The longest name of a directory entry. -/
def nameLimit : Nat := 255

/-- One more than the length of the longest path. -/
def pathLimit : Nat := 4096

/-! ## Section 2: Walking -/

/-- Walks `steps` from `here`, following at most `links` links; a link in the
    last place is followed only if `last` says so. -/
def walk (fs : FileSystem) (last : Bool) (links : Nat) (here : Location)
    (steps : List Path.Component) : Except IoError Found :=
  match steps with
  | [] => .ok (.node here ((fs.at? here).getD .directory))
  | .root :: rest => fs.walk last links [] rest
  | .here :: rest => fs.walk last links here rest
  | .up :: rest => fs.walk last links here.dropLast rest
  | .name n :: rest =>
      if n.length > nameLimit then .error .nameTooLong
      else match fs.at? (here ++ [n]) with
        -- Slashes and dots after a missing name do not make it lead further.
        | none => if rest.all (· = .here) then .ok (.missing here n) else .error .noEntry
        | some .directory => fs.walk last links (here ++ [n]) rest
        | some (.link target) =>
            if rest.isEmpty && !last then .ok (.node (here ++ [n]) (.link target))
            else match links with
              | 0 => .error .tooManyLinks
              -- A target is walked from the directory that holds the link.
              | links + 1 => fs.walk last links here (target.steps ++ rest)
        | some node =>
            -- Nothing lies below a file.
            if rest.isEmpty then .ok (.node (here ++ [n]) node) else .error .notDirectory
termination_by (links, steps.length)

/-- Where the path `p` leads from the directory at `cwd`. -/
def find (fs : FileSystem) (cwd : Location) (last : Bool) (p : Path) : Except IoError Found :=
  if p.bytes.contains 0 then .error .zeroByte
  else if p.bytes.isEmpty then .error .noEntry
  else if p.bytes.length ≥ pathLimit then .error .nameTooLong
  else fs.walk last linkLimit cwd p.steps

/-- The node a path leads to. -/
def findNode (fs : FileSystem) (cwd : Location) (last : Bool) (p : Path) :
    Except IoError (Location × Node) :=
  match fs.find cwd last p with
  | .ok (.node loc n) => .ok (loc, n)
  | .ok (.missing ..) => .error .noEntry
  | .error e => .error e

/-! ## Section 3: Looking -/

/-- The content of a file or pipe. -/
def read (fs : FileSystem) (cwd : Location) (p : Path) : Except IoError Bytes :=
  match fs.findNode cwd true p with
  | .ok (_, .file content ..) => .ok content
  | .ok (_, .pipe content) => .ok content
  | .ok _ => .error .isDirectory
  | .error e => .error e

/-- Whether something is there; a path that cannot be followed leads nowhere. -/
def isPresent (fs : FileSystem) (cwd : Location) (p : Path) : Bool :=
  (fs.findNode cwd true p).isOk

/-- Whether a directory is there. -/
def isDirectory (fs : FileSystem) (cwd : Location) (p : Path) : Bool :=
  match fs.findNode cwd true p with
  | .ok (_, n) => n.isDirectory
  | .error _ => false

/-- The target of a link. -/
def readLink (fs : FileSystem) (cwd : Location) (p : Path) : Except IoError Path :=
  match fs.findNode cwd false p with
  | .ok (_, .link target) => .ok target
  | .ok _ => .error .invalid
  | .error e => .error e

/-- The order of names: by their bytes. -/
def nameLe (a b : Name) : Bool := !(List.lex b a (· < ·))

/-- The sorted names in a directory. -/
def list (fs : FileSystem) (cwd : Location) (p : Path) : Except IoError (List Name) :=
  match fs.findNode cwd true p with
  | .ok (loc, .directory) => .ok ((fs.names loc).mergeSort nameLe)
  | .ok _ => .error .notDirectory
  | .error e => .error e

end FileSystem
end ScriptDeps
