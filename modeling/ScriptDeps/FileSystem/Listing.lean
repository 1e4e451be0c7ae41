import ScriptDeps.FileSystem.Change
import ScriptDeps.FileSystem.Tree

/-! # Listings and layouts

    A listing has one line for each node of a tree.  A layout is a list of
    nodes to put into a file system, each with the directories it needs. -/

namespace ScriptDeps

/-- The letter of a kind in a listing. -/
def Kind.letter : Kind → Char
  | .directory => 'd'
  | .file => 'f'
  | .link => 'l'
  | .other => 'o'

namespace FileSystem

/-! ## Section 1: Listings -/

/-- A line of a listing. -/
structure Entry where
  /-- The path below the start. -/
  path   : Path
  kind   : Kind
  /-- Where a link leads. -/
  target : Option Path
deriving DecidableEq, Repr

/-- The text of a line, with `front` before the path. -/
def Entry.text (front : Text) (e : Entry) : Text :=
  e.kind.letter :: ' ' :: front ++ e.path.display ++
    match e.target with
    | some t => " -> ".toList ++ t.display
    | none => []

/-- Everything below the directory `dir`. -/
def listing (fs : FileSystem) (dir : Path) : List Entry :=
  (fs.visits [] dir).filterMap fun v =>
    if v.depth = 0 then none
    else some ⟨⟨v.path.bytes.drop (dir.bytes.length + 1)⟩, v.kind, (fs.readLink [] v.path).toOption⟩

/-- The absolute path of a location. -/
def pathOf (loc : Location) : Path := loc.foldl Path.child ⟨[Path.slash]⟩

/-- Where a path leads; the root, if it leads nowhere. -/
def locate (fs : FileSystem) (cwd : Location) (p : Path) : Location :=
  match fs.findNode cwd true p with
  | .ok (loc, _) => loc
  | .error _ => []

/-! ## Section 2: Layouts -/

/-- The file system after a change that may fail. -/
def orSame (fs : FileSystem) : Except IoError FileSystem → FileSystem
  | .ok fs' => fs'
  | .error _ => fs

/-- Puts a node at an absolute path, after the directories it needs.  A
    directory that is there stays, and a file that is there is written
    anew. -/
def place (fs : FileSystem) (p : Path) (n : Node) : FileSystem :=
  let fs := match p.parent? with
    | some d => fs.orSame (fs.makeDirectories [] d)
    | none => fs
  match n with
  | .directory => fs.orSame (fs.makeDirectories [] p)
  | .file content modified mode =>
      match fs.find [] true p with
      | .ok (.missing parent name) => fs.put (parent ++ [name]) (.file content modified mode)
      | _ => fs.orSame (fs.write [] modified p content)
  | n =>
      match fs.find [] false p with
      | .ok (.node loc _) => fs.put loc n
      | .ok (.missing parent name) => fs.put (parent ++ [name]) n
      | .error _ => fs

/-- A path with the node to put there. -/
abbrev Layout := List (Path × Node)

/-- Puts every node of a layout in place, in order; its paths start at
    `base`. -/
def placeAll (fs : FileSystem) (base : Path) (l : Layout) : FileSystem :=
  l.foldl (fun fs e => fs.place (base.join e.1) e.2) fs

/-- Takes away what is at an absolute path, with everything below it. -/
def discard (fs : FileSystem) (p : Path) : FileSystem :=
  match fs.removeFile [] p with
  | .ok fs' => fs'
  | .error _ => fs.orSame (fs.removeTree [] p)

/-- Changes when a file was last written. -/
def touch (fs : FileSystem) (modified : Instant) (p : Path) : FileSystem :=
  match fs.findNode [] true p with
  | .ok (loc, .file content _ mode) => fs.put loc (.file content modified mode)
  | _ => fs

end FileSystem
end ScriptDeps
