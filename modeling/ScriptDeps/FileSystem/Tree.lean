import ScriptDeps.FileSystem.Lookup

/-! # Listing trees

    `visits` lists a directory tree depth first with names in order.  Links
    below the start are listed and not entered; the start itself may be a
    link to a directory. -/

namespace ScriptDeps

inductive Kind where
  | directory
  | file
  | link
  | other
deriving DecidableEq, Repr

def Node.kind : Node → Kind
  | .directory => .directory
  | .file .. => .file
  | .link _ => .link
  | .pipe _ => .other

/-- One node of a listed tree. -/
structure Visit where
  path  : Path
  kind  : Kind
  size  : Nat
  /-- The number of directories between the start and this node. -/
  depth : Nat
deriving DecidableEq, Repr

namespace Visit

/-- The visits that are left once the rest of the directory in which `v`
    was met is to be skipped: what lies below `v` if `v` is a directory, and
    otherwise what follows `v` in its directory. -/
def skipFrom (v : Visit) (rest : List Visit) : List Visit :=
  let floor := if v.kind = .directory then v.depth + 1 else v.depth
  rest.dropWhile fun w => floor ≤ w.depth

theorem skipFrom_length (v : Visit) (rest : List Visit) :
    (v.skipFrom rest).length ≤ rest.length :=
  (List.dropWhile_suffix _).length_le

/-- The total size of the regular files in a list of visits. -/
def fileBytes (vs : List Visit) : Nat :=
  ((vs.filter fun v => v.kind = .file).map (·.size)).foldr (· + ·) 0

end Visit

namespace FileSystem

/-- Lists the node at `loc` and what lies below it; `fuel` bounds the depth. -/
def visitsBelow (fs : FileSystem) : Nat → Nat → Path → Location → List Visit
  | 0, _, _, _ => []
  | fuel + 1, depth, path, loc =>
      ((fs.names loc).mergeSort nameLe).flatMap fun n =>
        match fs.at? (loc ++ [n]) with
        | none => []
        | some node =>
            ⟨path.child n, node.kind, node.size, depth⟩ ::
              -- A link is no directory here, whatever it leads to.
              if node.isDirectory then
                fs.visitsBelow fuel (depth + 1) (path.child n) (loc ++ [n])
              else []

/-- A number larger than the depth of every node. -/
def height (fs : FileSystem) : Nat :=
  (fs.nodes.map fun e => e.1.length).foldl max 0 + 1

/-- Lists the tree at `p`, `p` itself first; nothing if nothing is there. -/
def visits (fs : FileSystem) (cwd : Location) (p : Path) : List Visit :=
  match fs.findNode cwd false p with
  | .error _ => []
  | .ok (_, node) =>
      ⟨p, node.kind, node.size, 0⟩ ::
        match fs.findNode cwd true p with
        | .ok (loc, .directory) => fs.visitsBelow fs.height 1 p loc
        | _ => []

/-- The total size of the regular files in the tree at `p`. -/
def diskUsage (fs : FileSystem) (cwd : Location) (p : Path) : Nat :=
  Visit.fileBytes (fs.visits cwd p)

end FileSystem
end ScriptDeps
