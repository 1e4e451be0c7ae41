import ScriptDeps.IoError
import ScriptDeps.Path

/-! # File systems

    A file system maps locations to nodes.  A location is the list of names
    from the root down; the root itself is always a directory.  The view is
    `at?`: every change is described by what it does to `at?`. -/

namespace ScriptDeps

/-- Nanoseconds since the epoch. -/
abbrev Instant := Int

/-- The names from the root down to a node. -/
abbrev Location := List Name

/-! ## Section 1: Model -/

inductive Node where
  | directory
  | file (content : Bytes) (modified : Instant) (mode : Nat)
  | link (target : Path)
  /-- A pipe or a device: its content can be read once, as it comes. -/
  | pipe (content : Bytes)
deriving DecidableEq, Repr

namespace Node

def isDirectory : Node → Bool
  | directory => true
  | _ => false

def isFile : Node → Bool
  | file .. => true
  | _ => false

def isLink : Node → Bool
  | link _ => true
  | _ => false

/-- The number of bytes in a regular file. -/
def size : Node → Nat
  | file content .. => content.length
  | _ => 0

end Node

structure FileSystem where
  nodes : List (Location × Node)
deriving DecidableEq, Repr

namespace FileSystem

/-- The file system that holds the root alone. -/
def empty : FileSystem := ⟨[]⟩

/-! ## Section 2: The view -/

/-- The node at a location. -/
def at? (fs : FileSystem) (loc : Location) : Option Node :=
  if loc = [] then some .directory else fs.nodes.lookup loc

/-- The names in the directory at `loc`. -/
def names (fs : FileSystem) (loc : Location) : List Name :=
  fs.nodes.filterMap fun (l, _) =>
    match Cut.after? loc l with
    | some [n] => some n
    | _ => none

/-- Every directory on the way to a node is there. -/
def WellFormed (fs : FileSystem) : Prop :=
  ∀ loc name, (fs.at? (loc ++ [name])).isSome → fs.at? loc = some .directory

/-! ## Section 3: Changes at a location -/

/-- Puts `node` at `loc` in place of what was there. -/
def put (fs : FileSystem) (loc : Location) (node : Node) : FileSystem :=
  ⟨(loc, node) :: fs.nodes.filter fun e => e.1 != loc⟩

/-- Takes the node at `loc` away. -/
def erase (fs : FileSystem) (loc : Location) : FileSystem :=
  ⟨fs.nodes.filter fun e => e.1 != loc⟩

/-- Takes the node at `loc` and everything below it away. -/
def eraseTree (fs : FileSystem) (loc : Location) : FileSystem :=
  ⟨fs.nodes.filter fun e => !loc.isPrefixOf e.1⟩

/-! ## Section 4: What changes do to the view -/

theorem lookup_filter {β : Type} (xs : List (Location × β)) (p : Location → Bool) (loc : Location) :
    (xs.filter fun e => p e.1).lookup loc = if p loc then xs.lookup loc else none := by
  induction xs with
  | nil => simp
  | cons x xs ih =>
    obtain ⟨l, b⟩ := x
    by_cases hl : loc = l
    · subst hl
      by_cases hp : p loc <;> simp [hp, ih]
    · have hne : (loc == l) = false := by simpa using hl
      by_cases hp : p l <;> simp [hp, ih, List.lookup_cons, hne]

@[simp] theorem at?_root (fs : FileSystem) : fs.at? [] = some .directory := by
  simp [at?]

@[simp] theorem at?_put_self (fs : FileSystem) {loc : Location} (node : Node) (h : loc ≠ []) :
    (fs.put loc node).at? loc = some node := by
  simp [at?, put, h]

@[simp] theorem at?_put_ne (fs : FileSystem) {loc other : Location} (node : Node)
    (h : other ≠ loc) : (fs.put loc node).at? other = fs.at? other := by
  have hne : (other == loc) = false := by simpa using h
  have hf := lookup_filter fs.nodes (fun l => l != loc) other
  simp only [at?, put, List.lookup_cons, hne, hf]
  simp [h]

@[simp] theorem at?_erase_self (fs : FileSystem) {loc : Location} (h : loc ≠ []) :
    (fs.erase loc).at? loc = none := by
  have hf := lookup_filter fs.nodes (fun l => l != loc) loc
  simp [at?, erase, h, hf]

@[simp] theorem at?_erase_ne (fs : FileSystem) {loc other : Location} (h : other ≠ loc) :
    (fs.erase loc).at? other = fs.at? other := by
  have hf := lookup_filter fs.nodes (fun l => l != loc) other
  simp only [at?, erase, hf]
  simp [h]

end FileSystem
end ScriptDeps
