import ScriptDeps.Text.Cut
import ScriptDeps.Text.Utf8

/-! # Paths

    A path is the bytes it is written with.  Its components are what stands
    between slashes, without empty ones and without `.`, except that a
    relative path keeps a `.` it starts with.  Two spellings with the same
    components lead to the same place. -/

namespace ScriptDeps

/-- A path as written. -/
structure Path where
  bytes : Bytes
deriving DecidableEq, Repr, Inhabited

/-- The name of one directory entry. -/
abbrev Name := Bytes

namespace Path

/-! ## Section 1: Components -/

/-- The byte `/`. -/
def slash : UInt8 := 0x2F

/-- The byte `.`. -/
def dot : UInt8 := 0x2E

/-- The name `.`. -/
def hereName : Name := [dot]

/-- The name `..`. -/
def upName : Name := [dot, dot]

inductive Component where
  | root
  | here
  | up
  | name (n : Name)
deriving DecidableEq, Repr

/-- The path of a text. -/
def ofText (t : Text) : Path := ⟨Utf8.encode t⟩

instance : Coe String Path := ⟨fun s => ofText s.toList⟩

/-- A path for people to read; bytes that are no text are replaced. -/
def display (p : Path) : Text := Utf8.decodeLossy p.bytes

def isAbsolute (p : Path) : Bool := p.bytes.head? = some slash

/-- A piece between slashes that leads nowhere. -/
def isIdle (piece : Bytes) : Bool := piece.isEmpty || piece = hereName

/-- How a path starts: the root, a leading `.`, or neither. -/
def head (p : Path) : List Component :=
  if p.isAbsolute then [.root]
  else if (Cut.pieces (· = slash) p.bytes).head? = some hereName then [.here]
  else []

/-- The pieces between slashes after the head. -/
def body (p : Path) : List Bytes :=
  Cut.pieces (· = slash) (if p.head.isEmpty then p.bytes else p.bytes.tail)

/-- The component that a piece which leads somewhere names. -/
def componentOf (piece : Bytes) : Component :=
  if piece = upName then .up else .name piece

/-- The components, in order. -/
def components (p : Path) : List Component :=
  p.head ++ ((p.body.filter fun b => !isIdle b).map componentOf)

/-- Whether two spellings have the same components. -/
def same (p q : Path) : Bool := p.components = q.components

/-! ## Section 2: Joining -/

/-- Writes `q` after `p`, with a slash between them where `p` has none.  An
    absolute `q` stands alone. -/
def join (p q : Path) : Path :=
  if q.isAbsolute then q
  else if p.bytes.isEmpty || p.bytes.getLast? = some slash then ⟨p.bytes ++ q.bytes⟩
  else ⟨p.bytes ++ slash :: q.bytes⟩

/-- The entry called `n` of the directory `p`. -/
def child (p : Path) (n : Name) : Path := p.join ⟨n⟩

/-- How a component is written. -/
def Component.path : Component → Path
  | .root => ⟨[slash]⟩
  | .here => ⟨hereName⟩
  | .up => ⟨upName⟩
  | .name n => ⟨n⟩

/-- The path written with nothing but its components. -/
def tidy (p : Path) : Path :=
  p.components.foldl (fun q c => q.join c.path) ⟨[]⟩

/-! ## Section 3: The last component -/

/-- The name the path ends in, if its last component is a name. -/
def fileName? (p : Path) : Option Name :=
  match p.components.getLast? with
  | some (.name n) => some n
  | _ => none

/-- Cuts a name at its last dot; a dot in front belongs to the name. -/
def cutName (n : Name) : Name × Option Name :=
  match Cut.splitAtLast? [dot] n with
  | none => (n, none)
  | some ([], _) => (n, none)
  | some (stem, ext) => (stem, some ext)

/-- The last name without its extension. -/
def stem? (p : Path) : Option Name := p.fileName?.map fun n => (cutName n).1

/-- What follows the last dot of the last name. -/
def extension? (p : Path) : Option Name := p.fileName?.bind fun n => (cutName n).2

/-- Everything before the last component, as written; the root and the empty
    path have none. -/
def parent? (p : Path) : Option Path :=
  let dropIdle (ps : List Bytes) : List Bytes := Cut.trimEnd isIdle ps
  let front := if p.head.isEmpty then [] else p.bytes.take 1
  match (dropIdle p.body).reverse with
  | [] => if p.head = [.here] then some ⟨[]⟩ else none
  | _ :: before => some ⟨front ++ Cut.join [slash] (dropIdle before.reverse)⟩

/-! ## Section 4: Laws -/

theorem join_of_isAbsolute (p : Path) {q : Path} (h : q.isAbsolute = true) : p.join q = q := by
  simp [join, h]

theorem isAbsolute_join {p : Path} (q : Path) (h : p.isAbsolute = true) :
    (p.join q).isAbsolute = true := by
  cases p with
  | mk bytes =>
    cases bytes with
    | nil => simp [isAbsolute] at h
    | cons b bs =>
      unfold join
      split
      · assumption
      · split <;> simpa [isAbsolute] using h

end Path
end ScriptDeps
