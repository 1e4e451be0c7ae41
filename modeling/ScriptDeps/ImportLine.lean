import ScriptDeps.Text.Cut

/-! # Import lines

    The outer grammar of a line: an optional `@testable`, the word `import`,
    an optional kind of declaration, the module, an optional member, and a
    comment.  What the comment says is not looked at here. -/

namespace ScriptDeps

/-- A recognized import statement. -/
structure ImportLine where
  module  : Text
  /-- The trimmed comment; an empty comment counts as none. -/
  comment : Option Text
deriving DecidableEq, Repr

namespace ImportLine

/-! ## Section 1: Words -/

/-- The kinds of declaration that may stand before the module. -/
def kinds : List Text :=
  ["class", "enum", "struct", "protocol", "typealias", "func", "let", "var"].map String.toList

/-- What follows `word` and the spacing after it; at least one spacing
    character is needed. -/
def afterWord? (word t : Text) : Option Text :=
  match Cut.after? word t with
  | some (c :: rest) => if Text.isSpacing c then some (rest.dropWhile Text.isSpacing) else none
  | _ => none

/-- A character that ends the module name. -/
def endsModule (c : Char) : Bool := c = '.' || c = '/' || Text.isSpacing c

/-- Drops `.` and the non-blank characters after it, if there are any. -/
def dropMember : Text → Text
  | '.' :: t =>
      match t with
      | c :: _ => if Text.isBlank c then '.' :: t else t.dropWhile fun c => !Text.isBlank c
      | [] => ['.']
  | t => t

/-! ## Section 2: Comments -/

/-- The body of a comment of either style that `t` starts with. -/
def commentBody? : Text → Option Text
  | '/' :: '*' :: t => (Cut.splitAt? "*/".toList t).map Prod.fst
  | '/' :: '/' :: t => some t
  | _ => none

/-- The body of the comment that `t` starts with, trimmed; none if nothing is
    left of it. -/
def comment? (t : Text) : Option Text :=
  match commentBody? t with
  | none => none
  | some body =>
      let body := Cut.trim Text.isSpacing body
      if body.isEmpty then none else some body

/-! ## Section 3: Reading -/

/-- Recognizes an import statement. -/
def ofText? (line : Text) : Option ImportLine := do
  let t := line.dropWhile Text.isSpacing
  let t := (afterWord? "@testable".toList t).getD t
  let t ← afterWord? "import".toList t
  let t := (kinds.findSome? fun kind => afterWord? kind t).getD t
  let (module, rest) := t.span fun c => !endsModule c
  if module.isEmpty then none
  else some ⟨module, comment? ((dropMember rest).dropWhile Text.isSpacing)⟩

end ImportLine
end ScriptDeps
