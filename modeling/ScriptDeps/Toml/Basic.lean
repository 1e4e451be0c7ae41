import ScriptDeps.Text.Blank

/-! # TOML values

    The values that a TOML document can hold.  A table remembers how it came
    to be, because that decides which later lines may still add to it. -/

namespace ScriptDeps
namespace Toml

/-- How a table came to be. -/
inductive Making where
  /-- It has a header of its own. -/
  | named
  /-- The header of a table inside it passes through it. -/
  | passed
  /-- A key with dots passes through it. -/
  | dotted
  /-- It is written between braces, and complete. -/
  | closed
deriving DecidableEq, Repr

inductive Value where
  | text (t : Text)
  | integer (n : Int)
  /-- A floating-point number as written. -/
  | real (literal : Text)
  | bool (b : Bool)
  /-- A date, a time, or both, as written. -/
  | moment (literal : Text)
  | array (items : List Value)
  | table (how : Making) (rows : List (Text × Value))
  /-- One or more tables under one name, each with a header of its own. -/
  | tables (earlier : List (List (Text × Value))) (last : List (Text × Value))

/-- The rows of a table. -/
abbrev Rows := List (Text × Value)

namespace Rows

/-- The value of the row called `key`. -/
def get? (rows : Rows) (key : Text) : Option Value := List.lookup key rows

/-- Puts `v` in the place of the row called `key`, or at the end. -/
def set (key : Text) (v : Value) : Rows → Rows
  | [] => [(key, v)]
  | (k, w) :: rest => if k = key then (k, v) :: rest else (k, w) :: set key v rest

end Rows
end Toml
end ScriptDeps
