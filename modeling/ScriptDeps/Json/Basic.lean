import ScriptDeps.Text.Blank

/-! # JSON values

    The values that a JSON text can hold.  A string written with a lone half
    of a surrogate pair stands for no text; it is a value nevertheless, so
    that such a string does no harm where nobody looks at it. -/

namespace ScriptDeps

inductive Json where
  | null
  | bool (b : Bool)
  /-- A number as written. -/
  | number (literal : Text)
  | string (t : Option Text)
  | array (items : List Json)
  | object (members : List (Option Text × Json))

namespace Json

/-- The string that a text stands for. -/
def ofText (t : Text) : Json := .string (some t)

/-- The text of a string. -/
def text? : Json → Option Text
  | .string t => t
  | _ => none

def bool? : Json → Option Bool
  | .bool b => some b
  | _ => none

/-- The texts of an array of strings. -/
def texts? : Json → Option (List Text)
  | .array items => items.mapM text?
  | _ => none

end Json
end ScriptDeps
