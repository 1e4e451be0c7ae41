import ScriptDeps.Json.Basic
import ScriptDeps.Text.Cut
import ScriptDeps.Text.Hex

/-! # Writing JSON

    Strings escape quotes, backslashes and control characters and nothing
    else.  Records are indented by two spaces for each level. -/

namespace ScriptDeps
namespace Json

/-! ## Section 1: Strings -/

/-- A character inside a string. -/
def escapeChar (c : Char) : Text :=
  if c = '"' then ['\\', '"']
  else if c = '\\' then ['\\', '\\']
  else if c = '\x08' then ['\\', 'b']
  else if c = '\x0c' then ['\\', 'f']
  else if c = '\n' then ['\\', 'n']
  else if c = '\r' then ['\\', 'r']
  else if c = '\t' then ['\\', 't']
  else if c.toNat < 0x20 then
    ['\\', 'u', '0', '0', Hex.digit (c.toNat / 16), Hex.digit (c.toNat % 16)]
  else [c]

/-- A text as a string with its quotes. -/
def quote (t : Text) : Text := '"' :: t.flatMap escapeChar ++ ['"']

/-! ## Section 2: Indented values -/

/-- Two spaces for each level. -/
def indent (level : Nat) : Text := List.replicate (2 * level) ' '

/-- Items between brackets, one a line; nothing between them if there are
    none. -/
def block (opening closing : Char) (level : Nat) (items : List Text) : Text :=
  if items.isEmpty then [opening, closing]
  else opening :: '\n' ::
    Cut.join ",\n".toList (items.map fun t => indent (level + 1) ++ t)
      ++ '\n' :: indent level ++ [closing]

/-- A member of an object. -/
def member (name : Text) (value : Text) : Text := quote name ++ ": " ++ value

end Json
end ScriptDeps
