import ScriptDeps.Json.Basic
import ScriptDeps.Text.Hex

/-! # Reading JSON

    `Json.ofText?` reads one value with white space around it.  Each function
    below reads a beginning of the text and returns what is left. -/

namespace ScriptDeps
namespace Json

/-! ## Section 1: White space and numbers -/

/-- The white space of the format. -/
def isSpace (c : Char) : Bool := c = ' ' || c = '\t' || c = '\n' || c = '\r'

def dropSpace (t : Text) : Text := t.dropWhile isSpace

/-- One or more digits. -/
def digits? (t : Text) : Option (Text × Text) :=
  let (ds, rest) := t.span Text.isDigit
  if ds.isEmpty then none else some (ds, rest)

/-- The digits before the point: a single zero, or no zero in front. -/
def whole? (t : Text) : Option (Text × Text) :=
  match t with
  | '0' :: rest =>
      match rest with
      | c :: _ => if Text.isDigit c then none else some (['0'], rest)
      | [] => some (['0'], [])
  | _ => digits? t

/-- The fraction, if there is one. -/
def fraction? : Text → Option (Text × Text)
  | '.' :: rest => (digits? rest).map fun (ds, r) => ('.' :: ds, r)
  | rest => some ([], rest)

/-- The exponent, if there is one. -/
def exponent? : Text → Option (Text × Text)
  | c :: rest =>
      if c = 'e' || c = 'E' then
        let (sign, rest) := match rest with
          | d :: r => if d = '+' || d = '-' then ([d], r) else ([], d :: r)
          | [] => ([], [])
        (digits? rest).map fun (ds, r) => (c :: sign ++ ds, r)
      else some ([], c :: rest)
  | [] => some ([], [])

/-- A number. -/
def number? (t : Text) : Option (Text × Text) := do
  let (sign, t) := match t with
    | '-' :: rest => (['-'], rest)
    | _ => ([], t)
  let (w, t) ← whole? t
  let (f, t) ← fraction? t
  let (e, t) ← exponent? t
  return (sign ++ w ++ f ++ e, t)

/-! ## Section 2: Strings -/

/-- One element of a string: a character, or half of a surrogate pair. -/
inductive Unit16 where
  | char (c : Char)
  | high (n : Nat)
  | low (n : Nat)
deriving DecidableEq, Repr

/-- The value of four hexadecimal digits. -/
def hex4? (a b c d : Char) : Option Nat := do
  let x ← Hex.value? a
  let y ← Hex.value? b
  let z ← Hex.value? c
  let w ← Hex.value? d
  return ((x * 16 + y) * 16 + z) * 16 + w

def unitOf (n : Nat) : Unit16 :=
  if 0xD800 ≤ n ∧ n < 0xDC00 then .high (n - 0xD800)
  else if 0xDC00 ≤ n ∧ n < 0xE000 then .low (n - 0xDC00)
  else .char (Char.ofNat n)

/-- The character after a backslash, apart from `u`. -/
def simpleEscape? (c : Char) : Option Char :=
  if c = '"' || c = '\\' || c = '/' then some c
  else if c = 'b' then some '\x08'
  else if c = 'f' then some '\x0c'
  else if c = 'n' then some '\n'
  else if c = 'r' then some '\r'
  else if c = 't' then some '\t'
  else none

/-- The elements of a string up to its closing quote. -/
def units? : Text → Option (List Unit16 × Text)
  | '"' :: rest => some ([], rest)
  | '\\' :: 'u' :: a :: b :: c :: d :: rest =>
      match hex4? a b c d with
      -- Halves of pairs are kept apart here and joined at the end.
      | some n => (units? rest).map fun (us, r) => (unitOf n :: us, r)
      | none => none
  | '\\' :: c :: rest =>
      match simpleEscape? c with
      | some e => (units? rest).map fun (us, r) => (.char e :: us, r)
      | none => none
  | c :: rest =>
      if c.toNat < 0x20 || c = '\\' then none
      else (units? rest).map fun (us, r) => (.char c :: us, r)
  | [] => none

/-- Joins surrogate pairs; a lone half has no text. -/
def joinUnits? : List Unit16 → Option Text
  | [] => some []
  | .char c :: us => (joinUnits? us).map (c :: ·)
  | .high h :: .low l :: us =>
      (joinUnits? us).map (Char.ofNat (0x10000 + h * 0x400 + l) :: ·)
  | _ => none

/-- A string after its opening quote. -/
def string? (t : Text) : Option (Option Text × Text) :=
  (units? t).map fun (us, r) => (joinUnits? us, r)

/-! ## Section 3: Values -/

mutual

/-- A value; `fuel` bounds the depth and the number of items. -/
def value? : Nat → Text → Option (Json × Text)
  | 0, _ => none
  | fuel + 1, t =>
      match dropSpace t with
      | '"' :: rest => (string? rest).map fun (s, r) => (.string s, r)
      | '[' :: rest =>
          match dropSpace rest with
          | ']' :: r => some (.array [], r)
          | _ => (items? fuel rest).map fun (xs, r) => (.array xs, r)
      | '{' :: rest =>
          match dropSpace rest with
          | '}' :: r => some (.object [], r)
          | _ => (members? fuel rest).map fun (xs, r) => (.object xs, r)
      | 'n' :: 'u' :: 'l' :: 'l' :: rest => some (.null, rest)
      | 't' :: 'r' :: 'u' :: 'e' :: rest => some (.bool true, rest)
      | 'f' :: 'a' :: 'l' :: 's' :: 'e' :: rest => some (.bool false, rest)
      | t => (number? t).map fun (n, r) => (.number n, r)

/-- One or more items up to the closing bracket. -/
def items? : Nat → Text → Option (List Json × Text)
  | 0, _ => none
  | fuel + 1, t =>
      match value? fuel t with
      | none => none
      | some (x, rest) =>
          match dropSpace rest with
          | ']' :: r => some ([x], r)
          | ',' :: r => (items? fuel r).map fun (xs, r) => (x :: xs, r)
          | _ => none

/-- One or more members up to the closing brace. -/
def members? : Nat → Text → Option (List (Option Text × Json) × Text)
  | 0, _ => none
  | fuel + 1, t =>
      match dropSpace t with
      | '"' :: rest =>
          match string? rest with
          | none => none
          | some (name, rest) =>
              match dropSpace rest with
              | ':' :: rest =>
                  match value? fuel rest with
                  | none => none
                  | some (x, rest) =>
                      match dropSpace rest with
                      | '}' :: r => some ([(name, x)], r)
                      | ',' :: r =>
                          (members? fuel r).map fun (xs, r) => ((name, x) :: xs, r)
                      | _ => none
              | _ => none
      | _ => none

end

/-- The value that a text holds, with nothing but white space around it. -/
def ofText? (t : Text) : Option Json :=
  match value? (t.length + 1) t with
  | some (x, rest) => if (dropSpace rest).isEmpty then some x else none
  | none => none

end Json
end ScriptDeps
