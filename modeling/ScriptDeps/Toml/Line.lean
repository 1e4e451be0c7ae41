import ScriptDeps.Toml.Number
import ScriptDeps.Toml.Quoted
import ScriptDeps.Toml.Table

/-! # The lines of a TOML document

    A document is a sequence of headers and of keys with their values.
    `Line.many?` reads them without asking whether they agree; how they make
    up one table is said in `Toml.Document`.  A value may go on over several
    physical lines.  The text read here has no carriage return before a line
    feed, and its last line ends with a line feed. -/

namespace ScriptDeps
namespace Toml

/-! ## Section 1: Space and comments -/

def isSpace (c : Char) : Bool := c = ' ' || c = '\t'

def dropSpace (t : Text) : Text := t.dropWhile isSpace

/-- A character that a comment may hold. -/
def isCommentChar (c : Char) : Bool := c != '\n' && !Quoted.isForbidden c

/-- Drops space, line ends and whole comments; inside a comment if the first
    argument says so. -/
def dropFiller : Bool → Text → Option Text
  | false, c :: rest =>
      if isSpace c || c = '\n' then dropFiller false rest
      else if c = '#' then dropFiller true rest
      else some (c :: rest)
  | true, c :: rest =>
      if c = '\n' then dropFiller false rest
      else if isCommentChar c then dropFiller true rest
      else none
  | true, [] => none
  | false, [] => some []

/-- Drops space and a comment, up to and with the end of the line. -/
def endLine? (t : Text) : Option Text :=
  let t := match dropSpace t with
    | '#' :: rest => rest.dropWhile isCommentChar
    | t => t
  match t with
  | '\n' :: rest => some rest
  | _ => none

/-! ## Section 2: Keys -/

/-- A character that a key may hold without quotes. -/
def isKeyChar (c : Char) : Bool := Text.isLetterOrDigit c || c = '_' || c = '-'

/-- One part of a key. -/
def keyPart? (t : Text) : Option (Text × Text) :=
  match t with
  | '"' :: _ | '\'' :: _ => Quoted.readLine? t
  | _ =>
      let (name, rest) := t.span isKeyChar
      if name.isEmpty then none else some (name, rest)

/-- The parts of a key, with dots and space between them and space around
    them.  There is room for `fuel` parts. -/
def keyParts? : Nat → Text → Option (List Text × Text)
  | 0, _ => none
  | fuel + 1, t =>
      match keyPart? (dropSpace t) with
      | none => none
      | some (name, rest) =>
          match dropSpace rest with
          | '.' :: rest => (keyParts? fuel rest).map fun (names, r) => (name :: names, r)
          | rest => some ([name], rest)

/-- The largest number of parts of a key, and of brackets inside brackets. -/
def maxDepth : Nat := 79

def key? (t : Text) : Option (Key × Text) := do
  let (names, rest) ← keyParts? maxDepth t
  return (⟨names.dropLast, ← names.getLast?⟩, rest)

/-! ## Section 3: Values -/

/-- The items of an array after its bracket. -/
def items? (one : Text → Option (Value × Text)) : Nat → Text → Option (List Value × Text)
  | 0, _ => none
  | fuel + 1, t =>
      match dropFiller false t with
      | none => none
      -- Also after a comma: the last item may have one.
      | some (']' :: rest) => some ([], rest)
      | some t =>
          match one t with
          | none => none
          | some (v, rest) =>
              match dropFiller false rest with
              | some (']' :: rest) => some ([v], rest)
              | some (',' :: rest) => (items? one fuel rest).map fun (vs, r) => (v :: vs, r)
              | _ => none

/-- A key with its value, and what follows it. -/
def pair? (one : Text → Option (Value × Text)) (t : Text) : Option ((Key × Value) × Text) :=
  match key? t with
  | some (k, '=' :: rest) => (one (dropSpace rest)).map fun (v, r) => ((k, v), r)
  | _ => none

/-- One or more keys with values, up to the closing brace. -/
def pairs? (one : Text → Option (Value × Text)) : Nat → Text → Option (List (Key × Value) × Text)
  | 0, _ => none
  | fuel + 1, t =>
      match pair? one t with
      | none => none
      | some (p, rest) =>
          match dropSpace rest with
          | '\x7d' :: rest => some ([p], rest)
          | ',' :: rest => (pairs? one fuel rest).map fun (ps, r) => (p :: ps, r)
          | _ => none

/-- The table that keys between braces make up. -/
def tableOf? (ps : List (Key × Value)) : Option Value :=
  (ps.foldlM (fun rows p => Rows.addKey? p.1 p.2 rows) []).map (.table .closed)

/-- A table after its brace. -/
def braces? (one : Text → Option (Value × Text)) (t : Text) : Option (Value × Text) :=
  match dropSpace t with
  | '\x7d' :: rest => some (.table .closed [], rest)
  | t => do
      let (ps, rest) ← pairs? one t.length t
      return (← tableOf? ps, rest)

/-- A value that is neither array nor table. -/
def scalar? (t : Text) : Option (Value × Text) :=
  match t with
  | '"' :: _ | '\'' :: _ => (Quoted.read? t).map fun (s, r) => (.text s, r)
  | 't' :: 'r' :: 'u' :: 'e' :: rest => some (.bool true, rest)
  | 'f' :: 'a' :: 'l' :: 's' :: 'e' :: rest => some (.bool false, rest)
  | _ => number? t

/-- A value with brackets inside brackets up to `depth`. -/
def value? : Nat → Text → Option (Value × Text)
  | 0, t =>
      match t with
      | '[' :: _ | '\x7b' :: _ => none
      | _ => scalar? t
  | depth + 1, t =>
      match t with
      | '[' :: rest => (items? (value? depth) rest.length rest).map fun (vs, r) => (.array vs, r)
      | '\x7b' :: rest => braces? (value? depth) rest
      | _ => scalar? t

/-! ## Section 4: Lines -/

inductive Line where
  /-- `[a.b]` -/
  | header (k : Key)
  /-- `[[a.b]]` -/
  | element (k : Key)
  /-- `a.b = 1` -/
  | pair (k : Key) (v : Value)

namespace Line

/-- One line that is not blank. -/
def one? (t : Text) : Option (Line × Text) :=
  match t with
  | '[' :: '[' :: rest =>
      match key? rest with
      | some (k, ']' :: ']' :: rest) => (endLine? rest).map fun r => (.element k, r)
      | _ => none
  | '[' :: rest =>
      match key? rest with
      | some (k, ']' :: rest) => (endLine? rest).map fun r => (.header k, r)
      | _ => none
  | _ =>
      match pair? (value? maxDepth) t with
      | some ((k, v), rest) => (endLine? rest).map fun r => (.pair k v, r)
      | none => none

/-- The lines of a text, of which there is room for `fuel`. -/
def many? : Nat → Text → Option (List Line)
  | 0, _ => none
  | fuel + 1, t =>
      match dropFiller false t with
      | none => none
      | some [] => some []
      | some t =>
          match one? t with
          | some (line, rest) => (many? fuel rest).map (line :: ·)
          | none => none

end Line
end Toml
end ScriptDeps
