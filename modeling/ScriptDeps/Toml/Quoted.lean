import ScriptDeps.Text.Hex

/-! # TOML strings

    A string is written in one of four ways: on one line or as a block, and
    with escapes or literally.  `Quoted.write` takes the first way, in a fixed
    order of preference, that needs no escapes; `Quoted.read?` reads all four.
    Lines end with a line feed alone. -/

namespace ScriptDeps
namespace Toml
namespace Quoted

/-! ## Section 1: Ways of writing -/

inductive Style where
  /-- `"…"` on one line, with escapes. -/
  | basic
  /-- `'…'` on one line, as it is. -/
  | literal
  /-- Three double quotes on either side, with escapes. -/
  | basicBlock
  /-- Three single quotes on either side, as it is. -/
  | literalBlock
deriving DecidableEq, Repr

/-- A control character that no string holds as it is. -/
def isForbidden (c : Char) : Bool :=
  (c.toNat < 0x20 && c != '\t' && c != '\n') || c.toNat = 0x7F

/-- The length of the longest run of `q`, given the length of the run that
    stands before the text. -/
def longestRun (q : Char) : Nat → Text → Nat
  | run, [] => run
  | run, c :: rest =>
      if c = q then longestRun q (run + 1) rest else max run (longestRun q 0 rest)

/-- The way in which `t` is written. -/
def style (t : Text) : Style :=
  let forbidden := t.any isForbidden
  let escapes := forbidden || t.any (· = '\\')
  let broken := t.any (· = '\n')
  let doubles := longestRun '"' 0 t
  let singles := longestRun '\'' 0 t
  if !escapes && doubles = 0 && !broken then .basic
  else if !forbidden && singles = 0 && !broken then .literal
  -- Two quotes in a row do not end a block, three would.
  else if !escapes && doubles ≤ 2 then .basicBlock
  else if !forbidden && singles ≤ 2 then .literalBlock
  else if broken then .basicBlock
  else .basic

/-! ## Section 2: Writing -/

/-- The upper case hexadecimal digit of a value below sixteen. -/
def upperDigit (n : Nat) : Char :=
  if n < 10 then Char.ofNat (48 + n) else Char.ofNat (55 + n)

/-- How a character other than a quote is written among escapes; a block
    keeps its line feeds. -/
def escapeChar (block : Bool) (c : Char) : Text :=
  if c = '\\' then ['\\', '\\']
  else if c = '\x08' then ['\\', 'b']
  else if c = '\t' then ['\\', 't']
  else if c = '\n' then (if block then ['\n'] else ['\\', 'n'])
  else if c = '\x0c' then ['\\', 'f']
  else if c = '\r' then ['\\', 'r']
  else if isForbidden c then
    ['\\', 'u', '0', '0', upperDigit (c.toNat / 16), upperDigit (c.toNat % 16)]
  else [c]

/-- The characters of a string with escapes.  Up to `allowed` double quotes in
    a row stand as they are; `run` of them stand before the text. -/
def escape (block : Bool) (allowed : Nat) : Nat → Text → Text
  | _, [] => []
  | run, c :: rest =>
      if c = '"' then
        if run < allowed then '"' :: escape block allowed (run + 1) rest
        else '\\' :: '"' :: escape block allowed 0 rest
      else escapeChar block c ++ escape block allowed 0 rest

/-- Three quotes. -/
def triple (q : Char) : Text := [q, q, q]

/-- A line feed after the opening quotes, where the text has one itself. -/
def opening (t : Text) : Text := if t.any (· = '\n') then ['\n'] else []

def writeAs : Style → Text → Text
  | .basic, t => '"' :: escape false 0 0 t ++ ['"']
  | .literal, t => '\'' :: t ++ ['\'']
  | .basicBlock, t => triple '"' ++ opening t ++ escape true 2 0 t ++ triple '"'
  | .literalBlock, t => triple '\'' ++ opening t ++ t ++ triple '\''

/-- A text as a string. -/
def write (t : Text) : Text := writeAs (style t) t

/-! ## Section 3: Reading -/

/-- Where a reader stands in a string with escapes. -/
inductive Spot where
  | plain
  /-- After a backslash. -/
  | escaped
  /-- In a code point: the digits to come, less one, and the value so far. -/
  | code (left value : Nat)
  /-- After a backslash that skips to the next line; `broken` says whether
      that line is reached. -/
  | skipping (broken : Bool)
deriving DecidableEq, Repr

/-- The character after a backslash, apart from code points. -/
def simpleEscape? (c : Char) : Option Char :=
  if c = '"' || c = '\\' then some c
  else if c = 'b' then some '\x08'
  else if c = 't' then some '\t'
  else if c = 'n' then some '\n'
  else if c = 'f' then some '\x0c'
  else if c = 'r' then some '\r'
  else none

/-- What a reader makes of one more character. -/
inductive Advance where
  | emit (c : Char)
  | move (s : Spot)
  | stop
deriving DecidableEq, Repr

/-- Takes a character after a backslash. -/
def Spot.afterBackslash (block : Bool) (c : Char) : Advance :=
  match simpleEscape? c with
  | some e => .emit e
  | none =>
      if c = 'u' then .move (.code 3 0)
      else if c = 'U' then .move (.code 7 0)
      else if block && (c = ' ' || c = '\t') then .move (.skipping false)
      else if block && c = '\n' then .move (.skipping true)
      else .stop

/-- Takes a digit of a code point. -/
def Spot.inCode (left value : Nat) (c : Char) : Advance :=
  match Hex.value? c with
  | none => .stop
  | some d =>
      if left = 0 then
        if (value * 16 + d).isValidChar then .emit (Char.ofNat (value * 16 + d)) else .stop
      else .move (.code (left - 1) (value * 16 + d))

/-- Takes a character that is neither a quote nor a backslash. -/
def takePlain (block : Bool) (c : Char) : Advance :=
  if isForbidden c || (c = '\n' && !block) then .stop else .emit c

/-- Puts a character before what is read after it. -/
def push (c : Char) (r : Option (Text × Text)) : Option (Text × Text) :=
  r.map fun (t, rest) => (c :: t, rest)

/-- A string with escapes on one line, after its opening quote. -/
def basic? : Spot → Text → Option (Text × Text)
  | _, [] => none
  | .plain, '"' :: rest => some ([], rest)
  | .plain, '\\' :: rest => basic? .escaped rest
  | .plain, c :: rest =>
      match takePlain false c with
      | .emit e => push e (basic? .plain rest)
      | _ => none
  | .escaped, c :: rest =>
      match Spot.afterBackslash false c with
      | .emit e => push e (basic? .plain rest)
      | .move s => basic? s rest
      | .stop => none
  | .code left value, c :: rest =>
      match Spot.inCode left value c with
      | .emit e => push e (basic? .plain rest)
      | .move s => basic? s rest
      | .stop => none
  | .skipping _, _ :: _ => none

/-- A literal string on one line, after its opening quote. -/
def literal? : Text → Option (Text × Text)
  | [] => none
  | '\'' :: rest => some ([], rest)
  | c :: rest =>
      match takePlain false c with
      | .emit e => push e (literal? rest)
      | _ => none

/-- The quotes that belong to a block whose closing quotes have been read, and
    what follows.  Up to two quotes may stand before the closing ones. -/
def closing (q : Char) : Text → Text × Text
  | a :: b :: rest =>
      if a = q && b = q then ([q, q], rest)
      else if a = q then ([q], b :: rest)
      else ([], a :: b :: rest)
  | [a] => if a = q then ([q], []) else ([], [a])
  | [] => ([], [])

/-- A block with escapes, after its opening quotes. -/
def basicBlock? : Spot → Text → Option (Text × Text)
  | _, [] => none
  | .plain, '"' :: '"' :: '"' :: rest => some (closing '"' rest)
  | .plain, '\\' :: rest => basicBlock? .escaped rest
  | .plain, c :: rest =>
      match takePlain true c with
      | .emit e => push e (basicBlock? .plain rest)
      | _ => none
  | .escaped, c :: rest =>
      match Spot.afterBackslash true c with
      | .emit e => push e (basicBlock? .plain rest)
      | .move s => basicBlock? s rest
      | .stop => none
  | .code left value, c :: rest =>
      match Spot.inCode left value c with
      | .emit e => push e (basicBlock? .plain rest)
      | .move s => basicBlock? s rest
      | .stop => none
  | .skipping broken, c :: rest =>
      if c = '\n' then basicBlock? (.skipping true) rest
      else if c = ' ' || c = '\t' then basicBlock? (.skipping broken) rest
      else if !broken then none
      -- The text goes on at the first character that is no blank.
      else if c = '\\' then basicBlock? .escaped rest
      else if c = '"' then
        match rest with
        | '"' :: '"' :: r => some (closing '"' r)
        | _ => push '"' (basicBlock? .plain rest)
      else match takePlain true c with
        | .emit e => push e (basicBlock? .plain rest)
        | _ => none

/-- A literal block, after its opening quotes. -/
def literalBlock? : Text → Option (Text × Text)
  | [] => none
  | '\'' :: '\'' :: '\'' :: rest => some (closing '\'' rest)
  | c :: rest =>
      match takePlain true c with
      | .emit e => push e (literalBlock? rest)
      | _ => none

/-- Drops the line feed right after the opening quotes of a block. -/
def dropOpening : Text → Text
  | '\n' :: rest => rest
  | t => t

/-- A string on one line. -/
def readLine? : Text → Option (Text × Text)
  | '"' :: rest => basic? .plain rest
  | '\'' :: rest => literal? rest
  | _ => none

/-- A string written in any of the four ways. -/
def read? : Text → Option (Text × Text)
  | '"' :: '"' :: '"' :: rest => basicBlock? .plain (dropOpening rest)
  | '\'' :: '\'' :: '\'' :: rest => literalBlock? (dropOpening rest)
  | t => readLine? t

end Quoted
end Toml
end ScriptDeps
