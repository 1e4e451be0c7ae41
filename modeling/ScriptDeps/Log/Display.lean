import ScriptDeps.Json.Printer
import ScriptDeps.Log.Filter
import ScriptDeps.Program
import ScriptDeps.Text.Literal

/-! # How events are shown

    An event is one line of the error stream, as text or as a JSON object.
    `Program.showingLogs` turns the events of a program into such lines. -/

namespace ScriptDeps
namespace Log

/-! ## Section 1: Lines -/

inductive Format where
  | text
  | json
deriving DecidableEq, Repr

/-- The format that settings name. -/
def Format.ofName (name : Text) : Format := if name = "json".toList then .json else .text

/-- The name of a level. -/
def Level.name : Level → Text
  | .info => "INFO".toList
  | .warn => "WARN".toList

/-- A character of a message; those that control a terminal are spelled out. -/
def safeChar (c : Char) : Text :=
  if c = '\x1b' || c = '\x07' || c = '\x08' || c = '\x0c' || c = '\x7f' then
    "\\x".toList ++ [Hex.digit (c.toNat / 16), Hex.digit (c.toNat % 16)]
  else if 0x80 ≤ c.toNat && c.toNat ≤ 0x9F then
    "\\u\x7b".toList ++ Hex.ofNat c.toNat ++ ['\x7d']
  else [c]

/-- A field as text. -/
def Field.text (f : Field) : Text :=
  ' ' :: f.name ++ '=' :: (if f.quoted then Literal.quote f.value else f.value)

/-- A field as a member of an object. -/
def Field.json (f : Field) : Text := Json.quote f.name ++ ':' :: Json.quote f.value

def Event.text (e : Event) : Text :=
  ' ' :: e.level.name ++ ' ' :: e.message.flatMap safeChar ++ e.fields.flatMap Field.text

def Event.json (e : Event) : Text :=
  "\x7b\"level\":".toList ++ Json.quote e.level.name ++ ",\"fields\":\x7b".toList
    ++ Cut.join [','] ((⟨"message".toList, e.message, true⟩ :: e.fields).map Field.json)
    ++ "\x7d\x7d".toList

/-! ## Section 2: Displays -/

structure Display where
  format : Format
  /-- Events of more detail are not shown. -/
  detail : Nat
deriving DecidableEq, Repr

/-- The detail for a count of verbosity: warnings, then everything. -/
def verboseDetail : Nat → Nat
  | 0 => 2
  | 1 => 3
  | _ => 4

/-- The display for a filter and a count of verbosity.  A filter that cannot
    be read does not count. -/
def Display.make (filter : Option Text) (verbose : Nat) (format : Format) : Display where
  format := format
  detail := ((filter.bind directives?).map detailOf).getD (verboseDetail verbose)

/-- The line of an event, if it is shown. -/
def Display.line? (d : Display) (e : Event) : Option Text :=
  if e.level.detail ≤ d.detail then
    some (match d.format with
      | .text => e.text
      | .json => e.json)
  else none

end Log

/-! ## Section 3: Programs -/

/-- The program with its events written to the error stream. -/
def Program.showingLogs {α : Type} (d : Log.Display) : Program α → Program α
  | .done a => .done a
  | .ask (.log e) next =>
      match d.line? e with
      | some line => .ask (.complain line) fun _ => (next ()).showingLogs d
      | none => (next ()).showingLogs d
  | .ask r next => .ask r fun x => (next x).showingLogs d

end ScriptDeps
