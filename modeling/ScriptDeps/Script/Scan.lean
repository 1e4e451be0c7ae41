import ScriptDeps.Annotation
import ScriptDeps.Digest

/-! # Scanning a script

    A script is read once, line by line.  The scan yields its dependencies in
    order, the digest of all its bytes, and the events of its lines.  Lines
    that are not UTF-8 count for the digest alone. -/

namespace ScriptDeps
namespace Script

/-! ## Section 1: Lines -/

/-- The lines of `bytes`, each with the line feed that ends it. -/
def lines : Bytes → List Bytes
  | [] => []
  | b :: rest =>
      if b = 0x0A then [b] :: lines rest
      else match lines rest with
        | [] => [[b]]
        | line :: more => (b :: line) :: more

/-- Whether a line holds the attribute `@main` as a word. -/
def marksEntry (line : Text) : Bool :=
  (Cut.words Text.isBlank line).contains "@main".toList

/-- The text of a line without the line ends at its end. -/
def lineText? (line : Bytes) : Option Text :=
  (Utf8.decode line).map (Cut.trimEnd fun c => c = '\n' || c = '\r')

/-! ## Section 2: The scan -/

/-- What lines are read against. -/
structure Context where
  place       : Origin.Place
  toolVersion : Version

/-- The dependency of one line, if any, and its events. -/
def readLine (ctx : Context) (line : Bytes) : Option Dependency × List Log.Event :=
  match lineText? line with
  | none => (none, [])
  | some t =>
      let (reading, events) := LineReading.ofLine ctx.place ctx.toolVersion t
      (reading.dependency?, (if marksEntry t then [.entryAttribute] else []) ++ events)

/-- The result of a scan. -/
structure Scan where
  dependencies : List Dependency
  hash         : Text
  /-- The events of all lines; notices are not yet limited to one each. -/
  events       : List Log.Event
deriving Repr

/-- Scans a whole script. -/
def scan (ctx : Context) (content : Bytes) : Scan :=
  let readings := (lines content).map (readLine ctx)
  ⟨readings.filterMap Prod.fst, sha256Hex content, readings.flatMap Prod.snd⟩

/-! ## Section 3: Laws -/

@[simp] theorem flatten_lines (bytes : Bytes) : (lines bytes).flatten = bytes := by
  induction bytes with
  | nil => simp [lines]
  | cons b rest ih =>
    rw [lines]
    by_cases h : b = 0x0A
    · simp [h, ih]
    · rw [if_neg h]
      cases hl : lines rest with
      | nil => rw [hl] at ih; simp at ih; simp [← ih]
      | cons line more => rw [hl] at ih; simp at ih; simp [← ih]

end Script
end ScriptDeps
