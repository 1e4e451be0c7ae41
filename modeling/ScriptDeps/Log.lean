import ScriptDeps.Path
import ScriptDeps.Text.Hex

/-! # Log events

    Everything worth telling the person behind the terminal, as data.  The
    wording, the level and the extra fields of each event are fixed here and
    nowhere else. -/

namespace ScriptDeps
namespace Log

/-! ## Section 1: Events -/

inductive Level where
  | info
  | warn
deriving DecidableEq, Repr

inductive Event where
  /-- The script uses `owner/repo` without the `@`. -/
  | bareShorthand
  /-- The script seems to declare an entry point by attribute. -/
  | entryAttribute
  /-- `~>` stands before something that is no version. -/
  | notAVersion (constraint : Text)
  /-- An annotated import line declares nothing. -/
  | lineDropped (line reason : Text)
  | settingsWritten (path : Path)
  | scriptKilled (signal : Int)
  | feedFailed (reason : Text)
  | markerFailed (path : Path) (reason : Text)
  | recordUnreadable (path : Path) (reason : Text)
  | recordCorrupt (path : Path) (reason : Text)
  | nothingToResolve
  | reusing (resolvedAt : Text)
  | recordNotSaved (reason : Text)
  | compiling (output : Path)
  | oddInvocation (args : List Text)
  | severalInvocations (previous : List Text)
  | resolutionInterrupted (signal : Text)
  | toolchainEnded (program status : Text)
  | undecodable (bytes : Bytes)
deriving DecidableEq, Repr

/-- A value attached to an event; `quoted` ones are shown as string literals. -/
structure Field where
  name   : Text
  value  : Text
  quoted : Bool
deriving DecidableEq, Repr

namespace Event

/-! ## Section 2: Wording -/

def level : Event → Level
  | lineDropped .. | settingsWritten _ | scriptKilled _ | nothingToResolve | reusing _
  | compiling _ | oddInvocation _ => .info
  | _ => .warn

def message : Event → Text
  | bareShorthand =>
      ("The \"github-username/repo-name\" format is deprecated; please use "
        ++ "\"@github-username/repo-name\" instead").toList
  | entryAttribute =>
      ("Possible @main detected. @main is not supported in scripts, call your main type directly "
        ++ "(for an AsyncParsableCommand: \x60_ = await Task\x7b await YourMainType.main() \x7d"
        ++ ".value\x60)").toList
  | notAVersion _ =>
      "Invalid constraint: \"~>\" requires a version, dropping import specification".toList
  | lineDropped .. => "Dropping import specification".toList
  | settingsWritten path => "Configuration written to " ++ path.display
  | scriptKilled signal => "Script received uncaught signal " ++ Decimal.ofInt signal
  | feedFailed reason => "Failed writing script to stdin: " ++ reason
  | markerFailed path reason => "Failed to create marker " ++ path.display ++ ": " ++ reason
  | recordUnreadable path reason => "Cannot read " ++ path.display ++ ": " ++ reason
  | recordCorrupt path reason => "Ignoring corrupt record " ++ path.display ++ ": " ++ reason
  | nothingToResolve => "No dependencies declared, running the script directly".toList
  | reusing resolvedAt => "Reusing invocation resolved at " ++ resolvedAt
  | recordNotSaved reason => "Cannot record resolved invocation: " ++ reason
  | compiling output => "Compiling to " ++ output.display
  | oddInvocation args => "Suspicious REPL arguments: " ++ Cut.join [' '] args
  | severalInvocations previous =>
      "Got multiple lines matching REPL arguments, taking the last one (previous: "
        ++ Cut.join [' '] previous ++ ")"
  | resolutionInterrupted signal => "Dependency resolution interrupted by " ++ signal
  | toolchainEnded program status => program ++ " exited unexpectedly: " ++ status
  | undecodable bytes => "Non UTF-8 toolchain output: " ++ Hex.ofBytes bytes

/-- The values attached to an event besides its message. -/
def fields : Event → List Field
  | notAVersion constraint => [⟨"constraint".toList, constraint, true⟩]
  | lineDropped line reason => [⟨"line".toList, line, true⟩, ⟨"reason".toList, reason, false⟩]
  | _ => []

end Event

/-! ## Section 3: Saying something once -/

/-- The notices that a run gives at most once. -/
structure Given where
  bareShorthand  : Bool := false
  entryAttribute : Bool := false
deriving DecidableEq, Repr, Inhabited

/-- Whether `e` was given before and is not to be repeated. -/
def Given.blocks (g : Given) : Event → Bool
  | .bareShorthand => g.bareShorthand
  | .entryAttribute => g.entryAttribute
  | _ => false

/-- What has been given once `e` is. -/
def Given.note (g : Given) : Event → Given
  | .bareShorthand => { g with bareShorthand := true }
  | .entryAttribute => { g with entryAttribute := true }
  | _ => g

/-- Drops repeated notices from a sequence of events. -/
def Given.limit (g : Given) : List Event → Given × List Event
  | [] => (g, [])
  | e :: es =>
      let (g', rest) := (g.note e).limit es
      (g', if g.blocks e then rest else e :: rest)

theorem Given.limit_append (g : Given) (es fs : List Event) :
    g.limit (es ++ fs) =
      (((g.limit es).1.limit fs).1, (g.limit es).2 ++ ((g.limit es).1.limit fs).2) := by
  induction es generalizing g with
  | nil => simp [limit]
  | cons e es ih =>
    simp only [List.cons_append, limit, ih]
    by_cases h : g.blocks e <;> simp [h]

end Log
end ScriptDeps
