import ScriptDeps.Failure
import ScriptDeps.Log
import ScriptDeps.Text.Cut

/-! # Capturing the invocation

    While the toolchain builds the dependencies, its terminal and its error
    stream are read line by line, and signals that arrive are passed on to
    it.  At some point it shows the command line of its interactive mode on
    the terminal; the arguments of the last such line are what a script needs
    to be run with the dependencies.

    A `Capture` is the state of this reading and `step` takes one event.
    Everything that may happen, in whatever order, is a list of events. -/

namespace ScriptDeps

/-! ## Section 1: The line that shows the arguments -/

namespace Interactive

/-- What stands between a program's name and the arguments. -/
def marker : Text := ": repl ".toList

/-- The arguments shown in a line: what follows the last marker, if something
    stands before the marker and after it. -/
def ofLine? (line : Text) : Option (List Text) :=
  match Cut.splitAtLast? marker line with
  | some (before, rest) =>
      if before.isEmpty || rest.isEmpty then none else some (Cut.words (· = ' ') rest)
  | none => none

end Interactive

/-! ## Section 2: Bytes to lines -/

namespace Line

/-- The complete lines in `bytes`, with their line feeds, and what follows
    the last of them. -/
def complete : Bytes → List Bytes × Bytes
  | [] => ([], [])
  | b :: rest =>
      let (ls, tail) := complete rest
      if b = 0x0A then ([b] :: ls, tail)
      else match ls with
        | [] => ([], b :: tail)
        | l :: ls => ((b :: l) :: ls, tail)

/-- A line without its line feed and one carriage return before it. -/
def trimEnd (line : Bytes) : Bytes :=
  let line := (Cut.before? [0x0A] line).getD line
  (Cut.before? [0x0D] line).getD line

end Line

/-- What a terminal makes of bytes written to it: each line feed is preceded
    by a carriage return. -/
def terminalOutput (bytes : Bytes) : Bytes :=
  bytes.flatMap fun b => if b = 0x0A then [0x0D, 0x0A] else [b]

/-! ## Section 3: Model -/

/-- The state of the reading. -/
structure Capture where
  terminalOpen : Bool := true
  errorsOpen   : Bool := true
  /-- The unfinished last line of each stream. -/
  terminalRest : Bytes := []
  errorsRest   : Bytes := []
  /-- The arguments shown last. -/
  invocation   : Option (List Text) := none
  errorLines   : List Text := []
  /-- The signals passed on, in order. -/
  forwarded    : List Signal := []
  ending       : Option Ending := none
  events       : List Log.Event := []
deriving Repr

namespace Capture

inductive Event where
  | terminal (chunk : Bytes)
  | errors (chunk : Bytes)
  | terminalEnd
  | errorsEnd
  | signal (s : Signal)
  | exited (e : Ending)
deriving DecidableEq, Repr

/-- Whether a stream is still open; signals are passed on while one is. -/
def isListening (c : Capture) : Bool := c.terminalOpen || c.errorsOpen

/-- Takes one line of the terminal. -/
def terminalLine (c : Capture) (line : Bytes) : Capture :=
  match Utf8.decode (Line.trimEnd line) with
  | none => { c with events := c.events ++ [.undecodable line] }
  | some t =>
      match Interactive.ofLine? t with
      | none => c
      | some args =>
          { c with
            invocation := some args
            events := c.events ++ match c.invocation with
              | some previous => [.severalInvocations previous]
              | none => [] }

/-- Takes one line of the error stream. -/
def errorLine (c : Capture) (line : Bytes) : Capture :=
  { c with errorLines := c.errorLines ++ [Utf8.decodeLossy (Line.trimEnd line)] }

/-- Takes one event.  At the end of the terminal an unfinished line is lost,
    at the end of the error stream it counts. -/
def step (c : Capture) : Event → Capture
  | .terminal chunk =>
      if c.terminalOpen then
        let (ls, rest) := Line.complete (c.terminalRest ++ chunk)
        ls.foldl terminalLine { c with terminalRest := rest }
      else c
  | .errors chunk =>
      if c.errorsOpen then
        let (ls, rest) := Line.complete (c.errorsRest ++ chunk)
        ls.foldl errorLine { c with errorsRest := rest }
      else c
  | .terminalEnd => { c with terminalOpen := false, terminalRest := [] }
  | .errorsEnd =>
      let c' := if c.errorsRest.isEmpty then c else c.errorLine c.errorsRest
      { c' with errorsOpen := false, errorsRest := [] }
  | .signal s =>
      if c.isListening then { c with forwarded := c.forwarded ++ [s.forwarded] } else c
  | .exited e => { c with ending := some e }

/-- The state after all of `es`. -/
def run (es : List Event) : Capture := es.foldl step {}

/-! ## Section 4: The result -/

/-- The outcome of a finished reading: the arguments or the failure, and the
    events that go with it.  An end that is not reported counts as good. -/
def result (c : Capture) (program : Text) : Except Failure (List Text) × List Log.Event :=
  let failure := Failure.resolution (Cut.join ['\n'] c.errorLines)
  match c.forwarded.getLast? with
  -- A signal counts for more than whatever the toolchain did.
  | some s => (.error (.interrupted s.number), [.resolutionInterrupted s.name])
  | none =>
      let ending := c.ending.getD (.exited 0)
      if ending.isTolerated then
        match c.invocation with
        | some args => (.ok args, [])
        | none => (.error failure, [])
      else (.error failure, [.toolchainEnded program ending.text])

theorem run_append (es fs : List Event) : run (es ++ fs) = fs.foldl step (run es) := by
  simp [run]

end Capture
end ScriptDeps
