import ScriptDeps.IoError
import ScriptDeps.Log

/-! # Feeding a child

    A script that has no file is written to a pipe that is the standard input
    of the child, one piece after another, while the child runs.  The child
    may read less than all of it, and the writing ends with the child.

    A `Feeding` is the state of the writer, the pipe and the reader, and
    `step` takes one event.  Everything that may happen, in whatever order,
    is a list of events. -/

namespace ScriptDeps

/-! ## Section 1: Model -/

/-- The state of the feeding. -/
structure Feeding where
  /-- The pieces that are not written whole; the first may be in part. -/
  pending  : List Bytes
  /-- What has been written and not been read. -/
  pipe     : Bytes := []
  /-- What the child has read. -/
  received : Bytes := []
  /-- Whether the writer holds its end of the pipe. -/
  writing  : Bool := true
  /-- Whether the child holds its end. -/
  reading  : Bool := true
  /-- Whether the child has been told that nothing follows. -/
  sawEnd   : Bool := false
  events   : List Log.Event := []
deriving DecidableEq, Repr

namespace Feeding

inductive Event where
  /-- The pipe takes `n` bytes of the piece that is being written. -/
  | written (n : Nat)
  /-- The pipe refuses to take any. -/
  | refused (e : IoError)
  /-- The writer closes its end after the last piece. -/
  | closed
  /-- The child asks for up to `n` bytes. -/
  | read (n : Nat)
  /-- The child closes its end. -/
  | hungUp
deriving DecidableEq, Repr

/-! ## Section 2: Pieces -/

/-- The size of a piece. -/
def pieceSize : Nat := 16 * 1024

/-- What is written, piece by piece; only the last may be smaller. -/
def pieces (content : Bytes) : List Bytes :=
  if content.isEmpty then []
  else content.take pieceSize :: pieces (content.drop pieceSize)
termination_by content.length
decreasing_by
  have hpos : 0 < content.length := by
    cases content with
    | nil => contradiction
    | cons b bs => exact Nat.succ_pos _
  rw [List.length_drop]
  exact Nat.sub_lt hpos (by decide)

/-! ## Section 3: Steps -/

/-- The state in front of everything. -/
def start (content : Bytes) : Feeding := { pending := pieces content }

/-- The pipe takes `n` bytes. -/
def write (f : Feeding) (n : Nat) : Feeding :=
  match f.pending with
  | [] => f
  | piece :: rest =>
      if f.writing && f.reading then
        { f with
          pending := if (piece.drop n).isEmpty then rest else piece.drop n :: rest
          pipe := f.pipe ++ piece.take n }
      else f

/-- The pipe takes none: the writer gives up.  A child that reads no more is
    no reason to say so. -/
def refuse (f : Feeding) (e : IoError) : Feeding :=
  if f.writing && !f.pending.isEmpty then
    { f with
      writing := false
      events := if e = .brokenPipe then f.events else f.events ++ [.feedFailed e.text] }
  else f

/-- The child reads what is there; it waits where nothing is, as long as more
    may be written. -/
def receive (f : Feeding) (n : Nat) : Feeding :=
  if !f.reading then f
  else if f.pipe.isEmpty then { f with sawEnd := f.sawEnd || !f.writing }
  else { f with received := f.received ++ f.pipe.take n, pipe := f.pipe.drop n }

/-- The writer closes its end once nothing is left to write. -/
def close (f : Feeding) : Feeding :=
  if f.pending.isEmpty then { f with writing := false } else f

def step (f : Feeding) : Event → Feeding
  | .written n => f.write n
  | .refused e => f.refuse e
  | .closed => f.close
  | .read n => f.receive n
  | .hungUp => { f with reading := false }

/-- The state once the child has ended after `es`.  What has not been written
    by then is given up. -/
def run (content : Bytes) (es : List Event) : Feeding :=
  { es.foldl step (start content) with writing := false, reading := false }

/-! ## Section 4: Reading to the end -/

/-- Every piece is written and read whole, and then the end. -/
def toEnd (content : Bytes) : List Event :=
  (pieces content).flatMap (fun piece => [.written piece.length, .read piece.length]) ++
    [.closed, .read 1]

end Feeding
end ScriptDeps
