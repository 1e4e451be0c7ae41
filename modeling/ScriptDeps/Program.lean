import ScriptDeps.FileSystem.Tree
import ScriptDeps.Toolchain.Capture
import ScriptDeps.Toolchain.Feeding

/-! # Programs

    A program is a value: it is done, or it asks its surroundings for one
    thing and goes on with the answer.  Each request is one atomic step, so
    a program can be run to its end, stopped between two steps, or run
    together with another one. -/

namespace ScriptDeps

/-! ## Section 1: Requests -/

/-- What a look at a path shows. -/
structure Status where
  kind     : Kind
  size     : Nat
  modified : Instant
deriving DecidableEq, Repr

/-- Where a started program reads its standard input from. -/
inductive Input where
  | inherited
  | closed
  | fed (bytes : Bytes)
deriving DecidableEq, Repr

/-- How the run of a started program went. -/
structure Execution where
  /-- The signals that arrived meanwhile; each is passed on. -/
  signals : List Signal
  ending  : Ending
  /-- What there is to tell about its standard input. -/
  events  : List Log.Event := []
deriving DecidableEq, Repr

inductive Request where
  | read (p : Path)
  | write (p : Path) (content : Bytes)
  | makeDirectories (p : Path)
  | isPresent (p : Path)
  | isDirectory (p : Path)
  /-- Looks at what a path leads to; a link at its end is followed if
      `follow` says so. -/
  | status (p : Path) (follow : Bool)
  | removeFile (p : Path)
  | removeTree (p : Path)
  | link (target p : Path)
  | readLink (p : Path)
  | list (p : Path)
  | walk (p : Path)
  /-- Makes a new, empty file in the directory for temporary files, for its
      owner alone; its name is not in use and stands between `front` and `back`. -/
  | temporary (front back : Text)
  /-- Sets who may read and write what a path leads to. -/
  | setMode (p : Path) (mode : Nat)
  /-- Whether the current directory can be told; what it is belongs to the
      environment. -/
  | workingDirectory
  | standardInput
  | now
  | log (e : Log.Event)
  /-- Writes a line to standard output. -/
  | say (line : Text)
  /-- Writes a line to the error stream. -/
  | complain (line : Text)
  /-- Shows what a slow step is doing. -/
  | progress (what : Text)
  /-- Starts the toolchain on a terminal and reads it to its end. -/
  | capture (call : Call)
  | execute (call : Call) (input : Input)
deriving DecidableEq, Repr

/-- The type of the answer to a request. -/
@[reducible] def Request.Answer : Request → Type
  | read _ => Except IoError Bytes
  | write .. | makeDirectories _ | removeFile _ | removeTree _ | link .. => Except IoError Unit
  | setMode .. | workingDirectory => Except IoError Unit
  | isPresent _ | isDirectory _ => Bool
  | status .. => Except IoError Status
  | readLink _ => Except IoError Path
  | list _ => Except IoError (List Name)
  | walk _ => List Visit
  | temporary .. => Except IoError Path
  | standardInput => Except IoError Bytes
  | now => Instant
  | log _ | say _ | complain _ | progress _ => Unit
  | capture _ => Except IoError (List Capture.Event)
  | execute .. => Except IoError Execution

/-! ## Section 2: Programs -/

inductive Program (α : Type) : Type where
  | done (a : α)
  | ask (r : Request) (next : r.Answer → Program α)

namespace Program

variable {α β γ : Type}

/-- Runs `p` and then what `f` makes of its result. -/
def bind : Program α → (α → Program β) → Program β
  | done a, f => f a
  | ask r next, f => ask r fun x => (next x).bind f

instance : Monad Program where
  pure := done
  bind := bind

/-- Makes one request. -/
def request (r : Request) : Program r.Answer := ask r done

@[simp] theorem pure_eq (a : α) : (pure a : Program α) = done a := rfl

@[simp] theorem bind_eq (p : Program α) (f : α → Program β) : (p >>= f) = p.bind f := rfl

@[simp] theorem done_bind (a : α) (f : α → Program β) : (done a).bind f = f a := rfl

@[simp] theorem ask_bind (r : Request) (next : r.Answer → Program α) (f : α → Program β) :
    (ask r next).bind f = ask r fun x => (next x).bind f := rfl

theorem bind_done (p : Program α) : p.bind done = p := by
  induction p with
  | done a => rfl
  | ask r next ih => simp [ih]

theorem bind_assoc (p : Program α) (f : α → Program β) (g : β → Program γ) :
    (p.bind f).bind g = p.bind fun a => (f a).bind g := by
  induction p with
  | done a => rfl
  | ask r next ih => simp [ih]

end Program

/-! ## Section 3: Actions -/

/-- A program that may fail. -/
abbrev Action := ExceptT Failure Program

namespace Action

variable {α : Type}

/-- Makes a request that cannot fail. -/
def ask (r : Request) : Action r.Answer := ExceptT.lift (Program.request r)

/-- Ends with `f` if `x` is an error. -/
def orFail (x : Except IoError α) (f : IoError → Failure) : Action α :=
  match x with
  | .ok a => pure a
  | .error e => throw (f e)

/-- Logs events in order. -/
def logAll : List Log.Event → Action PUnit
  | [] => pure ()
  | e :: es => do
      ask (.log e)
      logAll es

/-- Runs `p`; if that fails, runs `cleanup` and fails all the same. -/
def orUndo (p : Action α) (cleanup : Program PUnit) : Action α :=
  ExceptT.mk (p.run.bind fun
    | .ok a => .done (.ok a)
    | .error e => cleanup.bind fun _ => .done (.error e))

/-- Runs `p`, then `cleanup` whether `p` failed or not. -/
def thenAlways (p : Action α) (cleanup : Program PUnit) : Action α :=
  ExceptT.mk (p.run.bind fun x => cleanup.bind fun _ => .done x)

end Action
end ScriptDeps
