import ScriptDeps.FileSystem.Change
import ScriptDeps.Program

/-! # Running programs

    A machine holds a file system and what has been seen of a run so far.
    Everything outside it that a program may depend on (the time, the
    standard input, how toolchains behave) is a `Host`, fixed for one run.
    `respond` answers one request and `Program.run` answers them all. -/

namespace ScriptDeps

/-! ## Section 1: Model -/

/-- What a started program does: the files it leaves, what it writes, and how
    it goes. -/
structure Performance where
  files     : FileSystem
  output    : Bytes
  errors    : Bytes
  execution : Execution

/-- The surroundings of one run. -/
structure Host where
  now       : Instant
  cwd       : Location
  /-- What standard input holds. -/
  stdin     : Bytes
  /-- The directory for temporary files, and the part of their names that
      makes them new. -/
  temporary : Path
  freshName : Name
  /-- How the toolchain behaves on a terminal. -/
  capture   : Call → FileSystem → Except IoError (FileSystem × List Capture.Event)
  /-- How a program behaves with the given bytes as its standard input. -/
  execute   : Call → Bytes → FileSystem → Except IoError Performance
  /-- What happens while a program is fed. -/
  feeding   : Call → Bytes → List Feeding.Event := fun _ content => Feeding.toEnd content

/-- Something seen from outside. -/
inductive Sight where
  | logged (e : Log.Event)
  | said (line : Text)
  | complained (line : Text)
  | progressed (what : Text)
  | captured (call : Call)
  | executed (call : Call) (input : Bytes)
  | output (bytes : Bytes)
  | errors (bytes : Bytes)
deriving DecidableEq, Repr

structure Machine where
  files : FileSystem
  seen  : List Sight := []

namespace Sight

/-- What is written to standard output. -/
def onOutput : Sight → Bytes
  | said line => Utf8.encode line ++ [0x0A]
  | output bytes => bytes
  | _ => []

/-- What is written to the error stream. -/
def onErrors : Sight → Bytes
  | complained line => Utf8.encode line ++ [0x0A]
  | errors bytes => bytes
  | _ => []

end Sight

namespace Machine

/-- Everything written to standard output. -/
def output (m : Machine) : Bytes := m.seen.flatMap Sight.onOutput

/-- Everything written to the error stream. -/
def errors (m : Machine) : Bytes := m.seen.flatMap Sight.onErrors

/-- Notes what is seen. -/
def see (m : Machine) (s : Sight) : Machine := { m with seen := m.seen ++ [s] }

/-- Takes the outcome of a change of files: on failure they stay as they are. -/
def change (m : Machine) : Except IoError FileSystem → Except IoError Unit × Machine
  | .ok fs => (.ok (), { m with files := fs })
  | .error e => (.error e, m)

/-! ## Section 2: Answering requests -/

def statusOf : Node → Status
  | .file content modified _ => ⟨.file, content.length, modified⟩
  | n => ⟨n.kind, n.size, 0⟩

/-- The path of a new temporary file. -/
def temporaryPath (h : Host) (front back : Text) : Path :=
  h.temporary.child (Utf8.encode front ++ h.freshName ++ Utf8.encode back)

/-- How the feeding of a started program goes. -/
def feeding (h : Host) (call : Call) (content : Bytes) : Feeding :=
  Feeding.run content (h.feeding call content)

/-- The bytes that a started program finds on its standard input. -/
def inputBytes (h : Host) (call : Call) : Input → Bytes
  | .inherited => h.stdin
  | .closed => []
  | .fed content => (feeding h call content).received

/-- What there is to tell about the standard input of a started program. -/
def inputEvents (h : Host) (call : Call) : Input → List Log.Event
  | .inherited | .closed => []
  | .fed content => (feeding h call content).events

/-- The answer to a request, and the machine after it. -/
def respond (h : Host) (m : Machine) : (r : Request) → r.Answer × Machine
  | .read p => (m.files.read h.cwd p, m)
  | .write p content => m.change (m.files.write h.cwd h.now p content)
  | .makeDirectories p => m.change (m.files.makeDirectories h.cwd p)
  | .isPresent p => (m.files.isPresent h.cwd p, m)
  | .isDirectory p => (m.files.isDirectory h.cwd p, m)
  | .status p follow =>
      ((m.files.findNode h.cwd follow p).map fun (_, n) => statusOf n, m)
  | .removeFile p => m.change (m.files.removeFile h.cwd p)
  | .removeTree p => m.change (m.files.removeTree h.cwd p)
  | .link target p => m.change (m.files.link h.cwd target p)
  | .readLink p => (m.files.readLink h.cwd p, m)
  | .list p => (m.files.list h.cwd p, m)
  | .walk p => (m.files.visits h.cwd p, m)
  | .temporary front back =>
      let p := temporaryPath h front back
      match m.files.find h.cwd false p with
      | .ok (.missing parent name) =>
          let made := Node.file [] h.now FileSystem.privateMode
          (.ok p, { m with files := m.files.put (parent ++ [name]) made })
      -- The host makes up one name; whether it is new is for the files to say, and
      -- a link that leads nowhere has it too.
      | .ok (.node ..) => (.error .alreadyExists, m)
      | .error e => (.error e, m)
  | .setMode p mode => m.change (m.files.setMode h.cwd p mode)
  | .workingDirectory => (.ok (), m)
  | .standardInput => (.ok h.stdin, m)
  | .now => (h.now, m)
  | .log e => ((), m.see (.logged e))
  | .say line => ((), m.see (.said line))
  | .complain line => ((), m.see (.complained line))
  | .progress what => ((), m.see (.progressed what))
  | .capture call =>
      match h.capture call m.files with
      | .ok (fs, events) => (.ok events, { m with files := fs }.see (.captured call))
      | .error e => (.error e, m)
  | .execute call input =>
      match h.execute call (inputBytes h call input) m.files with
      | .ok p =>
          (.ok { p.execution with events := inputEvents h call input },
            (({ m with files := p.files }.see (.executed call (inputBytes h call input))).see
              (.output p.output)).see (.errors p.errors))
      | .error e => (.error e, m)

end Machine

/-! ## Section 3: Running -/

namespace Program

variable {α β : Type}

/-- Runs a program to its end. -/
def run (h : Host) : Program α → Machine → α × Machine
  | done a, m => (a, m)
  | ask r next, m => (next (m.respond h r).1).run h (m.respond h r).2

@[simp] theorem run_done (h : Host) (a : α) (m : Machine) : (done a).run h m = (a, m) := rfl

@[simp] theorem run_ask (h : Host) (r : Request) (next : r.Answer → Program α) (m : Machine) :
    (ask r next).run h m = (next (m.respond h r).1).run h (m.respond h r).2 := rfl

/-- To run one program and then another is to run them as one. -/
theorem run_bind (h : Host) (p : Program α) (f : α → Program β) (m : Machine) :
    (p.bind f).run h m = (f (p.run h m).1).run h (p.run h m).2 := by
  induction p generalizing m with
  | done a => rfl
  | ask r next ih => simp [ih]

/-- One step of a program that is not done. -/
def step (h : Host) : Program α × Machine → Program α × Machine
  | (done a, m) => (done a, m)
  | (ask r next, m) => (next (m.respond h r).1, (m.respond h r).2)

end Program

/-- Runs an action to its end. -/
def Action.run {α : Type} (a : Action α) (h : Host) (m : Machine) : Except Failure α × Machine :=
  Program.run h (ExceptT.run a) m

end ScriptDeps
