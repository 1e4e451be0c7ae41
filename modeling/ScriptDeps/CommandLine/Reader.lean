import ScriptDeps.CommandLine.Normal
import ScriptDeps.CommandLine.Syntax

/-! # Reading command lines

    Arguments are read from left to right.  The value of an option, and the
    arguments of an operand, are only looked at when the next option or
    operand begins, so that of two faults the one that reading meets first is
    reported.  `read` is for command lines in normal form. -/

namespace ScriptDeps
namespace CommandLine

/-! ## Section 1: Outcomes -/

/-- What is wrong with a command line. -/
inductive Misuse where
  | unknownArgument
  | unknownCommand
  /-- A value is missing, empty or not one of those possible. -/
  | badValue
  /-- An option that takes no value is given one. -/
  | needlessValue
  /-- An option is given twice. -/
  | repeated
  | missingOperand
  | missingCommand
  /-- Nothing is asked for at all. -/
  | nothing
  | notText
deriving DecidableEq, Repr

/-- Why reading ends without a command. -/
inductive Stop where
  | misuse (m : Misuse)
  | help
  | version (l : Level)
deriving DecidableEq, Repr

/-- The exit code that goes with it. -/
def Stop.exitCode : Stop → Nat
  | misuse _ => 2
  | help | version _ => 0

/-! ## Section 2: State -/

/-- What has been read but not looked at. -/
inductive Held where
  /-- An option, perhaps without its value yet. -/
  | setting (s : Setting) (value : Option Argument)
  | operand (o : Operand) (values : List Argument)
deriving DecidableEq, Repr

/-- What has been read of one command. -/
structure Reading where
  level    : Level
  flags    : List Flag := []
  verbose  : Nat := 0
  settings : Option Path := none
  swift    : Option Path := none
  script   : Option Text := none
  /-- The arguments of the script, or what is to be cleaned. -/
  rest     : List Text := []
  shell    : Option Shell := none
  /-- How many single operands have begun. -/
  begun    : Nat := 0
  held     : Option Held := none
  /-- Whether `--` has been read. -/
  ended    : Bool := false
deriving DecidableEq, Repr

namespace Reading

/-- Whether the next argument may be the value of an option. -/
def isWaiting (r : Reading) : Bool :=
  match r.held with
  | some (.setting _ none) => true
  | _ => false

/-! ## Section 3: Looking at what is held -/

/-- The path of an option that was not given before. -/
def value? (old : Option Path) (value : Option Argument) : Except Stop (Option Path) :=
  match value with
  | none => throw (.misuse .badValue)
  | some v =>
      if old.isSome then throw (.misuse .repeated)
      else if v.isEmpty then throw (.misuse .badValue)
      else return some ⟨v⟩

def takeSetting (r : Reading) (value : Option Argument) : Setting → Except Stop Reading
  | .settings => return { r with settings := ← value? r.settings value }
  | .swift => return { r with swift := ← value? r.swift value }

/-- The text of an operand. -/
def operandText (a : Argument) : Except Stop Text :=
  match Utf8.decode a with
  | some t => return t
  | none => throw (.misuse .notText)

def takeOperand (r : Reading) (values : List Argument) : Operand → Except Stop Reading
  | .script => return { r with script := (← values.mapM operandText).getLast? }
  | .arguments | .targets => return { r with rest := r.rest ++ (← values.mapM operandText) }
  | .shell =>
      match values.getLast?.bind fun v => (Utf8.decode v).bind Shell.ofText? with
      | some s => return { r with shell := some s }
      | none => throw (.misuse .badValue)

/-- Looks at what is held. -/
def settle (r : Reading) : Except Stop Reading :=
  match r.held with
  | none => return r
  | some (.setting s value) => { r with held := none }.takeSetting value s
  | some (.operand o values) => { r with held := none }.takeOperand values o

/-! ## Section 4: Options -/

/-- The largest count of verbosity. -/
def maxVerbose : Nat := 255

/-- The last of two opposite flags stays; no flag may stay twice. -/
def takeFlag (r : Reading) (f : Flag) : Except Stop Reading :=
  if r.flags.contains f then throw (.misuse .repeated)
  else return { r with flags := (r.flags.filter fun g => f.opposite? != some g) ++ [f] }

/-- Takes an option that has no value. -/
def takeChoice (r : Reading) (c : Choice) : Except Stop Reading := do
  let r ← r.settle
  match c with
  | .help => throw .help
  | .version => throw (.version r.level)
  | .verbose => return { r with verbose := min (r.verbose + 1) maxVerbose }
  | .flag f => r.takeFlag f
  | .setting s => return { r with held := some (.setting s none) }

/-- Takes an option by its long name, given what follows the dashes. -/
def takeLong (r : Reading) (body : Argument) : Except Stop Reading := do
  let (name, value) := match Cut.splitFirst (· = 0x3D) body with
    | some (name, value) => (name, some value)
    | none => (body, none)
  match (Utf8.decode name).bind r.level.long?, value with
  | none, _ => throw (.misuse .unknownArgument)
  | some c, none => r.takeChoice c
  -- A value after `=` belongs to the option itself, so it is looked at now.
  | some (.setting s), some v => (← r.settle).takeSetting (some v) s
  | some _, some _ => throw (.misuse .needlessValue)

/-- Takes options by their short names. -/
def takeShort (r : Reading) : Text → Except Stop Reading
  | [] => return r
  | c :: cs =>
      match r.level.short? c with
      | none => throw (.misuse .unknownArgument)
      | some choice => do takeShort (← r.takeChoice choice) cs

/-! ## Section 5: Operands -/

/-- What is wrong with an argument where no operand is due. -/
def surplus (r : Reading) (a : Argument) : Misuse :=
  if r.level.below.isEmpty || (r.ended && (r.level.command? a).isSome) then .unknownArgument
  else .unknownCommand

/-- Takes an argument of an operand. -/
def takeWord (r : Reading) (a : Argument) : Except Stop Reading :=
  match r.level.operand? r.begun with
  | none => throw (.misuse (r.surplus a))
  | some o =>
      match r.held with
      | some (.operand o' values) =>
          if o = o' && o.isMany then return { r with held := some (.operand o (values ++ [a])) }
          else beginOperand o
      | _ => beginOperand o
where
  /-- Begins an operand. -/
  beginOperand (o : Operand) : Except Stop Reading := do
    let r ← r.settle
    return { r with
      held := some (.operand o [a])
      begun := if o.isMany then r.begun else r.begun + 1 }

/-! ## Section 6: Arguments -/

/-- Takes an argument that names no command. -/
def take (r : Reading) (a : Argument) : Except Stop Reading :=
  if r.ended then r.takeWord a
  else if a = endOfOptions then return { r with ended := true }
  else match a with
    | 0x2D :: 0x2D :: body => r.takeLong body
    -- A dash alone is a word; a dash with something after it is not.
    | 0x2D :: c :: cs => r.takeShort (Utf8.decodeLossy (c :: cs))
    | _ =>
        match r.held with
        | some (.setting s none) => return { r with held := some (.setting s (some a)) }
        | _ => r.takeWord a

/-- Whether the value of the environment for the file of settings is of no
    use where it is needed. -/
def lacksSettings (r : Reading) (fallback : Option Path) : Bool :=
  r.settings.isNone && fallback.any fun p => p.bytes.isEmpty

/-- Whether anything was asked for. -/
def isIdle (r : Reading) (fallback : Option Path) : Bool :=
  r.verbose = 0 && r.settings.isNone && fallback.isNone

/-- Ends the reading of one command; `inner` says whether one below it
    follows. -/
def finish (r : Reading) (fallback : Option Path) (inner : Bool) : Except Stop Reading := do
  let r ← r.settle
  if r.lacksSettings fallback then throw (.misuse .badValue)
  -- The program itself does nothing without a command below it.
  if r.level = .top && !inner then
    throw (.misuse (if r.isIdle fallback then .nothing else .missingCommand))
  if r.level = .completions && r.shell.isNone then throw (.misuse .missingOperand)
  return r

/-! ## Section 7: Results -/

/-- Which of two opposite flags is given. -/
def pair (r : Reading) (f : Bool → Flag) : Option Bool :=
  if r.flags.contains (f true) then some true
  else if r.flags.contains (f false) then some false
  else none

def preparation (r : Reading) : Preparation where
  content := r.flags.contains .content
  ssh := r.flags.contains .ssh
  skipPackage := r.pair .skipPackage
  noSandbox := r.pair .noSandbox
  release := r.pair .release
  swift := r.swift

/-- The script, which is standard input where none is named. -/
def scriptText (r : Reading) : Text := r.script.getD ['-']

/-- The command that was read, if there is one. -/
def command? (r : Reading) : Option Command :=
  match r.level with
  | .top => none
  | .run => some (.run r.preparation r.scriptText r.rest)
  | .build => some (.build r.preparation r.scriptText)
  | .clean => some (.clean r.rest (r.flags.contains .dryRun) (r.flags.contains .keepUnused))
  | .settings => some (.settings none)
  | .settingsShow => some (.settings (some .display))
  | .settingsPath => some (.settings (some .path))
  | .settingsInit => some (.settings (some (.init (r.flags.contains .force))))
  | .completions => r.shell.map .completions

end Reading

/-! ## Section 8: The whole -/

/-- Help on the command that words name, starting from `l`, or from `help`
    itself if there is none. -/
def helpOn : Option Level → List Argument → Stop
  | _, [] => .help
  | l, a :: rest =>
      match l.bind fun l => l.command? a with
      | some (.level l) => helpOn (some l) rest
      | some .help => helpOn none rest
      | none => .misuse .unknownCommand

/-- The command that an argument names at this point. -/
def Reading.naming? (r : Reading) (a : Argument) : Option Naming :=
  if r.ended || r.isWaiting then none else r.level.command? a

/-- Reads the rest of a command line: this command and those below it. -/
def readFrom (fallback : Option Path) : Reading → List Argument → Except Stop (List Reading)
  | r, [] => return [← r.finish fallback false]
  | r, a :: rest =>
      match r.naming? a with
      | some .help => throw (helpOn (some r.level) rest)
      | some (.level l) => do
          -- The faults of the inner command come before what this one still holds.
          let inner ← readFrom fallback { level := l } rest
          return (← r.finish fallback true) :: inner
      | none => do readFrom fallback (← r.take a) rest

/-- The order that the readings of nested commands make up.  Of the options
    that go with every command, those given furthest down count. -/
def Order.ofReadings? (fallback : Option Path) (rs : List Reading) : Option Order := do
  let command ← (← rs.getLast?).command?
  return {
    verbose := ((rs.reverse.map (·.verbose)).find? (· != 0)).getD 0
    settings := (rs.reverse.findSome? (·.settings)).orElse fun _ => fallback
    command }

/-- Reads a command line whose first argument is the name of the program.
    `fallback` is the file of settings that the environment names. -/
def read (fallback : Option Path) (args : List Argument) : Except Stop Order := do
  let rs ← readFrom fallback { level := .top } args.tail
  match Order.ofReadings? fallback rs with
  | some o => return o
  | none => throw (.misuse .missingCommand)

/-- Reads a command line as given. -/
def readNormal (fallback : Option Path) (args : List Argument) : Except Stop Order :=
  read fallback (normal args)

end CommandLine
end ScriptDeps
