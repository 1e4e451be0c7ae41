import ScriptDeps.Path
import ScriptDeps.Text.Hex

/-! # Child processes

    Signals, the way a process ends, and the exit code that stands for it. -/

namespace ScriptDeps

/-! ## Section 1: Signals -/

/-- The signals that end a run from outside. -/
inductive Signal where
  | hangup
  | interrupt
  | quit
  | terminate
deriving DecidableEq, Repr

namespace Signal

def number : Signal → Nat
  | hangup => 1
  | interrupt => 2
  | quit => 3
  | terminate => 15

def name : Signal → Text
  | hangup => "SIGHUP".toList
  | interrupt => "SIGINT".toList
  | quit => "SIGQUIT".toList
  | terminate => "SIGTERM".toList

/-- What a child is sent when `s` arrives.  The toolchain ignores interrupts,
    so these become requests to terminate. -/
def forwarded (s : Signal) : Signal :=
  if s = interrupt then terminate else s

end Signal

/-! ## Section 2: Endings -/

/-- How a process ends. -/
inductive Ending where
  | exited (code : Int)
  | signaled (signal : Int)
deriving DecidableEq, Repr

namespace Ending

def succeeded (e : Ending) : Bool := e = .exited 0

/-- The exit code that repeats `e`: the low eight bits of the code, or 128
    and the signal, between 0 and 255. -/
def exitCode : Ending → Nat
  | .exited code => (code % 256).toNat
  | .signaled signal => (min (max (128 + signal) 0) 255).toNat

/-- The names of the first signals. -/
def signalNames : List Text :=
  ["SIGHUP", "SIGINT", "SIGQUIT", "SIGILL", "SIGTRAP", "SIGABRT", "SIGBUS", "SIGFPE", "SIGKILL",
   "SIGUSR1", "SIGSEGV", "SIGUSR2", "SIGPIPE", "SIGALRM", "SIGTERM", "SIGSTKFLT", "SIGCHLD",
   "SIGCONT", "SIGSTOP", "SIGTSTP", "SIGTTIN", "SIGTTOU", "SIGURG", "SIGXCPU", "SIGXFSZ",
   "SIGVTALRM", "SIGPROF", "SIGWINCH", "SIGIO", "SIGPWR", "SIGSYS"].map String.toList

/-- The ending in words. -/
def text : Ending → Text
  | .exited code => "exit status: " ++ Decimal.ofInt code
  | .signaled signal =>
      match (if signal ≤ 0 then none else signalNames[signal.toNat - 1]?) with
      | some name => "signal: " ++ Decimal.ofInt signal ++ " (" ++ name ++ ")"
      | none => "signal: " ++ Decimal.ofInt signal

/-- Whether the toolchain may be believed after this ending: it is sometimes
    killed by signal 9 once its work is done. -/
def isTolerated (e : Ending) : Bool := e.succeeded || e = .signaled 9

end Ending

/-! ## Section 3: Calls -/

/-- A program to start. -/
structure Call where
  program   : Path
  args      : List Text
  /-- Where it starts, if not in the current directory. -/
  directory : Option Path
deriving DecidableEq, Repr

end ScriptDeps
