import ScriptDeps.Text.Hex

/-! # Input and output errors

    The ways in which an operation on files or processes fails.  Each cause
    has the number and the text that the operating system gives it. -/

namespace ScriptDeps

inductive IoError where
  | noEntry
  | inputOutput
  | denied
  | alreadyExists
  | notDirectory
  | isDirectory
  | invalid
  | nameTooLong
  | notEmpty
  | tooManyLinks
  | unsupported
  /-- Nobody reads the other end of a pipe any more. -/
  | brokenPipe
  /-- A path holds a zero byte. -/
  | zeroByte
  /-- A file that should be text is not. -/
  | notText
  /-- A path is empty where that has no meaning. -/
  | emptyPath
  /-- Any other error, by its text. -/
  | other (text : Text)
deriving DecidableEq, Repr

namespace IoError

/-- The number and text of the causes that the operating system reports. -/
def system? : IoError → Option (Nat × Text)
  | noEntry => some (2, "No such file or directory")
  | inputOutput => some (5, "Input/output error")
  | denied => some (13, "Permission denied")
  | alreadyExists => some (17, "File exists")
  | notDirectory => some (20, "Not a directory")
  | isDirectory => some (21, "Is a directory")
  | invalid => some (22, "Invalid argument")
  | brokenPipe => some (32, "Broken pipe")
  | nameTooLong => some (36, "File name too long")
  | unsupported => some (38, "Function not implemented")
  | notEmpty => some (39, "Directory not empty")
  | tooManyLinks => some (40, "Too many levels of symbolic links")
  | _ => none

/-- The error as shown to people. -/
def text (e : IoError) : Text :=
  match e.system? with
  | some (number, name) => name ++ " (os error " ++ Decimal.ofNat number ++ ")"
  | none =>
      match e with
      | zeroByte => "file name contained an unexpected NUL byte".toList
      | notText => "stream did not contain valid UTF-8".toList
      | emptyPath => "cannot make an empty path absolute".toList
      | other t => t
      | _ => []

end IoError

end ScriptDeps
