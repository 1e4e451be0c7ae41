import ScriptDeps.Json.Parser
import ScriptDeps.Json.Printer
import ScriptDeps.Path
import ScriptDeps.Time

/-! # Resolution records

    What a store entry remembers of its last resolution: for which manifest,
    which arguments came out, in which mode, and when.  `Record.render?`
    writes it and `Record.ofText?` reads it. -/

namespace ScriptDeps

structure Record where
  /-- The digest of the manifest that was resolved. -/
  hash        : Text
  /-- The store entry. -/
  directory   : Path
  /-- What the toolchain is to be given before the script. -/
  args        : List Text
  /-- Whether the dependencies were built in release mode. -/
  releaseMode : Bool
  resolvedAt  : Timestamp
deriving DecidableEq, Repr

namespace Record

/-! ## Section 1: Names -/

/-- The file that holds the record of an entry. -/
def fileName : Text := "invocation.json".toList

/-- The file of this record. -/
def file (r : Record) : Path := r.directory.join (Path.ofText fileName)

/-- The build configuration of a mode. -/
def configurationOf (release : Bool) : Text := if release then "release".toList else "debug".toList

/-- The build configuration of the dependencies. -/
def configuration (r : Record) : Text := configurationOf r.releaseMode

/-! ## Section 2: Writing -/

def boolText (b : Bool) : Text := if b then "true".toList else "false".toList

/-- The members of the written form, in order. -/
def members (r : Record) (directory : Text) : List Text :=
  [Json.member "hash" (Json.quote r.hash),
   Json.member "directory" (Json.quote directory),
   Json.member "invocation_args" (Json.block '[' ']' 1 (r.args.map Json.quote)),
   Json.member "release_mode" (boolText r.releaseMode),
   Json.member "resolved_at" (Json.quote r.resolvedAt.text)]

/-- The written form; a directory whose name is no text has none. -/
def render? (r : Record) : Option Text :=
  (Utf8.decode r.directory.bytes).map fun d => Json.block '{' '}' 0 (r.members d)

/-! ## Section 3: Reading -/

/-- The record with the given values; only the mode may be missing. -/
def ofValues? (hash directory args mode resolvedAt : Option Json) : Option Record := do
  let hash ← (← hash).text?
  let directory ← (← directory).text?
  let args ← (← args).texts?
  let release ← match mode with
    | some m => m.bool?
    | none => some false
  let resolvedAt ← Timestamp.ofText? (← (← resolvedAt).text?)
  return ⟨hash, Path.ofText directory, args, release, resolvedAt⟩

/-- The names of the members that are read. -/
def names : List Text :=
  ["hash", "directory", "invocation_args", "release_mode", "resolved_at"].map String.toList

/-- The value of the member called `name`. -/
def value? (ms : List (Option Text × Json)) (name : String) : Option Json :=
  (ms.find? fun m => m.1 = some name.toList).map Prod.snd

/-- Whether the members can be told apart: every name is a text, and none
    that is read comes twice. -/
def distinct (ms : List (Option Text × Json)) : Bool :=
  ms.all (fun m => m.1.isSome) &&
    names.all fun n => (ms.filter fun m => m.1 = some n).length ≤ 1

/-- The record that a value holds: an object, or an array of the five values
    in order. -/
def ofJson? : Json → Option Record
  | .object ms =>
      if distinct ms then
        ofValues? (value? ms "hash") (value? ms "directory") (value? ms "invocation_args")
          (value? ms "release_mode") (value? ms "resolved_at")
      else none
  | .array [a, b, c, d, e] => ofValues? (some a) (some b) (some c) (some d) (some e)
  | _ => none

/-- The record that a text holds. -/
def ofText? (t : Text) : Option Record := (Json.ofText? t).bind ofJson?

end Record
end ScriptDeps
