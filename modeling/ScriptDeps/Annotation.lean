import ScriptDeps.Dependency.OriginText
import ScriptDeps.ImportLine
import ScriptDeps.Log

/-! # Annotations

    The comment of an import line says where the package comes from and,
    after `~>` or `==`, which versions will do.  `LineReading.ofLine` joins
    this with the outer grammar of `ImportLine`. -/

namespace ScriptDeps
namespace Annotation

/-! ## Section 1: Model -/

inductive Operator where
  | upToNextMajor
  | exact
deriving DecidableEq, Repr

/-- A comment cut at its operator. -/
structure Parts where
  /-- The text before the operator, or the whole comment; none if blank. -/
  origin : Option Text
  /-- The operator and the trimmed value after it. -/
  requirement : Option (Operator × Text)
deriving DecidableEq, Repr

/-- Why an annotation declares nothing. -/
inductive Rejection where
  | notAVersion (value : Text)
  | noOrigin (module : Text)
  | origin (why : Origin.Refusal)
deriving DecidableEq, Repr

def Rejection.message : Rejection → Text
  | .notAVersion value => "\"~>\" requires a version, got " ++ value
  | .noOrigin module => "no origin given for module " ++ module
  | .origin why => why.message

/-! ## Section 2: Cutting the comment -/

/-- The operator that `t` starts with and the text after it. -/
def operator? : Text → Option (Operator × Text)
  | '~' :: '>' :: rest => some (.upToNextMajor, rest)
  | '=' :: '=' :: rest => some (.exact, rest)
  | _ => none

/-- The first operator with a value behind it: the text before it, the
    operator and the trimmed value. -/
def requirement? : Text → Option (Text × Operator × Text)
  | [] => none
  | c :: t =>
      let later := (requirement? t).map fun (before, found) => (c :: before, found)
      match operator? (c :: t) with
      | none => later
      | some (op, rest) =>
          -- An operator without a value is part of the origin.
          let value := Cut.trim Text.isSpacing rest
          if value.isEmpty then later else some ([], op, value)

/-- Cuts a comment into origin and requirement. -/
def parts (comment : Text) : Parts :=
  match requirement? comment with
  | none => ⟨some comment, none⟩
  | some (before, found) =>
      let origin := Cut.trimEnd Text.isSpacing before
      ⟨if origin.isEmpty then none else some origin, some found⟩

/-- The constraint that a requirement states. -/
def constraint : Option (Operator × Text) → Except Rejection Constraint
  | none => .ok .latest
  | some (op, value) =>
      match op, Version.ofLooseText? value with
      | .upToNextMajor, some v => .ok (.upToNextMajor v)
      | .upToNextMajor, none => .error (.notAVersion value)
      | .exact, some v => .ok (.exactly v)
      | .exact, none => .ok (.reference value)

/-! ## Section 3: From comment to dependency -/

/-- The dependency that `comment` declares for `module`, and whether its
    origin is a bare shorthand.  Only the companion library needs no origin. -/
def dependency (place : Origin.Place) (module comment : Text) :
    Except Rejection (Dependency × Bool) :=
  let p := parts comment
  match constraint p.requirement with
  | .error e => .error e
  | .ok c =>
      match p.origin with
      | none =>
          if module = companionModule then .ok (.companion c, false)
          else .error (.noOrigin module)
      | some t =>
          match Origin.ofText place t with
          | .ok r => .ok (⟨module, r.origin, c⟩, r.bare)
          | .error why => .error (.origin why)

end Annotation

/-! ## Section 4: Whole lines -/

/-- What one line of a script says. -/
inductive LineReading where
  | dependency (d : Dependency)
  /-- No import, or one without an annotation. -/
  | nothing
  | rejected (why : Annotation.Rejection)
deriving DecidableEq, Repr

namespace LineReading

/-- Reads a line, with the events that it calls for. -/
def ofLine (place : Origin.Place) (toolVersion : Version) (line : Text) :
    LineReading × List Log.Event :=
  match ImportLine.ofText? line with
  | none => (.nothing, [])
  | some ⟨module, none⟩ =>
      if module = companionModule then (.dependency (.companion (.exactly toolVersion)), [])
      else (.nothing, [])
  | some ⟨module, some comment⟩ =>
      match Annotation.dependency place module comment with
      | .ok (d, bare) => (.dependency d, if bare then [.bareShorthand] else [])
      | .error (.notAVersion value) => (.rejected (.notAVersion value), [.notAVersion value])
      | .error why => (.rejected why, [.lineDropped line why.message])

/-- The dependency that a line declares. -/
def dependency? : LineReading → Option Dependency
  | .dependency d => some d
  | _ => none

end LineReading
end ScriptDeps
