import ScriptDeps.Settings.Basic
import ScriptDeps.Toml.Document

/-! # Settings as text

    Settings are written as a TOML document with one table for each section.
    What a document leaves out has its default, and what it has besides is
    skipped. -/

namespace ScriptDeps
namespace Settings

/-! ## Section 1: Writing -/

/-- Why settings cannot be written. -/
inductive Unwritable where
  /-- A path is no text. -/
  | path
  /-- A number does not fit. -/
  | number
deriving DecidableEq, Repr

def Unwritable.text : Unwritable → Text
  | path => "path contains invalid UTF-8 characters".toList
  | number => "out-of-range value".toList

def boolText (b : Bool) : Text := if b then "true".toList else "false".toList

/-- A path as a value. -/
def pathText (p : Path) : Except Unwritable Text :=
  match Utf8.decode p.bytes with
  | some t => .ok (Toml.Quoted.write t)
  | none => .error .path

/-- A number as a value. -/
def numberText (n : Nat) : Except Unwritable Text :=
  if n < Nat.pow 2 63 then .ok (Decimal.ofNat n) else .error .number

/-- The value of a setting, unless there is none. -/
def valueText (s : Settings) : Field → Except Unwritable (Option Text)
  | .logFormat => .ok (some (Toml.Quoted.write s.logFormat))
  | .swift => (pathText s.swift).map some
  | .release => .ok (some (boolText s.release))
  | .noSandbox => .ok (some (boolText s.noSandbox))
  | .ssh => .ok (some (boolText s.ssh))
  | .skipPackage => .ok (some (boolText s.skipPackage))
  | .root =>
      match s.root with
      | some p => (pathText p).map some
      | none => .ok none
  | .stalenessHours => (numberText s.stalenessHours).map some
  | .reuse => .ok (some (boolText s.reuse))

/-- The line of a setting. -/
def line (s : Settings) (f : Field) : Except Unwritable Text := do
  match ← s.valueText f with
  | some v => return f.name ++ " = ".toList ++ v ++ ['\n']
  | none => return []

/-- A section with the settings that `keep` chooses. -/
def groupText (keep : Field → Bool) (s : Settings) (g : Group) : Except Unwritable Text := do
  let lines ← (g.fields.filter keep).mapM s.line
  return '[' :: g.name ++ "]\n".toList ++ lines.flatten

/-- The document with the settings that `keep` chooses. -/
def renderOnly (keep : Field → Bool) (s : Settings) : Except Unwritable Text := do
  return Cut.join ['\n'] (← Group.all.mapM (s.groupText keep))

/-- The document with all settings. -/
def render (s : Settings) : Except Unwritable Text := s.renderOnly fun _ => true

/-! ## Section 2: Reading -/

/-- How the values of a section are found.  A section is a table, or an array
    of its values in order; a date leaves everything out. -/
def finder? (g : Group) : Option Toml.Value → Option (Field → Option Toml.Value)
  | none | some (.moment _) => some fun _ => none
  | some (.table _ rows) => some fun f => Toml.Rows.get? rows f.name
  | some (.array items) => some fun f => items[g.fields.idxOf f]?
  | some (.tables earlier last) => some fun f =>
      ((earlier ++ [last]).map (Toml.Value.table .named))[g.fields.idxOf f]?
  | some _ => none

/-- A value read by `read`, or the default `d` of one that is left out. -/
def orDefault {α : Type} (read : Toml.Value → Option α) (d : α) : Option Toml.Value → Option α
  | none => some d
  | some v => read v

def text? : Toml.Value → Option Text
  | .text t => some t
  | _ => none

def path? (v : Toml.Value) : Option Path := (text? v).map Path.ofText

def bool? : Toml.Value → Option Bool
  | .bool b => some b
  | _ => none

/-- A number that is not negative. -/
def nat? : Toml.Value → Option Nat
  | .integer n => if 0 ≤ n then some n.toNat else none
  | _ => none

/-- The settings whose values `find` finds. -/
def ofValues? (find : Field → Option Toml.Value) : Option Settings := do
  let d : Settings := {}
  return {
    logFormat := ← orDefault text? d.logFormat (find .logFormat)
    swift := ← orDefault path? d.swift (find .swift)
    release := ← orDefault bool? d.release (find .release)
    noSandbox := ← orDefault bool? d.noSandbox (find .noSandbox)
    ssh := ← orDefault bool? d.ssh (find .ssh)
    skipPackage := ← orDefault bool? d.skipPackage (find .skipPackage)
    root := ← orDefault (fun v => (path? v).map some) d.root (find .root)
    stalenessHours := ← orDefault nat? d.stalenessHours (find .stalenessHours)
    reuse := ← orDefault bool? d.reuse (find .reuse) }

/-- The settings of a table. -/
def ofRows? (rows : Toml.Rows) : Option Settings := do
  let general ← finder? .general (rows.get? Group.general.name)
  let toolchain ← finder? .toolchain (rows.get? Group.toolchain.name)
  let dependencies ← finder? .dependencies (rows.get? Group.dependencies.name)
  let cache ← finder? .cache (rows.get? Group.cache.name)
  ofValues? fun f =>
    match f.group with
    | .general => general f
    | .toolchain => toolchain f
    | .dependencies => dependencies f
    | .cache => cache f

/-- The settings of a document. -/
def ofText? (t : Text) : Option Settings := (Toml.ofText? t).bind ofRows?

end Settings
end ScriptDeps
