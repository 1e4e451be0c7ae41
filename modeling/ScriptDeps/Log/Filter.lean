import ScriptDeps.Log
import ScriptDeps.Text.Cut

/-! # Which events are shown

    A filter is a list of directives between commas.  A directive names a
    level, or a part of a program, or both as `part=level`.  The directive
    that names the longest beginning of this program's name decides, and of
    two for the same part the later one. -/

namespace ScriptDeps
namespace Log

/-! ## Section 1: Levels -/

/-- The detail of a level: nothing but errors is shown at 1, and every
    event of this library at 3. -/
def Level.detail : Level → Nat
  | .warn => 2
  | .info => 3

/-- The levels by name, from none to all. -/
def levelNames : List Text :=
  ["off", "error", "warn", "info", "debug", "trace"].map String.toList

/-- The detail of the finest level. -/
def mostDetail : Nat := 5

/-- The detail that a text names, by name or by number. -/
def detail? (t : Text) : Option Nat :=
  let n := levelNames.idxOf (t.map Text.lowerChar)
  if n ≤ mostDetail then some n
  else
    let digits := match t with
      | '+' :: ds => ds
      | ds => ds
    (Decimal.toNat? digits).filter (· ≤ mostDetail)

/-! ## Section 2: Directives -/

structure Directive where
  /-- The part of a program it is for; `none` is everything. -/
  target : Option Text
  detail : Nat
deriving DecidableEq, Repr

/-- A character that a directive may start with. -/
def startsDirective (c : Char) : Bool :=
  Text.isLetterOrDigit c || c = '-' || c = ':' || c = '_' || 0x80 ≤ c.toNat

/-- The directive that a text is.  One with brackets is for spans of time and
    not for events; it is kept as one for a part that no program has. -/
def Directive.ofText? (t : Text) : Option Directive :=
  let t := Cut.trim Text.isBlank t
  match t with
  | [] => none
  | c :: _ =>
      if t.contains '[' then (if c = '[' || startsDirective c then some ⟨some t, 0⟩ else none)
      else if !startsDirective c then none
      else match Cut.splitFirst (· = '=') t with
        | none =>
            match detail? t with
            | some n => some ⟨none, n⟩
            | none => some ⟨some t, mostDetail⟩
        | some (target, level) =>
            if level.isEmpty then some ⟨some target, mostDetail⟩
            else (detail? level).map fun n => ⟨some target, n⟩

/-! ## Section 3: Filters -/

/-- The directives of a filter; nothing at all lets nothing pass. -/
def directives? (t : Text) : Option (List Directive) :=
  if t.isEmpty then some [] else (Cut.pieces (· = ',') t).mapM Directive.ofText?

/-- The name that parts of this program begin with. -/
def programName : Text := "swift_sh".toList

/-- How specific a directive for this program is; `none` if it is for
    another. -/
def Directive.rank? (d : Directive) : Option Nat :=
  match d.target with
  | none => some 0
  | some t => if t.isPrefixOf programName then some (t.length + 1) else none

/-- The directive that decides, given the one that decides so far. -/
def prefer (best : Option Directive) (d : Directive) : Option Directive :=
  match d.rank?, best.bind Directive.rank? with
  | none, _ => best
  | some _, none => some d
  -- Of two that are as specific, the later one decides.
  | some m, some n => if n ≤ m then some d else best

/-- The detail that a filter lets pass. -/
def detailOf (ds : List Directive) : Nat :=
  ((ds.foldl prefer none).map (·.detail)).getD 0

end Log
end ScriptDeps
