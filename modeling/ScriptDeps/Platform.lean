import ScriptDeps.Text.Cut
import ScriptDeps.Text.Hex

/-! # Deployment platforms

    The platform clause of a manifest.  The manifest format can name no
    system later than `Platform.newest`, so later ones are written as that. -/

namespace ScriptDeps

/-- The platform that dependencies are built for. -/
inductive Platform where
  | macOS (major minor : Nat)
  | unspecified
deriving DecidableEq, Repr

namespace Platform

/-- The latest major version that the manifest format can name. -/
def newest : Nat := 13

/-- The clause written into the manifest.  Up to version 10 the minor version
    is part of the name. -/
def clause : Platform → Text
  | .macOS major minor =>
      if major ≤ 10 then
        "[.macOS(.v" ++ Decimal.ofNat major ++ "_" ++ Decimal.ofNat minor ++ ")]"
      else "[.macOS(.v" ++ Decimal.ofNat (min major newest) ++ ")]"
  | .unspecified => "nil".toList

/-- A decimal number of sixty-four bits, which may have a plus sign. -/
def number? (t : Text) : Option Nat :=
  let digits := match t with
    | '+' :: rest => rest
    | _ => t
  match Decimal.toNat? digits with
  | some n => if n < Decimal.wordLimit then some n else none
  | none => none

/-- Reads a product version such as `14.2.1`; parts after the second do not
    matter. -/
def ofProductVersion? (t : Text) : Option Platform :=
  match Cut.pieces (· = '.') (Cut.trim Text.isBlank t) with
  | [] => none
  | [major] => (number? major).map fun m => .macOS m 0
  | major :: minor :: _ =>
      match number? major, number? minor with
      | some m, some n => some (.macOS m n)
      | _, _ => none

end Platform
end ScriptDeps
