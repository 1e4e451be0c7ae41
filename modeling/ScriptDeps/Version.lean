import ScriptDeps.Text.Cut
import ScriptDeps.Text.Hex

/-! # Semantic versions

    A version has three numbers below 2^64, a pre-release part and a build
    part.  `Version.ofText?` reads the strict form `1.2.3-pre+build`;
    `Version.ofLooseText?` also accepts a `v` in front and missing minor and
    patch numbers, which are often left out in scripts. -/

namespace ScriptDeps

/-- A semantic version.  The suffixes are kept without `-` and `+`; an absent
    one is empty. -/
structure Version where
  major : Nat
  minor : Nat
  patch : Nat
  pre   : Text
  build : Text
deriving DecidableEq, Repr, Inhabited

namespace Version

/-! ## Section 1: Writing -/

/-- The three numbers between dots. -/
def coreText (v : Version) : Text :=
  Decimal.ofNat v.major ++ '.' :: Decimal.ofNat v.minor ++ '.' :: Decimal.ofNat v.patch

/-- A suffix behind its mark; nothing if it is empty. -/
def suffixText (mark : Char) (s : Text) : Text :=
  if s.isEmpty then [] else mark :: s

/-- The version in its strict form. -/
def text (v : Version) : Text :=
  v.coreText ++ suffixText '-' v.pre ++ suffixText '+' v.build

/-! ## Section 2: The parts of the grammar -/

/-- A number without leading zeros that fits in sixty-four bits. -/
def number? (t : Text) : Option Nat :=
  match Decimal.toNat? t with
  | some n =>
      if (t.length = 1 || t.head? != some '0') && n < Decimal.wordLimit then some n else none
  | none => none

/-- A character of a suffix identifier. -/
def isIdentifierChar (c : Char) : Bool :=
  Text.isLetterOrDigit c || c = '-'

/-- An identifier of the build part: one or more letters, digits and dashes. -/
def isBuildIdentifier (t : Text) : Bool :=
  !t.isEmpty && t.all isIdentifierChar

/-- An identifier of the pre-release part; one that is a number has no leading
    zeros. -/
def isPreIdentifier (t : Text) : Bool :=
  isBuildIdentifier t && !(t.length > 1 && t.all Text.isDigit && t.head? = some '0')

/-- A pre-release part: identifiers between dots. -/
def isPre (t : Text) : Bool := (Cut.pieces (· = '.') t).all isPreIdentifier

/-- A build part: identifiers between dots. -/
def isBuild (t : Text) : Bool := (Cut.pieces (· = '.') t).all isBuildIdentifier

/-- Splits a suffix that is `-pre`, `+build`, both or nothing. -/
def splitSuffix? (suffix : Text) : Option (Text × Text) :=
  let (front, build?) := match Cut.splitFirst (· = '+') suffix with
    | some (f, b) => (f, some b)
    | none => (suffix, none)
  let pre? := match front with
    | [] => some []
    | c :: pre => if c = '-' && isPre pre then some pre else none
  let checked? := match build? with
    | none => some []
    | some b => if isBuild b then some b else none
  match pre?, checked? with
  | some p, some b => some (p, b)
  | _, _ => none

/-! ## Section 3: Reading -/

/-- Cuts a version text before its first `-` or `+`. -/
def cutSuffix (t : Text) : Text × Text :=
  t.span fun c => !(c = '-' || c = '+')

/-- The version with the given number texts and suffix. -/
def ofParts? (major minor patch suffix : Text) : Option Version := do
  let x ← number? major
  let y ← number? minor
  let z ← number? patch
  let (pre, build) ← splitSuffix? suffix
  return ⟨x, y, z, pre, build⟩

/-- Reads the strict form. -/
def ofText? (t : Text) : Option Version :=
  let (core, suffix) := cutSuffix t
  match Cut.pieces (· = '.') core with
  | [a, b, c] => ofParts? a b c suffix
  | _ => none

/-- Drops one leading `v` or `V`. -/
def dropMark : Text → Text
  | c :: rest => if c = 'v' || c = 'V' then rest else c :: rest
  | [] => []

/-- Reads a version as people write it: blanks around it, a `v` in front and
    missing trailing numbers are accepted. -/
def ofLooseText? (t : Text) : Option Version :=
  let (core, suffix) := cutSuffix (dropMark (Cut.trim Text.isBlank t))
  match Cut.pieces (· = '.') core with
  | [a] => ofParts? a ['0'] ['0'] suffix
  | [a, b] => ofParts? a b ['0'] suffix
  | [a, b, c] => ofParts? a b c suffix
  | _ => none

end Version
end ScriptDeps
