import ScriptDeps.Text.Hex

/-! # Sizes for people

    A number of bytes in the largest unit that it reaches, with one decimal
    place.  A half goes to the even neighbour.  Numbers are first rounded to
    fifty-three significant bits, which changes nothing below 2^53. -/

namespace ScriptDeps
namespace SizeText

/-- `num / den` to the nearest integer, a half to the even one. -/
def roundDiv (num den : Nat) : Nat :=
  let q := num / den
  let r := num % den
  if 2 * r < den then q
  else if 2 * r = den then (if q % 2 = 0 then q else q + 1)
  else q + 1

/-- The nearest number with at most fifty-three significant bits. -/
def significant (n : Nat) : Nat :=
  if n < Nat.pow 2 53 then n
  else
    let unit := Nat.pow 2 (Nat.log2 n - 52)
    roundDiv n unit * unit

/-- A number of tenths, written with its decimal point. -/
def tenths (n : Nat) : Text :=
  Decimal.ofNat (n / 10) ++ '.' :: Decimal.ofNat (n % 10)

end SizeText

/-- A size in bytes as people read it. -/
def sizeText (bytes : Nat) : Text :=
  let scaled (unit : Nat) (name : Text) : Text :=
    SizeText.tenths (SizeText.roundDiv (10 * SizeText.significant bytes) unit) ++ ' ' :: name
  if bytes < 1024 then Decimal.ofNat bytes ++ " B"
  else if bytes < Nat.pow 1024 2 then scaled 1024 "KB"
  else if bytes < Nat.pow 1024 3 then scaled (Nat.pow 1024 2) "MB"
  else scaled (Nat.pow 1024 3) "GB"

end ScriptDeps
