import ScriptDeps.Text.Blank

/-! # Number texts

    Bytes as hexadecimal, and natural numbers in decimal and hexadecimal. -/

namespace ScriptDeps
namespace Hex

/-- The lower case hexadecimal digit of a value below sixteen. -/
def digit (n : Nat) : Char :=
  if n < 10 then Char.ofNat (48 + n) else Char.ofNat (87 + n)

/-- Two digits for each byte, the high half first. -/
def ofBytes (bs : Bytes) : Text :=
  bs.flatMap fun b => [digit (b.toNat / 16), digit (b.toNat % 16)]

/-- The hexadecimal digits of a number, without leading zeros. -/
def ofNat (n : Nat) : Text :=
  Nat.toDigits 16 n

/-- The value of a hexadecimal digit of either case. -/
def value? (c : Char) : Option Nat :=
  if '0' ≤ c ∧ c ≤ '9' then some (c.toNat - 48)
  else if 'a' ≤ c ∧ c ≤ 'f' then some (c.toNat - 87)
  else if 'A' ≤ c ∧ c ≤ 'F' then some (c.toNat - 55)
  else none

end Hex

namespace Decimal

/-- The decimal digits of a number, without leading zeros. -/
def ofNat (n : Nat) : Text :=
  Nat.toDigits 10 n

/-- The digits of an integer, after a minus sign if it is negative. -/
def ofInt (i : Int) : Text :=
  if i < 0 then '-' :: ofNat i.natAbs else ofNat i.natAbs

/-- The number that a list of decimal digits stands for. -/
def value (digits : Text) : Nat :=
  digits.foldl (fun n c => 10 * n + (c.toNat - 48)) 0

/-- The number a text of one or more decimal digits stands for. -/
def toNat? (t : Text) : Option Nat :=
  if !t.isEmpty && t.all Text.isDigit then some (value t) else none

/-- One more than the largest number of sixty-four bits. -/
def wordLimit : Nat := Nat.pow 2 64

end Decimal
end ScriptDeps
