/-! # Blank and control characters

    The classes of characters that end a word.  `isBlank` is the Unicode
    property White_Space; `isSpacing` is the part of it that keeps a reader
    on the same line; `isControl` is the general category Cc. -/

namespace ScriptDeps

/-- Text is handled as its list of characters. -/
abbrev Text := List Char

/-- Data as read from files and pipes. -/
abbrev Bytes := List UInt8

instance : Coe String Text := ⟨String.toList⟩

namespace Text

/-! ## Section 1: Classes -/

/-- The ranges of code points with the property White_Space. -/
def blankRanges : List (Nat × Nat) :=
  [(0x09, 0x0D), (0x20, 0x20), (0x85, 0x85), (0xA0, 0xA0), (0x1680, 0x1680),
   (0x2000, 0x200A), (0x2028, 0x2029), (0x202F, 0x202F), (0x205F, 0x205F),
   (0x3000, 0x3000)]

/-- A white space character of any kind. -/
def isBlank (c : Char) : Bool :=
  blankRanges.any fun r => r.1 ≤ c.toNat && c.toNat ≤ r.2

/-- A line feed, carriage return, vertical tab or form feed. -/
def isLineBreak (c : Char) : Bool :=
  c = '\n' || c = '\r' || c = '\x0b' || c = '\x0c'

/-- A white space character that does not end the line. -/
def isSpacing (c : Char) : Bool :=
  isBlank c && !isLineBreak c

/-- A control character: the first thirty-two codes and 7F to 9F. -/
def isControl (c : Char) : Bool :=
  c.toNat < 0x20 || (0x7F ≤ c.toNat && c.toNat ≤ 0x9F)

/-- An ASCII letter. -/
def isLetter (c : Char) : Bool :=
  ('a' ≤ c && c ≤ 'z') || ('A' ≤ c && c ≤ 'Z')

/-- An ASCII digit. -/
def isDigit (c : Char) : Bool :=
  '0' ≤ c && c ≤ '9'

/-- An ASCII letter or digit. -/
def isLetterOrDigit (c : Char) : Bool :=
  isLetter c || isDigit c

/-- The lower case form of an ASCII letter; any other character as it is. -/
def lowerChar (c : Char) : Char :=
  if 'A' ≤ c && c ≤ 'Z' then Char.ofNat (c.toNat + 32) else c

/-! ## Section 2: How the classes relate -/

end Text
end ScriptDeps
