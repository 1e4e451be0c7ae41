import ScriptDeps.Time
import ScriptDeps.Toml.Basic

/-! # TOML numbers and moments

    Integers of sixty-four bits with a sign, floating-point numbers, dates and
    times.  Each function reads a beginning of the text and returns what is
    left. -/

namespace ScriptDeps
namespace Toml

/-! ## Section 1: Digits -/

/-- Digits of the kind `p`; a single underscore may stand between two. -/
def digitsOf? (p : Char → Bool) : Text → Option (Text × Text)
  | c :: '_' :: rest =>
      if p c then
        match digitsOf? p rest with
        | some (ds, r) => some (c :: ds, r)
        | none => some ([c], '_' :: rest)
      else none
  | c :: rest =>
      if p c then
        match digitsOf? p rest with
        | some (ds, r) => some (c :: ds, r)
        | none => some ([c], rest)
      else none
  | [] => none

/-- Decimal digits, zeros in front allowed. -/
def digits? (t : Text) : Option (Text × Text) := digitsOf? Text.isDigit t

/-- A plus or minus sign, if there is one; whether it is a minus. -/
def sign : Text → Bool × Text
  | '+' :: rest => (false, rest)
  | '-' :: rest => (true, rest)
  | t => (false, t)

/-- The digits of a decimal integer: a lone zero, or no zero in front. -/
def whole? : Text → Option (Text × Text)
  | '0' :: rest => some (['0'], rest)
  | t => digits? t

/-! ## Section 2: Integers -/

/-- The value of digits in a base. -/
def baseValue (base : Nat) (ds : Text) : Nat :=
  ds.foldl (fun n c => base * n + (Hex.value? c).getD 0) 0

/-- An integer that fits sixty-four bits with a sign. -/
def fit? (n : Int) : Option Value :=
  if -9223372036854775808 ≤ n ∧ n ≤ 9223372036854775807 then some (.integer n) else none

/-- An integer in base sixteen, eight or two, after its mark. -/
def based? (base : Nat) (t : Text) : Option (Value × Text) := do
  let (ds, rest) ← digitsOf? (fun c => (Hex.value? c).any (· < base)) t
  return (← fit? (baseValue base ds), rest)

def integer? (t : Text) : Option (Value × Text) :=
  match t with
  | '0' :: 'x' :: rest => based? 16 rest
  | '0' :: 'o' :: rest => based? 8 rest
  | '0' :: 'b' :: rest => based? 2 rest
  | _ => do
      let (negative, t) := sign t
      let (ds, rest) ← whole? t
      let n : Int := Decimal.value ds
      return (← fit? (if negative then -n else n), rest)

/-! ## Section 3: Floating-point numbers -/

/-- The exponent of a number, if one follows. -/
def exponent? : Text → Option (Int × Text)
  | c :: rest =>
      if c = 'e' || c = 'E' then
        let (negative, t) := sign rest
        (digits? t).map fun (ds, r) =>
          (if negative then -(Decimal.value ds : Int) else Decimal.value ds, r)
      else none
  | [] => none

/-- The smallest number that is rounded to infinity: half a unit of the last
    place above the largest finite number. -/
def overflow : Nat := Nat.pow 2 1024 - Nat.pow 2 970

/-- Whether `m * 10 ^ e` is too large for a floating-point number. -/
def isTooLarge (m : Nat) (e : Int) : Bool :=
  let size : Int := (Decimal.ofNat m).length + e
  if m = 0 || size ≤ 308 then false
  else if size > 310 then true
  else if 0 ≤ e then overflow ≤ m * Nat.pow 10 e.toNat
  else overflow * Nat.pow 10 (-e).toNat ≤ m

/-- The value of a number read from the start of `t`, of which `rest` is left.
    A positive number must be finite. -/
def real? (t rest : Text) (negative : Bool) (m : Nat) (e : Int) : Option (Value × Text) :=
  if !negative && isTooLarge m e then none
  else some (.real (t.take (t.length - rest.length)), rest)

/-- A number with a fraction, an exponent, or both. -/
def decimal? (t : Text) : Option (Value × Text) :=
  let (negative, body) := sign t
  match whole? body with
  | none => none
  | some (ds, '.' :: rest) =>
      match digits? rest with
      | none => none
      | some (fs, rest) =>
          let m := Decimal.value (ds ++ fs)
          match exponent? rest with
          | some (e, rest) => real? t rest negative m (e - fs.length)
          | none => real? t rest negative m (-(fs.length : Int))
  | some (ds, rest) =>
      match exponent? rest with
      | some (e, rest) => real? t rest negative (Decimal.value ds) e
      | none => none

/-- Infinity, or what is no number. -/
def special? (t : Text) : Option (Value × Text) :=
  match (sign t).2 with
  | 'i' :: 'n' :: 'f' :: rest => some (.real (t.take (t.length - rest.length)), rest)
  | 'n' :: 'a' :: 'n' :: rest => some (.real (t.take (t.length - rest.length)), rest)
  | _ => none

/-! ## Section 4: Dates and times -/

/-- Exactly two digits whose number lies between `low` and `high`. -/
def twoDigits? (low high : Nat) : Text → Option (Nat × Text)
  | a :: b :: rest =>
      if Text.isDigit a && Text.isDigit b then
        let n := Decimal.value [a, b]
        if low ≤ n ∧ n ≤ high then some (n, rest) else none
      else none
  | _ => none

/-- What follows the character `c`. -/
def mark? (c : Char) : Text → Option Text
  | d :: rest => if d = c then some rest else none
  | [] => none

/-- What follows a date. -/
def date? (t : Text) : Option Text := do
  let (century, t) ← twoDigits? 0 99 t
  let (year, t) ← twoDigits? 0 99 t
  let (month, t) ← twoDigits? 1 12 (← mark? '-' t)
  let (_, t) ← twoDigits? 1 (Calendar.monthLength ↑(100 * century + year) month) (← mark? '-' t)
  return t

/-- What follows a fraction of a second, if there is one. -/
def afterFraction : Text → Text
  | '.' :: c :: rest => if Text.isDigit c then rest.dropWhile Text.isDigit else '.' :: c :: rest
  | t => t

/-- What follows a time of day. -/
def time? (t : Text) : Option Text := do
  let (_, t) ← twoDigits? 0 23 t
  let (_, t) ← twoDigits? 0 59 (← mark? ':' t)
  let (_, t) ← twoDigits? 0 60 (← mark? ':' t)
  return afterFraction t

/-- What follows a distance from universal time. -/
def offset? : Text → Option Text
  | c :: rest =>
      if c = 'Z' || c = 'z' then some rest
      else if c = '+' || c = '-' then do
        let (_, t) ← twoDigits? 0 23 rest
        let (_, t) ← twoDigits? 0 59 (← mark? ':' t)
        return t
      else none
  | [] => none

/-- What follows a time of day after a date, if there is one. -/
def afterTime (t : Text) : Text :=
  match t with
  | c :: rest =>
      if c = 'T' || c = 't' || c = ' ' then
        match time? rest with
        | some r => (offset? r).getD r
        | none => t
      else t
  | [] => t

/-- A date, a time, or both. -/
def moment? (t : Text) : Option (Value × Text) :=
  ((date? t).map afterTime).orElse (fun _ => time? t) |>.map fun rest =>
    (.moment (t.take (t.length - rest.length)), rest)

/-- Anything that starts with a digit or a sign. -/
def number? (t : Text) : Option (Value × Text) :=
  ((moment? t).orElse fun _ => (decimal? t).orElse fun _ => special? t).orElse fun _ => integer? t

end Toml
end ScriptDeps
