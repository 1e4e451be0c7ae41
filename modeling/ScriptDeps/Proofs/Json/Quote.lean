import ScriptDeps.Json.Parser
import ScriptDeps.Json.Printer
import ScriptDeps.Proofs.Text.Number

/-! # Reading JSON strings back

    Whatever text is written as a string, reading the string gives the text.
    Each character is escaped on its own and is read as one element, so the
    law for a text is an induction over its characters. -/

namespace ScriptDeps
namespace Json

/-! ## Section 1: One character -/

/-- The four digits of a control character. -/
theorem hex4?_control {n : Nat} (h : n < 0x20) :
    hex4? '0' '0' (Hex.digit (n / 16)) (Hex.digit (n % 16)) = some n := by
  have hzero : Hex.value? '0' = some 0 := by decide
  have hhigh := Hex.value?_digit (show n / 16 < 16 by omega)
  have hlow := Hex.value?_digit (show n % 16 < 16 by omega)
  simp only [hex4?, hzero, hhigh, hlow, Option.bind_eq_bind, Option.bind_some, Option.pure_def,
    Option.some.injEq]
  omega

theorem units?_unicode {a b c d : Char} {n : Nat} (h : hex4? a b c d = some n) (rest : Text) :
    units? ('\\' :: 'u' :: a :: b :: c :: d :: rest) =
      (units? rest).map fun (us, r) => (unitOf n :: us, r) := by
  rw [units?, h]

theorem unitOf_control (c : Char) (h : c.toNat < 0x20) : unitOf c.toNat = .char c := by
  unfold unitOf
  rw [if_neg (by omega), if_neg (by omega), Char.ofNat_toNat]

/-- A character that needs no escape stands for itself. -/
theorem units?_plain {c : Char} (hq : c ≠ '"') (hb : c ≠ '\\') (h : ¬ c.toNat < 0x20)
    (rest : Text) :
    units? (c :: rest) = (units? rest).map fun (us, r) => (.char c :: us, r) := by
  rw [units?]
  · rw [if_neg (by simp [h, hb])]
  · exact hq
  · intro _ _ _ _ _ heq _
    exact hb heq
  · intro _ _ heq
    exact absurd heq hb

/-- An escaped character is read as that character. -/
theorem units?_escapeChar (c : Char) (rest : Text) :
    units? (escapeChar c ++ rest) = (units? rest).map fun (us, r) => (.char c :: us, r) := by
  -- The short escapes are read by themselves; the other control characters are written as a
  -- code, and all the rest as it is.
  unfold escapeChar
  by_cases hq : c = '"'
  · subst hq; rfl
  by_cases hb : c = '\\'
  · subst hb; rfl
  by_cases hbs : c = '\x08'
  · subst hbs; rfl
  by_cases hff : c = '\x0c'
  · subst hff; rfl
  by_cases hn : c = '\n'
  · subst hn; rfl
  by_cases hr : c = '\r'
  · subst hr; rfl
  by_cases ht : c = '\t'
  · subst ht; rfl
  rw [if_neg hq, if_neg hb, if_neg hbs, if_neg hff, if_neg hn, if_neg hr, if_neg ht]
  by_cases h : c.toNat < 0x20
  · rw [if_pos h]
    rw [← unitOf_control c h]
    exact units?_unicode (hex4?_control h) rest
  · rw [if_neg h]
    exact units?_plain hq hb h rest

/-! ## Section 2: Whole strings -/

theorem units?_escaped (t rest : Text) :
    units? (t.flatMap escapeChar ++ '"' :: rest) = some (t.map .char, rest) := by
  induction t with
  | nil => rfl
  | cons c t ih =>
    rw [List.flatMap_cons, List.append_assoc, units?_escapeChar, ih]
    rfl

theorem joinUnits?_map_char (t : Text) : joinUnits? (t.map .char) = some t := by
  induction t with
  | nil => rfl
  | cons c t ih => rw [List.map_cons, joinUnits?, ih]; rfl

/-- A string is read back, and nothing in it closes it early. -/
theorem string?_escaped (t rest : Text) :
    string? (t.flatMap escapeChar ++ '"' :: rest) = some (some t, rest) := by
  rw [string?, units?_escaped, Option.map_some]
  exact congrArg (fun s => some (s, rest)) (joinUnits?_map_char t)

end Json
end ScriptDeps
