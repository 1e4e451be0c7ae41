import ScriptDeps.Manifest
import ScriptDeps.Proofs.Text.Number
import ScriptDeps.Proofs.Text.Utf8

/-! # Reading string literals

    A reader for the string literals of the manifest's language, with the
    escapes that `Manifest.escape` uses.  It takes one character at a time and
    remembers where in an escape it stands, so it is a plain recursion on the
    text.  The main result is `literal?_literal`: whatever a literal stands
    for, its reader gets it back and stops right behind the closing quote. -/

namespace ScriptDeps
namespace Manifest

/-! ## Section 1: The reader -/

/-- Where a reader stands inside a literal. -/
inductive Standing where
  | plain
  /-- Behind a backslash. -/
  | escape
  /-- Inside `\u{…}`, behind `count` digits that stand for `value`. -/
  | digits (count value : Nat)

/-- The character that a backslash and one letter stand for. -/
def simpleEscape? (c : Char) : Option Char :=
  if c = 't' then some '\t'
  else if c = 'r' then some '\r'
  else if c = 'n' then some '\n'
  else if c = '\'' ∨ c = '"' ∨ c = '\\' then some c
  else none

/-- The text of a literal up to its closing quote, and what follows it.  A line
    feed or carriage return as it is does not belong into a literal. -/
def inside? : Standing → Text → Option (Text × Text)
  | _, [] => none
  | .plain, c :: rest =>
      if c = '"' then some ([], rest)
      else if c = '\\' then inside? .escape rest
      else if c = '\n' ∨ c = '\r' then none
      else (inside? .plain rest).map fun (t, r) => (c :: t, r)
  | .escape, ['u'] => none
  | .escape, 'u' :: c :: rest => if c = '{' then inside? (.digits 0 0) rest else none
  | .escape, c :: rest =>
      match simpleEscape? c with
      | some e => (inside? .plain rest).map fun (t, r) => (e :: t, r)
      | none => none
  | .digits count value, c :: rest =>
      if c = '}' then
        -- One to eight digits, which stand for a character.
        if 1 ≤ count ∧ count ≤ 8 ∧ value.isValidChar then
          (inside? .plain rest).map fun (t, r) => (Char.ofNat value :: t, r)
        else none
      else match Hex.value? c with
        | some d => inside? (.digits (count + 1) (value * 16 + d)) rest
        | none => none

/-- A whole literal, and what follows it. -/
def literal? : Text → Option (Text × Text)
  | '"' :: rest => inside? .plain rest
  | _ => none

/-! ## Section 2: One character -/

theorem inside?_digits {ds : Text} {count value n : Nat} (rest : Text)
    (h : Hex.number? value ds = some n) :
    inside? (.digits count value) (ds ++ rest) = inside? (.digits (count + ds.length) n) rest := by
  induction ds generalizing count value with
  | nil =>
    rw [Hex.number?, Option.some.injEq] at h
    subst h
    rfl
  | cons c cs ih =>
    rw [Hex.number?] at h
    cases hc : Hex.value? c with
    | none => rw [hc] at h; simp at h
    | some d =>
      rw [hc, Option.bind_some] at h
      have hne : c ≠ '}' := by rintro rfl; simp [Hex.value?] at hc
      rw [List.cons_append, inside?, if_neg hne, hc]
      dsimp only
      rw [ih h, List.length_cons]
      congr 2
      omega

/-- The braces of an escape hold a character that its digits stand for. -/
theorem inside?_braces (c : Char) (rest : Text) :
    inside? .escape ('u' :: '{' :: (Hex.ofNat c.toNat ++ '}' :: rest)) =
      (inside? .plain rest).map fun (t, r) => (c :: t, r) := by
  have hlt : c.toNat < 16777216 := by
    have := Utf8.isScalar_toNat c
    unfold Utf8.IsScalar at this
    omega
  have hpos := Hex.length_ofNat_pos c.toNat
  have hle := Hex.length_ofNat_le hlt
  have hvalid : c.toNat.isValidChar := c.valid
  rw [inside?, if_pos rfl, inside?_digits _ (Hex.number?_ofNat c.toNat), inside?, if_pos rfl,
    if_pos ⟨by omega, by omega, hvalid⟩, Char.ofNat_toNat]

/-- Whatever a character is, its escape reads back as that character. -/
theorem inside?_escapeChar (c : Char) (rest : Text) :
    inside? .plain (escapeChar c ++ rest) =
      (inside? .plain rest).map fun (t, r) => (c :: t, r) := by
  unfold escapeChar
  by_cases ht : c = '\t'
  · subst ht; rfl
  by_cases hr : c = '\r'
  · subst hr; rfl
  by_cases hn : c = '\n'
  · subst hn; rfl
  by_cases hs : c = '\''
  · subst hs; rfl
  by_cases hq : c = '"'
  · subst hq; rfl
  by_cases hb : c = '\\'
  · subst hb; rfl
  rw [if_neg ht, if_neg hr, if_neg hn, if_neg hs, if_neg hq, if_neg hb]
  -- A printable character stands for itself, any other one is written in braces.
  split
  · rw [List.singleton_append, inside?, if_neg hq, if_neg hb, if_neg (by simp [hn, hr])]
  · rw [List.append_assoc, List.append_assoc]
    exact inside?_braces c rest

/-! ## Section 3: Whole literals -/

theorem escape_cons (c : Char) (t : Text) : escape (c :: t) = escapeChar c ++ escape t := by
  simp [escape]

theorem inside?_escape (t rest : Text) :
    inside? .plain (escape t ++ '"' :: rest) = some (t, rest) := by
  induction t with
  | nil => rfl
  | cons c t ih => rw [escape_cons, List.append_assoc, inside?_escapeChar, ih]; rfl

/-- A literal is read back, and nothing in it closes it early. -/
theorem literal?_literal (t rest : Text) : literal? (literal t ++ rest) = some (t, rest) := by
  have h := inside?_escape t rest
  simpa [literal, literal?] using h

/-- An escape holds no line feed. -/
theorem newline_notMem_escapeChar (c : Char) : '\n' ∉ escapeChar c := by
  unfold escapeChar
  repeat' split
  any_goals decide
  · intro hmem
    rw [List.mem_singleton] at hmem
    subst hmem
    exact absurd (by assumption) (by decide : ¬ (0x20 ≤ '\n'.toNat ∧ '\n'.toNat ≤ 0x7E))
  · intro hmem
    have hdigit : '\n' ∈ Hex.ofNat c.toNat := by simpa using hmem
    have hsome := Hex.isSome_value?_of_number? (Hex.number?_ofNat c.toNat) hdigit
    exact absurd hsome (by decide)

/-- So a literal never adds a line. -/
theorem count_newline_literal (t : Text) : (literal t).count '\n' = 0 := by
  rw [List.count_eq_zero, literal]
  intro hmem
  have hin : '\n' ∈ escape t := by simpa using hmem
  obtain ⟨c, _, hc⟩ := List.mem_flatMap.1 hin
  exact newline_notMem_escapeChar c hc

end Manifest
end ScriptDeps
