import Mathlib.Data.List.Induction
import ScriptDeps.Text.Hex

/-! # Number texts there and back

    A number is read back from its decimal and its hexadecimal digits.  Both
    readings take the digits from the left, so each law is an induction that
    splits the last digit off. -/

namespace ScriptDeps

/-! ## Section 1: Hexadecimal -/

namespace Hex

theorem value?_digitChar {d : Nat} (h : d < 16) : value? (Nat.digitChar d) = some d := by
  have hall : ∀ d < 16, value? (Nat.digitChar d) = some d := by decide
  exact hall d h

theorem value?_digit {d : Nat} (h : d < 16) : value? (digit d) = some d := by
  have hall : ∀ d < 16, value? (digit d) = some d := by decide
  exact hall d h

/-- The number that the digits from `value` on lead to, if all are digits. -/
def number? : Nat → Text → Option Nat
  | value, [] => some value
  | value, c :: cs => (value? c).bind fun d => number? (value * 16 + d) cs

theorem number?_append (value : Nat) (xs ys : Text) :
    number? value (xs ++ ys) = (number? value xs).bind fun v => number? v ys := by
  induction xs generalizing value with
  | nil => rfl
  | cons c cs ih =>
    rw [List.cons_append, number?, number?]
    cases value? c with
    | none => rfl
    | some d => exact ih _

theorem number?_ofNat (n : Nat) : number? 0 (ofNat n) = some n := by
  unfold ofNat
  induction n using Nat.strongRecOn with
  | ind n ih =>
    by_cases hn : n < 16
    · rw [Nat.toDigits_of_lt_base hn]
      simp [number?, value?_digitChar hn]
    · have hm : n % 16 < 16 := Nat.mod_lt _ (by omega)
      have hd := ih (n / 16) (by omega)
      rw [Nat.toDigits_of_base_le (by omega) (by omega), number?_append, hd]
      simp only [Option.bind_some, number?, value?_digitChar hm]
      congr 1
      omega

/-- Only digits stand for a number. -/
theorem isSome_value?_of_number? {ds : Text} {value n : Nat} (h : number? value ds = some n)
    {c : Char} (hc : c ∈ ds) : (value? c).isSome = true := by
  induction ds generalizing value with
  | nil => simp at hc
  | cons d ds ih =>
    rw [number?] at h
    cases hd : value? d with
    | none => rw [hd] at h; simp at h
    | some v =>
      rw [hd, Option.bind_some] at h
      rcases List.mem_cons.1 hc with rfl | hc
      · simp [hd]
      · exact ih h hc

theorem length_ofNat_pos (n : Nat) : 0 < (ofNat n).length :=
  Nat.length_toDigits_pos

/-- A scalar value has at most six hexadecimal digits. -/
theorem length_ofNat_le {n : Nat} (h : n < 16777216) : (ofNat n).length ≤ 6 :=
  (Nat.length_toDigits_le_iff (by omega) (by omega)).2 h

end Hex

/-! ## Section 2: Decimal -/

namespace Decimal

theorem isDigit_of_mem_ofNat {n : Nat} {c : Char} (h : c ∈ ofNat n) : Text.isDigit c = true := by
  have hc : c.isDigit = true := Nat.isDigit_of_mem_toDigits (by omega) (by omega) h
  simp only [Char.isDigit, Bool.and_eq_true, decide_eq_true_eq] at hc
  simp only [Text.isDigit, Bool.and_eq_true, decide_eq_true_eq]
  exact hc

theorem ofNat_ne_nil (n : Nat) : ofNat n ≠ [] := Nat.toDigits_ne_nil

theorem value_append_singleton (ds : Text) (c : Char) :
    value (ds ++ [c]) = 10 * value ds + (c.toNat - 48) := by
  simp [value]

theorem toNat_digitChar {d : Nat} (h : d < 10) : (Nat.digitChar d).toNat - 48 = d := by
  have hall : ∀ d < 10, (Nat.digitChar d).toNat - 48 = d := by decide
  exact hall d h

@[simp] theorem value_ofNat (n : Nat) : value (ofNat n) = n := by
  unfold ofNat
  induction n using Nat.strongRecOn with
  | ind n ih =>
    by_cases hn : n < 10
    · rw [Nat.toDigits_of_lt_base hn]
      simp [value, toNat_digitChar hn]
    · have hm : n % 10 < 10 := Nat.mod_lt _ (by omega)
      rw [Nat.toDigits_of_base_le (by omega) (by omega), value_append_singleton,
        ih (n / 10) (by omega), toNat_digitChar hm]
      omega

/-- Only zero is written with a zero in front. -/
theorem head?_ofNat {n : Nat} (h : n ≠ 0) : (ofNat n).head? ≠ some '0' := by
  unfold ofNat
  induction n using Nat.strongRecOn with
  | ind n ih =>
    by_cases hn : n < 10
    · rw [Nat.toDigits_of_lt_base hn]
      have hall : ∀ d < 10, d ≠ 0 → ([Nat.digitChar d] : List Char).head? ≠ some '0' := by decide
      exact hall n hn h
    · have hrest := ih (n / 10) (by omega) (by omega)
      rw [Nat.toDigits_of_base_le (by omega) (by omega), List.head?_append]
      cases hhead : (Nat.toDigits 10 (n / 10)).head? with
      | none => exact absurd (List.head?_eq_none_iff.1 hhead) Nat.toDigits_ne_nil
      | some c => rwa [hhead] at hrest

theorem ofNat_digit {c : Char} (h : Text.isDigit c = true) : ofNat (c.toNat - 48) = [c] := by
  simp only [Text.isDigit, Bool.and_eq_true, decide_eq_true_eq] at h
  have hlow : 48 ≤ c.toNat := h.1
  have hhigh : c.toNat ≤ 57 := h.2
  rw [ofNat, Nat.toDigits_of_lt_base (by omega)]
  congr 1
  apply Char.toNat_inj.1
  rw [Nat.toNat_digitChar_of_lt_ten (by omega)]
  omega

/-- Digits without leading zeros are the only ones that a number is written
    with. -/
theorem ofNat_value {ds : Text} (hne : ds ≠ []) (hdigits : ∀ c ∈ ds, Text.isDigit c = true)
    (hzeros : ds.head? = some '0' → ds = ['0']) : ofNat (value ds) = ds := by
  induction ds using List.reverseRecOn with
  | nil => exact absurd rfl hne
  | append_singleton ds c ih =>
    have hc := ofNat_digit (hdigits c (by simp))
    cases ds with
    | nil => simpa [value] using hc
    | cons d ds =>
      -- The digits in front do not start with a zero, so they are no zero.
      have hd : d ≠ '0' := by
        rintro rfl
        exact absurd (hzeros rfl) (by simp)
      have hfront : ofNat (value (d :: ds)) = d :: ds := by
        apply ih (List.cons_ne_nil _ _)
        · intro x hx
          exact hdigits x (List.mem_append_left _ hx)
        · intro hhead
          exact absurd (Option.some.inj hhead) hd
      have hpos : 0 < value (d :: ds) := by
        rw [Nat.pos_iff_ne_zero]
        intro hzero
        rw [hzero] at hfront
        exact hd (List.cons.inj hfront).1.symm
      have hlt : c.toNat - 48 < 10 := by
        have hdigit := hdigits c (by simp)
        simp only [Text.isDigit, Bool.and_eq_true, decide_eq_true_eq] at hdigit
        have hhigh : c.toNat ≤ 57 := hdigit.2
        omega
      rw [value_append_singleton]
      show Nat.toDigits 10 _ = _
      rw [← Nat.toDigits_append_toDigits (by decide) hpos hlt]
      exact congrArg₂ (· ++ ·) hfront hc

end Decimal
end ScriptDeps
