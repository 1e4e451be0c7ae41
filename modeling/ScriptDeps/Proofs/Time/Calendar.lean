import ScriptDeps.Time

/-! # Dates there and back

    The date of a day is a date of the calendar, and its day number is that
    day again.  Within an era of 400 years a day is taken apart into
    centuries, spans of four years, years and days; in these parts every
    division of the calendar's formulas comes out even. -/

namespace ScriptDeps
namespace Calendar

/-! ## Section 1: A day of an era -/

/-- A day of an era: whole centuries, spans of four years and years before it,
    and its place in its year.  Only the last year of a span can have a day
    365, and the last span of a century has none, unless the century ends the
    era. -/
structure Parts (d : Int) where
  century : Int
  span    : Int
  year    : Int
  day     : Int
  sum_eq  : d = 36524 * century + 1461 * span + 365 * year + day
  century_mem : 0 ≤ century ∧ century ≤ 3
  span_mem    : 0 ≤ span ∧ span ≤ 24
  year_mem    : 0 ≤ year ∧ year ≤ 3
  day_mem     : 0 ≤ day ∧ day ≤ 365
  day_last    : day = 365 → year = 3 ∧ (span < 24 ∨ century = 3)

theorem exists_parts {d : Int} (h0 : 0 ≤ d) (h1 : d < 146097) : Nonempty (Parts d) := by
  -- The last day of the era, and the last day of a span, are beyond what the divisions give.
  by_cases hlast : d = 146096
  · exact ⟨⟨3, 24, 3, 365, by omega, by omega, by omega, by omega, by omega, by omega⟩⟩
  · by_cases hleap : d % 36524 % 1461 = 1460
    · exact ⟨⟨d / 36524, d % 36524 / 1461, 3, 365, by omega, by omega, by omega, by omega,
        by omega, by omega⟩⟩
    · exact ⟨⟨d / 36524, d % 36524 / 1461, d % 36524 % 1461 / 365, d % 36524 % 1461 % 365,
        by omega, by omega, by omega, by omega, by omega, by omega⟩⟩

namespace Parts
variable {d : Int}

/-- The year of the era. -/
def yearOfEra (p : Parts d) : Int := 100 * p.century + 4 * p.span + p.year

/-- The divisions by 1460, 36524 and 146096 take the leap days out. -/
theorem yearOfEra_eq (p : Parts d) :
    (d - d / 1460 + d / 36524 - d / 146096) / 365 = p.yearOfEra := by
  obtain ⟨c, s, y, t, hd, hc, hs, hy, ht, hlast⟩ := p
  unfold yearOfEra
  dsimp only
  have h1460 : d / 1460 = 25 * c + s + (24 * c + s + 365 * y + t) / 1460 := by omega
  by_cases hend : d = 146096
  · subst hend
    omega
  · have h36524 : d / 36524 = c := by omega
    have h146096 : d / 146096 = 0 := by omega
    rw [h1460, h36524, h146096]
    omega

theorem daysBefore_yearOfEra (p : Parts d) :
    p.yearOfEra * 365 + p.yearOfEra / 4 - p.yearOfEra / 100 = d - p.day := by
  obtain ⟨c, s, y, t, hd, hc, hs, hy, ht, hlast⟩ := p
  unfold yearOfEra
  dsimp only
  omega

theorem yearOfEra_mem (p : Parts d) : 0 ≤ p.yearOfEra ∧ p.yearOfEra < 400 := by
  obtain ⟨c, s, y, t, hd, hc, hs, hy, ht, hlast⟩ := p
  unfold yearOfEra
  dsimp only
  omega

/-- A year with a day 365 is followed by a leap year. -/
theorem leap_of_day_eq (p : Parts d) (h : p.day = 365) :
    (p.yearOfEra + 1) % 4 = 0 ∧ ((p.yearOfEra + 1) % 100 ≠ 0 ∨ p.yearOfEra + 1 = 400) := by
  obtain ⟨c, s, y, t, hd, hc, hs, hy, ht, hlast⟩ := p
  unfold yearOfEra
  dsimp only at h ⊢
  obtain ⟨hy3, hspan⟩ := hlast h
  omega

end Parts

/-! ## Section 2: A day of a year -/

/-- The month, counted from March, of a day counted from the first of March. -/
theorem month_bounds {t : Int} (h0 : 0 ≤ t) (h1 : t ≤ 365) :
    let m := (5 * t + 2) / 153
    0 ≤ m ∧ m ≤ 11 ∧ 0 ≤ t - (153 * m + 2) / 5 ∧ t - (153 * m + 2) / 5 ≤ 30 ∧
      ((m = 1 ∨ m = 3 ∨ m = 6 ∨ m = 8) → t - (153 * m + 2) / 5 ≤ 29) ∧
      (m = 11 → t - (153 * m + 2) / 5 ≤ 28 ∧ (t < 365 → t - (153 * m + 2) / 5 ≤ 27)) := by
  intro m
  have hm : m = (5 * t + 2) / 153 := rfl
  clear_value m
  omega

/-- The date of a day, by the parts of its place in its era. -/
theorem dateOf_eq {z : Int} (p : Parts ((z + 719468) % 146097)) :
    dateOf z =
      let m := (5 * p.day + 2) / 153
      let month := if m < 10 then m + 3 else m - 9
      (p.yearOfEra + (z + 719468) / 146097 * 400 + (if month ≤ 2 then 1 else 0), month.toNat,
        (p.day - (153 * m + 2) / 5 + 1).toNat) := by
  have hday : (z + 719468) % 146097 -
      (365 * p.yearOfEra + p.yearOfEra / 4 - p.yearOfEra / 100) = p.day := by
    have := p.daysBefore_yearOfEra
    omega
  unfold dateOf
  simp only [p.yearOfEra_eq, hday]

/-- The day number of a date whose month and year are counted from March. -/
theorem dayNumber_eq {year m : Int} {day : Nat} (h0 : 0 ≤ m) (h11 : m ≤ 11) :
    dayNumber (year + if (if m < 10 then m + 3 else m - 9) ≤ 2 then 1 else 0)
        (if m < 10 then m + 3 else m - 9).toNat day =
      year / 400 * 146097 + (year % 400 * 365 + year % 400 / 4 - year % 400 / 100
        + ((153 * m + 2) / 5 + (day : Int) - 1)) - 719468 := by
  unfold dayNumber
  by_cases hm : m < 10
  · have hmonth : (((m + 3).toNat + 9) % 12 : Nat) = m.toNat := by omega
    have hm' : ((m.toNat : Nat) : Int) = m := by omega
    have hlate : ¬ (m + 3).toNat ≤ 2 := by omega
    have hlate' : ¬ m + 3 ≤ 2 := by omega
    simp only [if_pos hm, hmonth, hm', if_neg hlate, if_neg hlate', Int.add_zero]
  · have hmonth : (((m - 9).toNat + 9) % 12 : Nat) = m.toNat := by omega
    have hm' : ((m.toNat : Nat) : Int) = m := by omega
    have hearly : (m - 9).toNat ≤ 2 := by omega
    have hearly' : m - 9 ≤ 2 := by omega
    simp only [if_neg hm, hmonth, hm', if_pos hearly, if_pos hearly', Int.add_sub_cancel]

theorem dayNumber_dateOf (z : Int) :
    dayNumber (dateOf z).1 (dateOf z).2.1 (dateOf z).2.2 = z := by
  obtain ⟨p⟩ := exists_parts (d := (z + 719468) % 146097) (by omega) (by omega)
  obtain ⟨h0, h11, hlow, -, -, -⟩ := month_bounds p.day_mem.1 p.day_mem.2
  have hyear := p.yearOfEra_mem
  have hbefore := p.daysBefore_yearOfEra
  have hera : (p.yearOfEra + (z + 719468) / 146097 * 400) / 400 = (z + 719468) / 146097 := by omega
  have hof : (p.yearOfEra + (z + 719468) / 146097 * 400) % 400 = p.yearOfEra := by omega
  rw [dateOf_eq p]
  dsimp only
  rw [dayNumber_eq h0 h11, hera, hof]
  omega

/-- A date of the calendar. -/
structure IsDate (year : Int) (month day : Nat) : Prop where
  month_mem : 1 ≤ month ∧ month ≤ 12
  day_mem   : 1 ≤ day ∧ day ≤ monthLength year month

theorem isLeap_iff (year : Int) :
    isLeap year = true ↔ year % 4 = 0 ∧ (year % 100 ≠ 0 ∨ year % 400 = 0) := by
  simp [isLeap]

/-- The lengths of the months, counted from March, up to January. -/
theorem monthLength_of_march (year : Int) {m : Int} (h0 : 0 ≤ m) (h10 : m ≤ 10) :
    monthLength year (if m < 10 then m + 3 else m - 9).toNat =
      if m = 1 ∨ m = 3 ∨ m = 6 ∨ m = 8 then 30 else 31 := by
  have hcases : m = 0 ∨ m = 1 ∨ m = 2 ∨ m = 3 ∨ m = 4 ∨ m = 5 ∨ m = 6 ∨ m = 7 ∨ m = 8 ∨
      m = 9 ∨ m = 10 := by omega
  rcases hcases with rfl | rfl | rfl | rfl | rfl | rfl | rfl | rfl | rfl | rfl | rfl <;> rfl

theorem isDate_dateOf (z : Int) :
    IsDate (dateOf z).1 (dateOf z).2.1 (dateOf z).2.2 := by
  obtain ⟨p⟩ := exists_parts (d := (z + 719468) % 146097) (by omega) (by omega)
  obtain ⟨h0, h11, hlow, h30, hshort, hfeb⟩ := month_bounds p.day_mem.1 p.day_mem.2
  have hyear := p.yearOfEra_mem
  rw [dateOf_eq p]
  dsimp only
  generalize hm : (5 * p.day + 2) / 153 = m at *
  refine ⟨by split <;> omega, by omega, ?_⟩
  by_cases hm11 : m = 11
  · -- February: its last day is there in leap years only.
    subst hm11
    show _ ≤ if isLeap (p.yearOfEra + (z + 719468) / 146097 * 400 + 1) = true then 29 else 28
    by_cases hleap : isLeap (p.yearOfEra + (z + 719468) / 146097 * 400 + 1) = true
    · rw [if_pos hleap]
      omega
    · have hday : p.day ≠ 365 := by
        intro h365
        have := p.leap_of_day_eq h365
        apply hleap
        rw [isLeap_iff]
        omega
      have := (hfeb rfl).2 (by have := p.day_mem; omega)
      rw [if_neg hleap]
      omega
  · rw [monthLength_of_march _ h0 (by omega)]
    split
    next h => have := hshort h; omega
    next => omega

end Calendar
end ScriptDeps
