import ScriptDeps.Proofs.Text.Number
import ScriptDeps.Proofs.Time.Calendar

/-! # Timestamps there and back

    The written form of a timestamp is read as that timestamp, for every time
    whose year the calendar can name.  `Timestamp.ofText?_text` is the result;
    the lemmas before it take the written form apart from the left. -/

namespace ScriptDeps
namespace Timestamp

/-! ## Section 1: Digits -/

theorem isBlank_of_isDigit {c : Char} (h : Text.isDigit c = true) : Text.isBlank c = false := by
  simp only [Text.isDigit, Bool.and_eq_true, decide_eq_true_eq] at h
  have h0 : 48 ≤ c.toNat := h.1
  have h9 : c.toNat ≤ 57 := h.2
  simp only [Text.isBlank, Text.blankRanges, List.any_cons, List.any_nil, Bool.or_false]
  simp
  omega

/-- `t` does not go on with a digit. -/
def StopsDigits (t : Text) : Prop := ∀ c ∈ t.head?, Text.isDigit c = false

theorem takeWhile_isDigit_append {ds : Text} (rest : Text)
    (hds : ∀ c ∈ ds, Text.isDigit c = true) (hrest : StopsDigits rest) :
    (ds ++ rest).takeWhile Text.isDigit = ds := by
  rw [List.takeWhile_append_of_pos hds]
  cases rest with
  | nil => simp
  | cons c cs => simp [hrest c (by simp)]

/-- A run of digits is read whole, if it is not longer than allowed and what
    follows is no digit or is not looked at. -/
theorem digits?_append {ds rest : Text} {width : Nat} (hne : ds ≠ [])
    (hds : ∀ c ∈ ds, Text.isDigit c = true) (hwidth : ds.length ≤ width)
    (hrest : ds.length = width ∨ StopsDigits rest) :
    digits? width (ds ++ rest) = some (Decimal.value ds, rest) := by
  -- The digits end where the width does, or at the first character of the rest.
  have htake : ((ds ++ rest).take width).takeWhile Text.isDigit = ds := by
    rw [List.take_append, List.take_of_length_le hwidth]
    rcases hrest with heq | hstop
    · have h0 : width - ds.length = 0 := by omega
      rw [h0, List.take_zero, List.append_nil]
      simpa using takeWhile_isDigit_append [] hds (by simp [StopsDigits])
    · apply takeWhile_isDigit_append _ hds
      intro c hc
      cases rest with
      | nil => simp at hc
      | cons d rest =>
        cases hw : width - ds.length with
        | zero => rw [hw] at hc; simp at hc
        | succ k =>
          rw [hw] at hc
          exact hstop c (by simpa using hc)
  unfold digits?
  simp only [htake]
  rw [if_neg (by simp [hne])]
  simp

theorem dropBlanks_of_digit {c : Char} {t : Text} (h : Text.isDigit c = true) :
    dropBlanks (c :: t) = c :: t := by
  simp [dropBlanks, isBlank_of_isDigit h]

theorem dropBlanks_append_of_digits {ds rest : Text} (hne : ds ≠ [])
    (hds : ∀ c ∈ ds, Text.isDigit c = true) : dropBlanks (ds ++ rest) = ds ++ rest := by
  cases ds with
  | nil => exact absurd rfl hne
  | cons c cs => exact dropBlanks_of_digit (hds c (List.mem_cons_self ..))

/-! ## Section 2: Padded numbers -/

theorem isDigit_of_mem_padded {width n : Nat} {c : Char} (h : c ∈ padded width n) :
    Text.isDigit c = true := by
  unfold padded at h
  rcases List.mem_append.1 h with h | h
  · rw [(List.mem_replicate.1 h).2]; rfl
  · exact Decimal.isDigit_of_mem_ofNat h

theorem padded_ne_nil (width n : Nat) : padded width n ≠ [] := by
  unfold padded
  simp [Decimal.ofNat_ne_nil]

theorem value_replicate_append (k : Nat) (ds : Text) :
    Decimal.value (List.replicate k '0' ++ ds) = Decimal.value ds := by
  unfold Decimal.value
  rw [List.foldl_append]
  congr 1
  induction k with
  | zero => rfl
  | succ k ih => rw [List.replicate_succ, List.foldl_cons]; exact ih

@[simp] theorem value_padded (width n : Nat) : Decimal.value (padded width n) = n := by
  rw [padded, value_replicate_append, Decimal.value_ofNat]

/-- A number that fits is as wide as asked for. -/
theorem length_padded (width : Nat) {n : Nat} (hpos : 0 < width) (h : n < Nat.pow 10 width) :
    (padded width n).length = width := by
  have hlen : (Decimal.ofNat n).length ≤ width := (Nat.length_toDigits_le_iff (by omega) hpos).2 h
  unfold padded
  simp only [List.length_append, List.length_replicate]
  omega

/-- A padded number is read back, whatever follows it. -/
theorem number?_padded (width : Nat) {n : Nat} (rest : Text) (hpos : 0 < width)
    (h : n < Nat.pow 10 width) :
    number? width (padded width n ++ rest) = some (n, rest) := by
  have hlen := length_padded width hpos h
  unfold number?
  rw [dropBlanks_append_of_digits (padded_ne_nil _ _) fun c => isDigit_of_mem_padded,
    digits?_append (padded_ne_nil _ _) (fun c => isDigit_of_mem_padded) (by omega) (Or.inl hlen),
    value_padded]

/-! ## Section 3: The parts of a timestamp -/

theorem mark?_self {c : Char} (rest : Text) (h : Text.isBlank c = false) :
    mark? c (c :: rest) = some rest := by
  simp [mark?, dropBlanks, h]

theorem year?_of_digit {c : Char} {t : Text} (h : Text.isDigit c = true) :
    year? (c :: t) = (digits? 4 (c :: t)).map fun (n, r) => ((n : Int), r) := by
  have hminus : c ≠ '-' := by rintro rfl; exact absurd h (by decide)
  have hplus : c ≠ '+' := by rintro rfl; exact absurd h (by decide)
  unfold year?
  rw [dropBlanks_of_digit h]
  split
  next heq => exact absurd (List.cons.inj heq).1 hminus
  next heq => exact absurd (List.cons.inj heq).1 hplus
  next => rfl

theorem digits?_padded_all {n : Nat} {rest : Text} (hrest : StopsDigits rest) :
    digits? (padded 4 n ++ rest).length (padded 4 n ++ rest) = some (n, rest) := by
  rw [digits?_append (padded_ne_nil _ _) (fun c => isDigit_of_mem_padded) (by simp) (Or.inr hrest),
    value_padded]

theorem year?_yearText (year : Int) {rest : Text} (hrest : StopsDigits rest) :
    year? (yearText year ++ rest) = some (year, rest) := by
  unfold yearText
  by_cases h : 0 ≤ year ∧ year ≤ 9999
  · -- Four digits without a sign.
    rw [if_pos h]
    have hlt : year.toNat < 10000 := by omega
    have hlen : (padded 4 year.toNat).length = 4 := length_padded 4 (by decide) hlt
    have hread : digits? 4 (padded 4 year.toNat ++ rest) = some (year.toNat, rest) := by
      rw [digits?_append (padded_ne_nil _ _) (fun c => isDigit_of_mem_padded) (by omega)
        (Or.inl hlen), value_padded]
    obtain ⟨c, cs, hcs⟩ := List.exists_cons_of_ne_nil (padded_ne_nil 4 year.toNat)
    have hc : Text.isDigit c = true := isDigit_of_mem_padded (by rw [hcs]; simp)
    rw [hcs, List.cons_append] at hread ⊢
    rw [year?_of_digit hc, hread]
    show some ((year.toNat : Int), rest) = _
    rw [Int.toNat_of_nonneg h.1]
  · -- A sign, behind which all digits belong to the year.
    rw [if_neg h]
    by_cases hneg : year < 0
    · rw [if_pos hneg, List.cons_append]
      show (digits? _ (padded 4 year.natAbs ++ rest)).map _ = _
      have hyear : -(year.natAbs : Int) = year := by omega
      rw [digits?_padded_all hrest]
      show some (-(year.natAbs : Int), rest) = _
      rw [hyear]
    · rw [if_neg hneg, List.cons_append]
      show (digits? _ (padded 4 year.natAbs ++ rest)).map _ = _
      have hyear : (year.natAbs : Int) = year := by omega
      rw [digits?_padded_all hrest]
      show some ((year.natAbs : Int), rest) = _
      rw [hyear]

theorem fraction?_point (rest : Text) :
    fraction? ('.' :: rest) =
      match digits? 9 rest with
      | none => none
      | some (n, after) =>
          some (n * Nat.pow 10 (9 - (rest.length - after.length)), after.dropWhile Text.isDigit) :=
  rfl

/-- A fraction behind its point is read back. -/
theorem fraction?_padded {width n : Nat} {rest : Text} (hpos : 0 < width) (h9 : width ≤ 9)
    (h : n < Nat.pow 10 width) (hrest : StopsDigits rest) :
    fraction? ('.' :: padded width n ++ rest) = some (n * Nat.pow 10 (9 - width), rest) := by
  have hlen := length_padded width hpos h
  have hdrop : rest.dropWhile Text.isDigit = rest := by
    cases rest with
    | nil => rfl
    | cons c cs => simp [hrest c (by simp)]
  rw [List.cons_append, fraction?_point, digits?_append (padded_ne_nil _ _)
    (fun c => isDigit_of_mem_padded) (by omega) (Or.inr hrest), value_padded]
  simp [hlen, hdrop]

theorem fraction?_fractionText {nano : Nat} {rest : Text} (h : nano < 1000000000)
    (hrest : StopsDigits rest) (hpoint : rest.head? ≠ some '.') :
    fraction? (fractionText nano ++ rest) = some (nano, rest) := by
  unfold fractionText
  by_cases h0 : nano = 0
  · rw [if_pos h0, List.nil_append]
    subst h0
    unfold fraction?
    split
    next => simp at hpoint
    next => rfl
  · -- The shortest of three widths is written that loses nothing.
    rw [if_neg h0]
    by_cases h3 : nano % 1000000 = 0
    · have hlt : nano / 1000000 < 1000 := by omega
      rw [if_pos h3, fraction?_padded (by decide) (by decide) hlt hrest]
      have hback : nano / 1000000 * 1000000 = nano := by omega
      exact congrArg (fun n => some (n, rest)) hback
    · rw [if_neg h3]
      by_cases h6 : nano % 1000 = 0
      · have hlt : nano / 1000 < 1000000 := by omega
        rw [if_pos h6, fraction?_padded (by decide) (by decide) hlt hrest]
        have hback : nano / 1000 * 1000 = nano := by omega
        exact congrArg (fun n => some (n, rest)) hback
      · rw [if_neg h6, fraction?_padded (by decide) (by decide) h hrest]
        exact congrArg (fun n => some (n, rest)) (Nat.mul_one nano)

/-! ## Section 4: The whole -/

/-- The calendar can name the year. -/
def IsDated (t : Timestamp) : Prop :=
  t.nano < 1000000000 ∧ (Calendar.dateOf (t.second / 86400)).1.natAbs ≤ yearLimit

instance (t : Timestamp) : Decidable t.IsDated :=
  inferInstanceAs (Decidable (_ ∧ _))

theorem monthLength_lt (year : Int) (month : Nat) : Calendar.monthLength year month < 32 := by
  unfold Calendar.monthLength
  split
  · split <;> omega
  · omega
  · omega
  · omega
  · omega
  · omega

theorem ofParts?_dateOf {t : Timestamp} (h : t.IsDated) :
    let date := Calendar.dateOf (t.second / 86400)
    let inDay := (t.second % 86400).toNat
    ofParts? date.1 date.2.1 date.2.2 (inDay / 3600) (inDay / 60 % 60) (inDay % 60) t.nano 0 =
      some t := by
  intro date inDay
  obtain ⟨⟨hm1, hm12⟩, ⟨hd1, hdl⟩⟩ := Calendar.isDate_dateOf (t.second / 86400)
  have hday := Calendar.dayNumber_dateOf (t.second / 86400)
  have hin : (inDay : Int) = t.second % 86400 := by omega
  have hlt : inDay < 86400 := by omega
  unfold ofParts?
  rw [if_pos ⟨h.2, hm1, hm12, hd1, hdl, by omega, by omega, by omega, by decide⟩,
    if_neg (by omega)]
  show some (⟨Calendar.dayNumber date.1 date.2.1 date.2.2 * 86400 + _ - 0, _⟩ : Timestamp) = _
  rw [hday]
  obtain ⟨second, nano⟩ := t
  dsimp only at *
  congr 2
  omega

theorem stopsDigits_cons {c : Char} (t : Text) (h : Text.isDigit c = false) :
    StopsDigits (c :: t) := by
  intro d hd
  simp only [List.head?_cons, Option.mem_some_iff] at hd
  rw [← hd]
  exact h

theorem bind_of_eq_some {α β : Type} {x : Option α} {a : α} {f : α → Option β} (h : x = some a) :
    x >>= f = f a := by
  rw [h]
  rfl

/-- The fields of a written timestamp are read one after the other. -/
theorem ofText?_fields (year : Int) (month day hour minute second nano : Nat)
    (hmonth : month < 100) (hday : day < 100) (hhour : hour < 100) (hminute : minute < 100)
    (hsecond : second < 100) (hnano : nano < 1000000000) :
    ofText? (yearText year ++ '-' :: (padded 2 month ++ '-' :: (padded 2 day ++ 'T' ::
      (padded 2 hour ++ ':' :: (padded 2 minute ++ ':' :: (padded 2 second ++
        (fractionText nano ++ ['Z']))))))) =
      ofParts? year month day hour minute second nano 0 := by
  have hminus : Text.isBlank '-' = false := by decide
  have hcolon : Text.isBlank ':' = false := by decide
  have hz : StopsDigits ['Z'] := stopsDigits_cons _ (by decide)
  have hoffset : offset? (dropBlanks ['Z']) = some (0, []) := by decide
  -- The parts are read one after the other, in the order they are written.
  unfold ofText?
  refine (bind_of_eq_some (year?_yearText year (stopsDigits_cons _ (by decide)))).trans ?_
  refine (bind_of_eq_some (mark?_self _ hminus)).trans ?_
  refine (bind_of_eq_some (number?_padded 2 _ (by decide) hmonth)).trans ?_
  refine (bind_of_eq_some (mark?_self _ hminus)).trans ?_
  refine (bind_of_eq_some (number?_padded 2 _ (by decide) hday)).trans ?_
  refine (if_pos rfl).trans ?_
  refine (bind_of_eq_some rfl).trans ?_
  refine (bind_of_eq_some (number?_padded 2 _ (by decide) hhour)).trans ?_
  refine (bind_of_eq_some (mark?_self _ hcolon)).trans ?_
  refine (bind_of_eq_some (number?_padded 2 _ (by decide) hminute)).trans ?_
  refine (bind_of_eq_some (mark?_self _ hcolon)).trans ?_
  refine (bind_of_eq_some (number?_padded 2 _ (by decide) hsecond)).trans ?_
  refine (bind_of_eq_some (fraction?_fractionText hnano hz (by decide))).trans ?_
  refine (bind_of_eq_some hoffset).trans ?_
  exact if_pos rfl

theorem ofText?_text {t : Timestamp} (h : t.IsDated) : ofText? t.text = some t := by
  have hparts := ofParts?_dateOf h
  obtain ⟨⟨hm1, hm12⟩, ⟨hd1, hdl⟩⟩ := Calendar.isDate_dateOf (t.second / 86400)
  have h32 := monthLength_lt (Calendar.dateOf (t.second / 86400)).1
    (Calendar.dateOf (t.second / 86400)).2.1
  have hnano : t.nano / 1000000000 = 0 := by have := h.1; omega
  have hnano' : t.nano % 1000000000 = t.nano := by have := h.1; omega
  have hin : (t.second % 86400).toNat < 86400 := by omega
  have hfields := ofText?_fields (Calendar.dateOf (t.second / 86400)).1
    (Calendar.dateOf (t.second / 86400)).2.1 (Calendar.dateOf (t.second / 86400)).2.2
    ((t.second % 86400).toNat / 3600) ((t.second % 86400).toNat / 60 % 60)
    ((t.second % 86400).toNat % 60) t.nano
    (by omega) (by omega) (by omega) (by omega) (by omega) h.1
  unfold text dateAndTime
  simp only [hnano, hnano', Nat.add_zero, List.append_assoc, List.cons_append]
  rw [← hparts, ← hfields]
  rfl

end Timestamp
end ScriptDeps
