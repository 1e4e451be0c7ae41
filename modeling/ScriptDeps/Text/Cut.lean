import ScriptDeps.Text.Blank

/-! # Cutting lists

    Trimming, splitting at a separator, and taking known beginnings and ends
    off.  Everything here works on lists of any type, so the same functions
    serve text and raw bytes. -/

namespace ScriptDeps
namespace Cut

variable {α : Type}

/-! ## Section 1: Trimming -/

/-- Drops the longest end whose elements all satisfy `p`. -/
def trimEnd (p : α → Bool) (xs : List α) : List α :=
  (xs.reverse.dropWhile p).reverse

/-- Drops the longest beginning and the longest end that satisfy `p`. -/
def trim (p : α → Bool) (xs : List α) : List α :=
  trimEnd p (xs.dropWhile p)

/-! ## Section 2: Known beginnings and ends -/

/-- What follows `start` in `xs`, if `xs` begins with it. -/
def after? [BEq α] (start xs : List α) : Option (List α) :=
  start.isPrefixOf? xs

/-- What precedes `finish` in `xs`, if `xs` ends with it. -/
def before? [BEq α] (finish xs : List α) : Option (List α) :=
  (after? finish.reverse xs.reverse).map List.reverse

/-! ## Section 3: Splitting -/

/-- The parts before and after the first element that satisfies `p`. -/
def splitFirst (p : α → Bool) : List α → Option (List α × List α)
  | [] => none
  | x :: xs =>
      if p x then some ([], xs)
      else (splitFirst p xs).map fun (a, b) => (x :: a, b)

/-- The parts between the elements that satisfy `p`; never an empty list. -/
def pieces (p : α → Bool) : List α → List (List α)
  | [] => [[]]
  | x :: xs =>
      if p x then [] :: pieces p xs
      else match pieces p xs with
        | [] => [[x]]
        | a :: rest => (x :: a) :: rest

/-- The non-empty parts between the elements that satisfy `p`. -/
def words (p : α → Bool) (xs : List α) : List (List α) :=
  (pieces p xs).filter fun w => !w.isEmpty

/-- The parts before and after the first place where `mark` stands. -/
def splitAt? [BEq α] (mark : List α) : List α → Option (List α × List α)
  | [] => (after? mark []).map fun rest => ([], rest)
  | x :: xs =>
      match after? mark (x :: xs) with
      | some rest => some ([], rest)
      | none => (splitAt? mark xs).map fun (a, b) => (x :: a, b)

/-- The parts before and after the last place where `mark` stands. -/
def splitAtLast? [BEq α] (mark xs : List α) : Option (List α × List α) :=
  (splitAt? mark.reverse xs.reverse).map fun (a, b) => (b.reverse, a.reverse)

/-- The parts `xs` joined by `sep`. -/
def join (sep : List α) : List (List α) → List α
  | [] => []
  | [x] => x
  | x :: rest => x ++ sep ++ join sep rest

/-! ## Section 4: Laws -/

/-- Nothing is lost at the end but elements that satisfy `p`. -/
theorem trimEnd_append_dropped (p : α → Bool) (xs : List α) :
    ∃ tail, xs = trimEnd p xs ++ tail ∧ ∀ x ∈ tail, p x = true := by
  refine ⟨(xs.reverse.takeWhile p).reverse, ?_, ?_⟩
  · have h := List.takeWhile_append_dropWhile (p := p) (l := xs.reverse)
    have h' := congrArg List.reverse h
    rw [List.reverse_append, List.reverse_reverse] at h'
    exact h'.symm
  · intro x hx
    rw [List.mem_reverse] at hx
    exact List.all_eq_true.1 List.all_takeWhile x hx

theorem pieces_ne_nil (p : α → Bool) (xs : List α) : pieces p xs ≠ [] := by
  cases xs with
  | nil => simp [pieces]
  | cons x xs =>
    rw [pieces]
    split
    · simp
    · split <;> simp

theorem splitFirst_eq_none (p : α → Bool) (xs : List α) :
    splitFirst p xs = none ↔ ∀ x ∈ xs, p x = false := by
  induction xs with
  | nil => simp [splitFirst]
  | cons x xs ih =>
    rw [splitFirst]
    by_cases h : p x = true <;> simp_all

/-- A split puts the input back together around the element found. -/
theorem splitFirst_eq_some {p : α → Bool} {xs a b : List α}
    (h : splitFirst p xs = some (a, b)) :
    ∃ x, xs = a ++ x :: b ∧ p x = true ∧ ∀ y ∈ a, p y = false := by
  induction xs generalizing a with
  | nil => simp [splitFirst] at h
  | cons x xs ih =>
    rw [splitFirst] at h
    by_cases hx : p x = true
    · simp [hx] at h
      obtain ⟨rfl, rfl⟩ := h
      exact ⟨x, by simp, hx, by simp⟩
    · simp [hx] at h
      obtain ⟨a', ha', rfl⟩ := h
      obtain ⟨y, hy, hpy, hall⟩ := ih ha'
      refine ⟨y, by simp [hy], hpy, ?_⟩
      intro z hz
      rcases List.mem_cons.1 hz with rfl | hz
      · simpa using hx
      · exact hall z hz

end Cut
end ScriptDeps
