import ScriptDeps.Proofs.Text.Trim

/-! # Words and last places

    The words of a list are its longest parts without separators, in order.
    `HasWords` says so without cutting anything, and `words_eq_iff` that the
    words found by cutting are these.  `IsLast` is the counterpart of `IsFirst`
    for the last place of a mark; where the first element of a mark does not
    come again in it, two marks never overlap (`isLast_iff`). -/

namespace ScriptDeps
namespace Cut

variable {α : Type}

/-! ## Section 1: Model -/

/-- `HasWords p xs ws`: between separators, which are what satisfies `p`, the
    list `xs` has exactly the words `ws`. -/
inductive HasWords (p : α → Bool) : List α → List (List α) → Prop
  | none {gap : List α} (hgap : ∀ x ∈ gap, p x = true) : HasWords p gap []
  /-- A word goes on as far as it can: up to a separator or to the end. -/
  | word {gap w rest : List α} {ws : List (List α)} (hgap : ∀ x ∈ gap, p x = true)
      (hne : w ≠ []) (hw : ∀ x ∈ w, p x = false) (hends : ∀ x ∈ rest.head?, p x = true)
      (h : HasWords p rest ws) : HasWords p (gap ++ w ++ rest) (w :: ws)

/-- The parts before and after the last place in `xs` where `mark` stands. -/
def IsLast (mark xs a b : List α) : Prop :=
  xs = a ++ mark ++ b ∧ ∀ a' b', xs = a' ++ mark ++ b' → a'.length ≤ a.length

/-! ## Section 2: Words -/

variable {p : α → Bool} {xs gap w rest : List α} {ws : List (List α)}

@[simp] theorem words_nil : words p ([] : List α) = [] := rfl

@[simp] theorem words_cons_mark {x : α} (hx : p x = true) (xs : List α) :
    words p (x :: xs) = words p xs := by
  simp [words, pieces, hx]

theorem words_gap (hgap : ∀ x ∈ gap, p x = true) (xs : List α) :
    words p (gap ++ xs) = words p xs := by
  induction gap with
  | nil => rfl
  | cons x gap ih =>
    have hx : p x = true := hgap x (by simp)
    rw [List.cons_append, words_cons_mark hx]
    apply ih
    intro y hy
    exact hgap y (by simp [hy])

/-- A word at the front is the first word, if it ends there. -/
theorem words_word (hne : w ≠ []) (hw : ∀ x ∈ w, p x = false)
    (hends : ∀ x ∈ rest.head?, p x = true) : words p (w ++ rest) = w :: words p rest := by
  cases rest with
  | nil => simp [words, pieces_of_forall hw, pieces, hne]
  | cons x rest =>
    have hx : p x = true := hends x rfl
    rw [words_cons_mark hx]
    simp [words, pieces_append_mark hx, pieces_of_forall hw, hne]

theorem HasWords.words_eq (h : HasWords p xs ws) : words p xs = ws := by
  induction h with
  | none hgap =>
    have hnone := words_gap hgap []
    rwa [List.append_nil, words_nil] at hnone
  | word hgap hne hw hends h ih =>
    rw [List.append_assoc, words_gap hgap, words_word hne hw hends, ih]

/-- Whatever a list is, it has the words that cutting finds. -/
theorem hasWords_words (p : α → Bool) (xs : List α) : HasWords p xs (words p xs) := by
  -- By induction on the length: what follows the first word is shorter.
  generalize hlength : xs.length = k
  induction k using Nat.strongRecOn generalizing xs with
  | ind k ih =>
    obtain ⟨gap, hxs, hgap⟩ := exists_run p xs
    obtain ⟨w, hrest, hw⟩ := exists_run (fun x => !p x) (xs.dropWhile p)
    have hw : ∀ x ∈ w, p x = false := by simpa using hw
    have hends : ∀ x ∈ ((xs.dropWhile p).dropWhile fun x => !p x).head?, p x = true := by
      intro x hx
      simpa using stops_dropWhile (fun x => !p x) (xs.dropWhile p) x hx
    generalize (xs.dropWhile p).dropWhile (fun x => !p x) = rest at hrest hends
    by_cases hne : w = []
    · -- Without a word nothing but the gap is there.
      have hnone : rest = [] := by
        cases rest with
        | nil => rfl
        | cons y rest =>
          have hstops := stops_dropWhile p xs
          rw [hrest, hne, List.nil_append, stops_cons, hends y rfl] at hstops
          cases hstops
      have hall : ∀ x ∈ xs, p x = true := by
        rw [hxs, hrest, hne, hnone]
        simpa using hgap
      have hwords : words p xs = [] := (HasWords.none hall).words_eq
      rw [hwords]
      exact .none hall
    · have hparts : xs = gap ++ w ++ rest := by rw [List.append_assoc, ← hrest, ← hxs]
      have hshort : rest.length < k := by
        have hpos : 0 < w.length := List.length_pos_iff.2 hne
        rw [← hlength, hparts]
        simp
        omega
      have hwords : words p xs = w :: words p rest := by
        rw [hparts, List.append_assoc, words_gap hgap, words_word hne hw hends]
      rw [hwords, hparts]
      exact .word hgap hne hw hends (ih rest.length hshort rest rfl)

/-- Cutting finds the words, and nothing else is a list of them. -/
theorem words_eq_iff : words p xs = ws ↔ HasWords p xs ws := by
  constructor
  · intro h
    rw [← h]
    exact hasWords_words p xs
  · exact HasWords.words_eq

theorem words_eq_nil_iff : words p xs = [] ↔ ∀ x ∈ xs, p x = true := by
  constructor
  · intro h
    cases words_eq_iff.1 h with
    | none hgap => exact hgap
  · intro h
    exact (HasWords.none h).words_eq

/-- Words that are joined by a separator come apart again. -/
theorem words_join {x : α} (hx : p x = true) (hws : ∀ w ∈ ws, w ≠ [] ∧ ∀ y ∈ w, p y = false) :
    words p (join [x] ws) = ws := by
  induction ws with
  | nil => rfl
  | cons w ws ih =>
    obtain ⟨hne, hw⟩ := hws w (by simp)
    have hrest : words p (join [x] ws) = ws := by
      apply ih
      intro w' hw'
      exact hws w' (by simp [hw'])
    by_cases hnil : ws = []
    · subst hnil
      have hend : ∀ y ∈ ([] : List α).head?, p y = true := by simp
      have hword := words_word hne hw hend
      rw [List.append_nil, words_nil] at hword
      exact hword
    · rw [join_cons [x] w hnil, List.append_assoc, List.singleton_append,
        words_word hne hw (by simpa using hx), words_cons_mark hx, hrest]

/-! ## Section 3: Last places -/

variable {mark a b : List α}

/-- The last place is the first one of the reversed list. -/
theorem isLast_iff_reverse :
    IsLast mark xs a b ↔ IsFirst mark.reverse xs.reverse b.reverse a.reverse := by
  -- A place tells the same in both directions; its front and its back add up to the length.
  have hplace : ∀ a b,
      xs = a ++ mark ++ b ↔ xs.reverse = b.reverse ++ mark.reverse ++ a.reverse := by
    intro a b
    rw [← List.reverse_inj]
    simp
  have hsum : ∀ {a b}, xs = a ++ mark ++ b → xs.length = a.length + mark.length + b.length := by
    intro a b h
    rw [h, List.length_append, List.length_append]
  unfold IsLast IsFirst
  rw [← hplace]
  refine and_congr_right fun hab => ?_
  constructor
  · intro hlast b' a' heq
    have hplace' := (hplace a'.reverse b'.reverse).2 (by simpa using heq)
    have hle := hlast _ _ hplace'
    have h := hsum hab
    have h' := hsum hplace'
    simp only [List.length_reverse] at h h' hle ⊢
    omega
  · intro hfirst a' b' heq
    have hle := hfirst _ _ ((hplace a' b').1 heq)
    have h := hsum hab
    have h' := hsum heq
    simp only [List.length_reverse] at hle
    omega

theorem splitAtLast?_eq_some_iff [BEq α] [LawfulBEq α] :
    splitAtLast? mark xs = some (a, b) ↔ IsLast mark xs a b := by
  rw [isLast_iff_reverse, ← splitAt?_eq_some_iff, splitAtLast?, Option.map_eq_some_iff]
  constructor
  · rintro ⟨⟨c, d⟩, hcd, heq⟩
    cases heq
    simpa using hcd
  · intro h
    exact ⟨_, h, by simp⟩

/-- A mark whose first element does not come again in it stands last where none
    follows it. -/
theorem isLast_iff {x : α} (hx : x ∉ mark) :
    IsLast (x :: mark) (a ++ x :: mark ++ b) a b ↔ ¬ (x :: mark) <:+: b := by
  constructor
  · rintro ⟨-, hlast⟩ ⟨c, d, rfl⟩
    have hle := hlast (a ++ x :: mark ++ c) d (by simp)
    simp only [List.length_append, List.length_cons] at hle
    omega
  · intro hnone
    refine ⟨rfl, fun a' b' heq => ?_⟩
    -- A later place would start behind the mark, so it would lie in what follows.
    refine Nat.le_of_not_lt fun hlater => hnone ?_
    have hfirst : a <+: a ++ x :: mark ++ b := ⟨x :: mark ++ b, by simp⟩
    have hsecond : a' <+: a ++ x :: mark ++ b := ⟨x :: mark ++ b', by simp [heq]⟩
    have hfront : a <+: a' := List.prefix_of_prefix_length_le hfirst hsecond (Nat.le_of_lt hlater)
    obtain ⟨t, rfl⟩ := hfront
    have hne : t ≠ [] := by
      rintro rfl
      simp at hlater
    obtain ⟨y, t, rfl⟩ := List.exists_cons_of_ne_nil hne
    have hrest : mark ++ b = t ++ (x :: (mark ++ b')) := by
      have hcancel : x :: mark ++ b = y :: t ++ (x :: mark ++ b') := by
        rw [← List.append_cancel_left_eq a]
        simpa using heq
      exact (List.cons.inj hcancel).2
    rcases List.append_eq_append_iff.1 hrest with ⟨k, rfl, rfl⟩ | ⟨k, rfl, hk⟩
    · exact ⟨k, b', by simp⟩
    · cases k with
      | nil => exact ⟨[], b', by simpa using hk⟩
      | cons z k =>
        obtain ⟨rfl, -⟩ := List.cons.inj hk
        exact absurd (by simp) hx

end Cut
end ScriptDeps
