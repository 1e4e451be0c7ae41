import ScriptDeps.Text.Cut

/-! # Cutting and joining

    What known beginnings, pieces and joins have to do with each other: a
    beginning that was put in front is found again, and pieces joined with the
    mark between them are what was cut. -/

namespace ScriptDeps
namespace Cut

variable {α : Type} {p : α → Bool}

/-! ## Section 1: Known beginnings -/

section beginnings

variable [BEq α]

theorem isPrefixOf?_nil (xs : List α) : List.isPrefixOf? [] xs = some xs := rfl

theorem isPrefixOf?_cons_nil (x : α) (xs : List α) : List.isPrefixOf? (x :: xs) [] = none := rfl

theorem isPrefixOf?_cons (x : α) (xs : List α) (y : α) (ys : List α) :
    List.isPrefixOf? (x :: xs) (y :: ys) = if x == y then List.isPrefixOf? xs ys else none := rfl

variable [LawfulBEq α]

@[simp] theorem after?_append (start rest : List α) : after? start (start ++ rest) = some rest := by
  unfold after?
  induction start with
  | nil => rfl
  | cons c cs ih =>
    rw [List.cons_append, isPrefixOf?_cons, if_pos (beq_self_eq_true c)]
    exact ih

/-- A beginning that differs in some place is not found. -/
theorem after?_eq_none {start xs : List α} (h : start.isPrefixOf xs = false) :
    after? start xs = none := by
  unfold after?
  induction start generalizing xs with
  | nil => simp [List.isPrefixOf] at h
  | cons c cs ih =>
    cases xs with
    | nil => rfl
    | cons d ds =>
      by_cases hc : c = d
      · subst hc
        simp only [List.isPrefixOf, BEq.rfl, Bool.true_and] at h
        simpa [isPrefixOf?_cons] using ih h
      · simp [isPrefixOf?_cons, hc]

/-- What was found is what stands there. -/
theorem eq_append_of_after? {start xs rest : List α} (h : after? start xs = some rest) :
    xs = start ++ rest := by
  unfold after? at h
  induction start generalizing xs with
  | nil => simpa [isPrefixOf?_nil] using h
  | cons c cs ih =>
    cases xs with
    | nil => simp [isPrefixOf?_cons_nil] at h
    | cons d ds =>
      by_cases hc : c = d
      · subst hc
        have hds : ds = cs ++ rest := ih (by simpa [isPrefixOf?_cons] using h)
        rw [hds]
        rfl
      · simp [isPrefixOf?_cons, hc] at h

/-- A split takes its second part from what it was given. -/
theorem mem_of_splitAt? {mark xs front rest : List α} (h : splitAt? mark xs = some (front, rest))
    {x : α} (hx : x ∈ rest) : x ∈ xs := by
  induction xs generalizing front with
  | nil =>
    rw [splitAt?] at h
    obtain ⟨r, hr, hpair⟩ := Option.map_eq_some_iff.1 h
    cases hpair
    rw [eq_append_of_after? hr]
    exact List.mem_append_right _ hx
  | cons y ys ih =>
    rw [splitAt?] at h
    split at h
    · next r hr =>
      cases h
      rw [eq_append_of_after? hr]
      exact List.mem_append_right _ hx
    · obtain ⟨⟨a, r⟩, hr, hpair⟩ := Option.map_eq_some_iff.1 h
      cases hpair
      exact List.mem_cons_of_mem _ (ih hr)

end beginnings

/-! ## Section 2: Joins -/

theorem join_cons (sep x : List α) {rest : List (List α)} (h : rest ≠ []) :
    join sep (x :: rest) = x ++ sep ++ join sep rest := by
  cases rest with
  | nil => exact absurd rfl h
  | cons y rest => rfl

theorem join_prefix (sep : List α) (xs ys : List (List α)) :
    join sep xs <+: join sep (xs ++ ys) := by
  induction xs with
  | nil => exact List.nil_prefix
  | cons x rest ih =>
    by_cases hrest : rest = []
    · subst hrest
      cases ys with
      | nil => exact List.prefix_refl _
      | cons y ys =>
        rw [List.singleton_append, join_cons _ _ (List.cons_ne_nil y ys), List.append_assoc]
        exact List.prefix_append ..
    · rw [List.cons_append, join_cons _ _ hrest, join_cons _ _ (by simp [hrest]),
        List.prefix_append_right_inj]
      exact ih

theorem mem_join {sep : List α} {xs : List (List α)} {c : α} (h : c ∈ join sep xs) :
    c ∈ sep ∨ ∃ x ∈ xs, c ∈ x := by
  induction xs with
  | nil => exact absurd h List.not_mem_nil
  | cons x rest ih =>
    by_cases hrest : rest = []
    · subst hrest
      exact .inr ⟨x, List.mem_singleton_self x, h⟩
    · rw [join_cons _ _ hrest, List.mem_append, List.mem_append] at h
      rcases h with (hx | hsep) | hlater
      · exact .inr ⟨x, List.mem_cons_self .., hx⟩
      · exact .inl hsep
      · refine (ih hlater).imp_right ?_
        rintro ⟨y, hy, hc⟩
        exact ⟨y, List.mem_cons_of_mem _ hy, hc⟩

theorem length_le_join {sep x : List α} {xs : List (List α)} (h : x ∈ xs) :
    x.length ≤ (join sep xs).length := by
  induction xs with
  | nil => exact absurd h List.not_mem_nil
  | cons y ys ih =>
    by_cases hys : ys = []
    · subst hys
      rw [List.mem_singleton] at h
      exact Nat.le_of_eq (by rw [h, join])
    · rw [join_cons _ _ hys, List.length_append, List.length_append]
      rcases List.mem_cons.1 h with rfl | h
      · omega
      · have := ih h
        omega

theorem count_le_length_join (sep : List α) (xs : List (List α)) (h : ∀ x ∈ xs, x ≠ []) :
    xs.length ≤ (join sep xs).length := by
  induction xs with
  | nil => exact Nat.le_refl _
  | cons y ys ih =>
    have hy := List.length_pos_iff.2 (h y (List.mem_cons_self ..))
    by_cases hys : ys = []
    · subst hys
      exact hy
    · have := ih fun x hx => h x (List.mem_cons_of_mem _ hx)
      rw [join_cons _ _ hys, List.length_append, List.length_append, List.length_cons]
      omega

theorem count_join [BEq α] {c : α} (sep : List α) (xs : List (List α))
    (h : ∀ x ∈ xs, x.count c = 0) :
    (join sep xs).count c = sep.count c * (xs.length - 1) := by
  induction xs with
  | nil => rfl
  | cons x rest ih =>
    have hx := h x (List.mem_cons_self ..)
    by_cases hrest : rest = []
    · subst hrest
      simpa [join] using hx
    · have hpos := List.length_pos_iff.2 hrest
      obtain ⟨n, hn⟩ : ∃ n, rest.length = n + 1 := ⟨rest.length - 1, by omega⟩
      have hcount := ih fun z hz => h z (List.mem_cons_of_mem _ hz)
      rw [join_cons _ _ hrest, List.count_append, List.count_append, hx, hcount, List.length_cons,
        hn, Nat.add_sub_cancel, Nat.add_sub_cancel, Nat.mul_succ]
      omega

/-! ## Section 3: Pieces -/

theorem pieces_append_mark {x : α} (hx : p x = true) (xs ys : List α) :
    pieces p (xs ++ x :: ys) = pieces p xs ++ pieces p ys := by
  induction xs with
  | nil => simp [pieces, hx]
  | cons z zs ih =>
    rw [List.cons_append, pieces, pieces, ih]
    by_cases hz : p z = true
    · simp [hz]
    · cases hpieces : pieces p zs with
      | nil => exact absurd hpieces (pieces_ne_nil p zs)
      | cons a rest => simp [hz]

theorem pieces_of_forall {xs : List α} (h : ∀ x ∈ xs, p x = false) : pieces p xs = [xs] := by
  induction xs with
  | nil => rfl
  | cons x xs ih =>
    have hx := h x (List.mem_cons_self ..)
    rw [pieces, ih fun y hy => h y (List.mem_cons_of_mem _ hy)]
    simp [hx]

/-- No piece holds a mark. -/
theorem eq_false_of_mem_pieces {xs piece : List α} (h : piece ∈ pieces p xs) :
    ∀ x ∈ piece, p x = false := by
  induction xs generalizing piece with
  | nil =>
    rw [pieces, List.mem_singleton] at h
    subst h
    intro x hx
    exact absurd hx (List.not_mem_nil)
  | cons y ys ih =>
    rw [pieces] at h
    -- A mark begins a new piece, and anything else goes to the first one.
    by_cases hy : p y = true
    · rw [if_pos hy] at h
      rcases List.mem_cons.1 h with rfl | h
      · intro x hx
        exact absurd hx (List.not_mem_nil)
      · exact ih h
    · rw [if_neg hy] at h
      cases hpieces : pieces p ys with
      | nil => exact absurd hpieces (pieces_ne_nil p ys)
      | cons a rest =>
        rw [hpieces] at h ih
        rcases List.mem_cons.1 h with rfl | h
        · intro x hx
          rcases List.mem_cons.1 hx with rfl | hx
          · simpa using hy
          · exact ih (List.mem_cons_self ..) x hx
        · exact ih (List.mem_cons_of_mem _ h)

/-- Pieces put together again with the mark are what was cut. -/
theorem join_pieces [DecidableEq α] (mark : α) (xs : List α) :
    join [mark] (pieces (· = mark) xs) = xs := by
  induction xs with
  | nil => rfl
  | cons y ys ih =>
    rw [pieces]
    cases hpieces : pieces (· = mark) ys with
    | nil => exact absurd hpieces (pieces_ne_nil _ ys)
    | cons a rest =>
      rw [hpieces] at ih
      by_cases hy : y = mark
      · subst hy
        simpa [join] using ih
      · rw [if_neg (by simpa using hy)]
        cases rest with
        | nil => simpa [join] using ih
        | cons b rest => simpa [join] using ih

/-- What is put together from pieces without a mark is cut into them. -/
theorem pieces_join [DecidableEq α] (mark : α) (piece : List α) (rest : List (List α))
    (h : ∀ a ∈ piece :: rest, mark ∉ a) :
    pieces (· = mark) (join [mark] (piece :: rest)) = piece :: rest := by
  have hpiece : ∀ a ∈ piece :: rest, pieces (· = mark) a = [a] := by
    intro a ha
    refine pieces_of_forall fun x hx => ?_
    have hne : x ≠ mark := fun he => h a ha (he ▸ hx)
    simpa using hne
  induction rest generalizing piece with
  | nil => exact hpiece piece (List.mem_cons_self ..)
  | cons b rest ih =>
    have hrest := ih b (fun a ha => h a (List.mem_cons_of_mem _ ha))
      (fun a ha => hpiece a (List.mem_cons_of_mem _ ha))
    rw [join, List.append_assoc, List.singleton_append, pieces_append_mark (by simp), hrest,
      hpiece piece (List.mem_cons_self ..)]
    · rfl
    · simp

end Cut
end ScriptDeps
