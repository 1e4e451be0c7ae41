import ScriptDeps.Proofs.Text.Cut

/-! # Longest runs and first places

    What trimming, runs and splits leave is told here without saying how it is
    found: the rest starts with another character (`Stops`), a trimmed list has
    none of the class at either end (`TrimsTo`), and a mark stands at the first
    place where it stands at all (`IsFirst`). -/

namespace ScriptDeps
namespace Cut

variable {α : Type} {p : α → Bool} {xs ys a b : List α}

/-! ## Section 1: Runs -/

/-- A run of elements that satisfy `p` ends before `xs`. -/
def Stops (p : α → Bool) (xs : List α) : Prop := ∀ x ∈ xs.head?, p x = false

theorem stops_nil (p : α → Bool) : Stops p [] := by
  intro x hx
  cases hx

theorem stops_cons {x : α} : Stops p (x :: xs) ↔ p x = false := by
  simp [Stops]

theorem Stops.append (h : Stops p xs) (hne : xs ≠ []) (ys : List α) : Stops p (xs ++ ys) := by
  cases xs with
  | nil => exact absurd rfl hne
  | cons x xs => exact stops_cons.2 (stops_cons.1 h)

theorem stops_of_forall (h : ∀ x ∈ xs, p x = false) : Stops p xs :=
  fun x hx => h x (List.mem_of_mem_head? hx)

theorem stops_dropWhile (p : α → Bool) (xs : List α) : Stops p (xs.dropWhile p) := by
  intro x hx
  have hhead := List.head?_dropWhile_not p xs
  rw [Option.mem_def.1 hx] at hhead
  simpa using hhead

theorem dropWhile_run (hrun : ∀ x ∈ xs, p x = true) (hstops : Stops p ys) :
    (xs ++ ys).dropWhile p = ys := by
  rw [List.dropWhile_append_of_pos hrun]
  cases ys with
  | nil => rfl
  | cons y ys => rw [List.dropWhile_cons_of_neg (by simp [stops_cons.1 hstops])]

theorem takeWhile_run (hrun : ∀ x ∈ xs, p x = true) (hstops : Stops p ys) :
    (xs ++ ys).takeWhile p = xs := by
  rw [List.takeWhile_append_of_pos hrun]
  cases ys with
  | nil => simp
  | cons y ys => rw [List.takeWhile_cons_of_neg (by simp [stops_cons.1 hstops]), List.append_nil]

theorem dropWhile_of_stops (h : Stops p xs) : xs.dropWhile p = xs := by
  rw [← List.nil_append xs, dropWhile_run (List.forall_mem_nil _) h, List.nil_append]

/-- A list is a run and what it ends before. -/
theorem exists_run (p : α → Bool) (xs : List α) :
    ∃ run, xs = run ++ xs.dropWhile p ∧ ∀ x ∈ run, p x = true :=
  ⟨xs.takeWhile p, List.takeWhile_append_dropWhile.symm,
    fun x hx => List.all_eq_true.1 List.all_takeWhile x hx⟩

/-! ## Section 2: Trimming -/

/-- No element at either end satisfies `p`. -/
def IsTrimmed (p : α → Bool) (xs : List α) : Prop :=
  Stops p xs ∧ ∀ x ∈ xs.getLast?, p x = false

/-- `ys` is what is left of `xs` without the longest runs at both ends. -/
def TrimsTo (p : α → Bool) (xs ys : List α) : Prop :=
  ∃ a b, xs = a ++ ys ++ b ∧ (∀ x ∈ a, p x = true) ∧ (∀ x ∈ b, p x = true) ∧ IsTrimmed p ys

theorem isTrimmed_nil (p : α → Bool) : IsTrimmed p [] := by
  refine ⟨stops_nil p, ?_⟩
  intro x hx
  cases hx

theorem isTrimmed_of_forall (h : ∀ x ∈ xs, p x = false) : IsTrimmed p xs :=
  ⟨stops_of_forall h, fun x hx => h x (List.mem_of_mem_getLast? hx)⟩

theorem isTrimmed_append (ha : Stops p a) (hne : a ≠ []) (hb : IsTrimmed p b) (hne' : b ≠ []) :
    IsTrimmed p (a ++ b) := by
  refine ⟨ha.append hne b, fun x hx => hb.2 x ?_⟩
  rw [List.getLast?_append] at hx
  cases hlast : b.getLast? with
  | none => exact absurd (List.getLast?_eq_none_iff.1 hlast) hne'
  | some y => rwa [hlast] at hx

theorem IsTrimmed.trimsTo (h : IsTrimmed p xs) : TrimsTo p xs xs :=
  ⟨[], [], by simp, by simp, by simp, h⟩

theorem trimEnd_run (hrun : ∀ x ∈ b, p x = true) (hlast : ∀ x ∈ xs.getLast?, p x = false) :
    trimEnd p (xs ++ b) = xs := by
  have hstops : Stops p xs.reverse := by
    intro x hx
    rw [List.head?_reverse] at hx
    exact hlast x hx
  rw [trimEnd, List.reverse_append, dropWhile_run (by simpa using hrun) hstops,
    List.reverse_reverse]

theorem getLast?_trimEnd (p : α → Bool) (xs : List α) :
    ∀ x ∈ (trimEnd p xs).getLast?, p x = false := by
  intro x hx
  rw [trimEnd, List.getLast?_reverse] at hx
  exact stops_dropWhile p _ x hx

/-- Trimming leaves what is described, and nothing else is. -/
theorem trimsTo_iff : TrimsTo p xs ys ↔ trim p xs = ys := by
  constructor
  · rintro ⟨a, b, rfl, ha, hb, hstart, hlast⟩
    by_cases hys : ys = []
    · -- Nothing but the runs is there, and the first of them takes all.
      subst hys
      have hall : ∀ x ∈ a ++ [] ++ b, p x = true := by
        intro x hx
        rw [List.append_nil, List.mem_append] at hx
        exact hx.elim (ha x) (hb x)
      rw [trim, ← List.append_nil (a ++ [] ++ b), dropWhile_run hall (stops_nil p)]
      rfl
    · rw [trim, List.append_assoc, dropWhile_run ha (hstart.append hys b), trimEnd_run hb hlast]
  · intro h
    obtain ⟨a, ha, hrun⟩ := exists_run p xs
    obtain ⟨b, hb, hrun'⟩ := trimEnd_append_dropped p (xs.dropWhile p)
    refine ⟨a, b, ?_, hrun, hrun', ?_, ?_⟩
    · rw [← h, List.append_assoc, trim, ← hb]
      exact ha
    · have hstart := stops_dropWhile p xs
      rw [hb] at hstart
      rw [← h, trim]
      intro x hx
      refine hstart x ?_
      rw [List.head?_append, Option.mem_def.1 hx]
      rfl
    · rw [← h]
      exact getLast?_trimEnd p _

theorem trimsTo_trim (p : α → Bool) (xs : List α) : TrimsTo p xs (trim p xs) :=
  trimsTo_iff.2 rfl

theorem trim_of_isTrimmed (h : IsTrimmed p xs) : trim p xs = xs := trimsTo_iff.1 h.trimsTo

theorem trim_eq_nil_iff : trim p xs = [] ↔ ∀ x ∈ xs, p x = true := by
  constructor
  · intro h
    obtain ⟨a, b, hxs, ha, hb, _⟩ := trimsTo_iff.2 h
    intro x hx
    rw [hxs, List.append_nil, List.mem_append] at hx
    exact hx.elim (ha x) (hb x)
  · intro h
    exact trimsTo_iff.1 ⟨xs, [], by simp, h, by simp, isTrimmed_nil p⟩

/-! ## Section 3: First places -/

/-- The parts before and after the first place in `xs` where `mark` stands. -/
def IsFirst (mark xs a b : List α) : Prop :=
  xs = a ++ mark ++ b ∧ ∀ a' b', xs = a' ++ mark ++ b' → a.length ≤ a'.length

variable {mark : List α}

theorem IsFirst.cons {x : α} (h : IsFirst mark xs a b) (hx : ¬ mark <+: x :: xs) :
    IsFirst mark (x :: xs) (x :: a) b := by
  obtain ⟨rfl, hfirst⟩ := h
  refine ⟨rfl, fun a' b' heq => ?_⟩
  cases a' with
  | nil => exact absurd ⟨b', by rw [heq]; rfl⟩ hx
  | cons y a' =>
    have hle := hfirst a' b' (List.cons.inj heq).2
    simpa using hle

/-- A mark stands first in one place only. -/
theorem IsFirst.unique {a' b' : List α} (h : IsFirst mark xs a b) (h' : IsFirst mark xs a' b') :
    a = a' ∧ b = b' := by
  have hlength := Nat.le_antisymm (h.2 a' b' h'.1) (h'.2 a b h.1)
  have heq := h.1.symm.trans h'.1
  rw [List.append_assoc, List.append_assoc] at heq
  obtain ⟨ha, hb⟩ := List.append_inj heq hlength
  exact ⟨ha, List.append_cancel_left hb⟩

theorem splitFirst_append {x : α} (hx : p x = true) (ha : ∀ y ∈ a, p y = false) (b : List α) :
    splitFirst p (a ++ x :: b) = some (a, b) := by
  induction a with
  | nil => rw [List.nil_append, splitFirst, if_pos hx]
  | cons y a ih =>
    rw [List.cons_append, splitFirst, if_neg (by simp [ha y (List.mem_cons_self ..)]),
      ih fun z hz => ha z (List.mem_cons_of_mem _ hz)]
    rfl

theorem splitFirst_mark_iff [DecidableEq α] {x : α} :
    splitFirst (· = x) xs = some (a, b) ↔ xs = a ++ x :: b ∧ ∀ y ∈ a, y ≠ x := by
  constructor
  · intro h
    obtain ⟨y, hxs, hy, ha⟩ := splitFirst_eq_some h
    obtain rfl : y = x := by simpa using hy
    exact ⟨hxs, fun z hz => by simpa using ha z hz⟩
  · rintro ⟨rfl, ha⟩
    exact splitFirst_append (by simp) (fun y hy => by simpa using ha y hy) b

variable [BEq α] [LawfulBEq α]

theorem after?_eq_some_iff : after? mark xs = some b ↔ xs = mark ++ b := by
  constructor
  · exact eq_append_of_after?
  · rintro rfl
    exact after?_append mark b

theorem after?_eq_none_iff : after? mark xs = none ↔ ¬ mark <+: xs := by
  constructor
  · rintro h ⟨b, rfl⟩
    rw [after?_append] at h
    cases h
  · intro h
    cases hafter : after? mark xs with
    | none => rfl
    | some b => exact absurd ⟨b, (eq_append_of_after? hafter).symm⟩ h

theorem before?_eq_some_iff : before? mark xs = some a ↔ xs = a ++ mark := by
  rw [before?, Option.map_eq_some_iff]
  constructor
  · rintro ⟨c, hc, rfl⟩
    have heq := congrArg List.reverse (after?_eq_some_iff.1 hc)
    simpa using heq
  · rintro rfl
    exact ⟨a.reverse, after?_eq_some_iff.2 (by simp), List.reverse_reverse a⟩

theorem splitAt?_eq_none_iff : splitAt? mark xs = none ↔ ∀ a b, xs ≠ a ++ mark ++ b := by
  induction xs with
  | nil =>
    rw [splitAt?, Option.map_eq_none_iff, after?_eq_none_iff]
    constructor
    · rintro h a b heq
      obtain ⟨hfront, _⟩ := List.append_eq_nil_iff.1 heq.symm
      obtain ⟨_, rfl⟩ := List.append_eq_nil_iff.1 hfront
      exact h List.nil_prefix
    · rintro h ⟨b, hb⟩
      exact h [] b hb.symm
  | cons x xs ih =>
    rw [splitAt?]
    cases hafter : after? mark (x :: xs) with
    | some b =>
      refine iff_of_false (by simp) fun h => h [] b ?_
      exact eq_append_of_after? hafter
    | none =>
      have hfront := after?_eq_none_iff.1 hafter
      dsimp only
      rw [Option.map_eq_none_iff, ih]
      constructor
      · intro h a b heq
        cases a with
        | nil => exact hfront ⟨b, heq.symm⟩
        | cons y a => exact h a b (List.cons.inj heq).2
      · rintro h a b rfl
        exact h (x :: a) b rfl

theorem splitAt?_eq_some_iff : splitAt? mark xs = some (a, b) ↔ IsFirst mark xs a b := by
  have hfirst : ∀ a b, splitAt? mark xs = some (a, b) → IsFirst mark xs a b := by
    induction xs with
    | nil =>
      intro a b h
      rw [splitAt?] at h
      obtain ⟨rest, hrest, heq⟩ := Option.map_eq_some_iff.1 h
      cases heq
      exact ⟨eq_append_of_after? hrest, fun _ _ _ => Nat.zero_le _⟩
    | cons x xs ih =>
      intro a b h
      rw [splitAt?] at h
      cases hafter : after? mark (x :: xs) with
      | some rest =>
        rw [hafter] at h
        cases h
        exact ⟨eq_append_of_after? hafter, fun _ _ _ => Nat.zero_le _⟩
      | none =>
        rw [hafter] at h
        obtain ⟨⟨a', b'⟩, hsplit, heq⟩ := Option.map_eq_some_iff.1 h
        cases heq
        exact (ih a' b hsplit).cons (after?_eq_none_iff.1 hafter)
  refine ⟨hfirst a b, fun h => ?_⟩
  cases hsplit : splitAt? mark xs with
  | none => exact absurd h.1 (splitAt?_eq_none_iff.1 hsplit a b)
  | some found =>
    obtain ⟨ha, hb⟩ := (hfirst found.1 found.2 hsplit).unique h
    rw [← ha, ← hb]

end Cut
end ScriptDeps
