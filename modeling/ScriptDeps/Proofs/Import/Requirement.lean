import ScriptDeps.Annotation
import ScriptDeps.Proofs.Text.Trim

/-! # Where a comment is cut

    An operator counts where a value follows it (`StandsIn`), and the first one
    that counts cuts the comment (`CutsInto`).  Every comment is cut in exactly
    one way, and that is how it is read (`parts_of_cutsInto`).  An origin before
    the cut holds no operator, so it is cut off again wherever another value is
    put behind it (`isFirstIn_spaced`). -/

namespace ScriptDeps
namespace Annotation

open Cut

/-! ## Section 1: Model -/

/-- How an operator is written. -/
def Operator.text : Operator → Text
  | .upToNextMajor => ['~', '>']
  | .exact => ['=', '=']

/-- `op` stands between `before` and `after`, and `after` is not blank. -/
def StandsIn (comment before : Text) (op : Operator) (after : Text) : Prop :=
  comment = before ++ (op.text ++ after) ∧ ∃ c ∈ after, Text.isSpacing c = false

/-- No operator with a value stands further in front. -/
def IsFirstIn (comment before : Text) (op : Operator) (after : Text) : Prop :=
  StandsIn comment before op after ∧
    ∀ before' op' after', StandsIn comment before' op' after' → before.length ≤ before'.length

/-- How a comment is cut into an origin and a requirement: the first operator
    with a value cuts it, and without one all of it is origin. -/
inductive CutsInto (comment : Text) : Text → Option (Operator × Text) → Prop where
  | whole (h : ∀ before op after, ¬ StandsIn comment before op after) :
      CutsInto comment comment none
  | first {before after origin value : Text} {op : Operator} (h : IsFirstIn comment before op after)
      (horigin : TrimsTo Text.isSpacing before origin)
      (hvalue : TrimsTo Text.isSpacing after value) :
      CutsInto comment origin (some (op, value))

/-- The constraint that a requirement states. -/
inductive States : Option (Operator × Text) → Constraint → Prop where
  | latest : States none .latest
  | upToNextMajor {value : Text} {v : Version} (h : Version.ofLooseText? value = some v) :
      States (some (.upToNextMajor, value)) (.upToNextMajor v)
  | exactly {value : Text} {v : Version} (h : Version.ofLooseText? value = some v) :
      States (some (.exact, value)) (.exactly v)
  | reference {value : Text} (h : Version.ofLooseText? value = none) :
      States (some (.exact, value)) (.reference value)

variable {comment t before before' after after' origin value : Text} {op op' : Operator}
  {requirement : Option (Operator × Text)}

/-! ## Section 2: Operators -/

theorem operator?_eq_some_iff : operator? t = some (op, after) ↔ t = op.text ++ after := by
  constructor
  · intro h
    unfold operator? at h
    split at h
    · cases h
      rfl
    · cases h
      rfl
    · cases h
  · rintro rfl
    cases op <;> rfl

theorem operator_unique (h : op.text ++ after = op'.text ++ after') :
    op = op' ∧ after = after' := by
  have hsome := operator?_eq_some_iff.2 h
  rw [operator?_eq_some_iff.2 rfl] at hsome
  cases hsome
  exact ⟨rfl, rfl⟩

/-- An operator has two characters, and neither is a space. -/
theorem exists_operator_text (op : Operator) : ∃ x y, op.text = [x, y] ∧ x ≠ ' ' ∧ y ≠ ' ' := by
  cases op
  · exact ⟨'~', '>', rfl, by decide, by decide⟩
  · exact ⟨'=', '=', rfl, by decide, by decide⟩

theorem not_standsIn_nil : ¬ StandsIn [] before op after := by
  rintro ⟨heq, _⟩
  obtain ⟨x, y, hop, _⟩ := exists_operator_text op
  rw [hop] at heq
  simp at heq

theorem standsIn_cons {c : Char} (h : StandsIn t before op after) :
    StandsIn (c :: t) (c :: before) op after :=
  ⟨by rw [h.1]; rfl, h.2⟩

theorem standsIn_of_cons {c d : Char} (h : StandsIn (c :: t) (d :: before) op after) :
    StandsIn t before op after :=
  ⟨(List.cons.inj h.1).2, h.2⟩

theorem isFirstIn_cons {c : Char} (h : IsFirstIn t before op after)
    (hfront : ∀ op after, ¬ StandsIn (c :: t) [] op after) :
    IsFirstIn (c :: t) (c :: before) op after := by
  refine ⟨standsIn_cons h.1, fun before' op' after' hstands => ?_⟩
  cases before' with
  | nil => exact absurd hstands (hfront op' after')
  | cons d before' =>
    have hle := h.2 before' op' after' (standsIn_of_cons hstands)
    simpa using hle

theorem IsFirstIn.unique (h : IsFirstIn comment before op after)
    (h' : IsFirstIn comment before' op' after') : before = before' ∧ op = op' ∧ after = after' := by
  have hlength := Nat.le_antisymm (h.2 _ _ _ h'.1) (h'.2 _ _ _ h.1)
  obtain ⟨hbefore, hrest⟩ := List.append_inj (h.1.1.symm.trans h'.1.1) hlength
  exact ⟨hbefore, operator_unique hrest⟩

/-! ## Section 3: The first operator with a value -/

theorem not_standsIn_front (h : trim Text.isSpacing after = []) :
    ¬ StandsIn (op.text ++ after) [] op' after' := by
  rintro ⟨heq, c, hc, hspace⟩
  obtain ⟨_, rfl⟩ := operator_unique heq
  rw [trim_eq_nil_iff.1 h c hc] at hspace
  cases hspace

theorem standsIn_front (h : trim Text.isSpacing after ≠ []) :
    StandsIn (op.text ++ after) [] op after := by
  refine ⟨rfl, ?_⟩
  have hnot := mt trim_eq_nil_iff.2 h
  simpa using hnot

/-- What the search for a requirement finds, and what it means that it finds
    nothing. -/
theorem requirement?_spec (t : Text) :
    (requirement? t = none ∧ ∀ before op after, ¬ StandsIn t before op after) ∨
    ∃ before op after, IsFirstIn t before op after ∧
      requirement? t = some (before, op, trim Text.isSpacing after) := by
  induction t with
  | nil => exact .inl ⟨rfl, fun _ _ _ => not_standsIn_nil⟩
  | cons c t ih =>
    -- Unless an operator counts right here, the rest of the text decides.
    have hlater : (∀ op after, ¬ StandsIn (c :: t) [] op after) →
        requirement? (c :: t) =
          (requirement? t).map (fun found => (c :: found.1, found.2)) →
        (requirement? (c :: t) = none ∧ ∀ before op after, ¬ StandsIn (c :: t) before op after) ∨
        ∃ before op after, IsFirstIn (c :: t) before op after ∧
          requirement? (c :: t) = some (before, op, trim Text.isSpacing after) := by
      intro hfront heq
      rw [heq]
      rcases ih with ⟨hnone, hfree⟩ | ⟨before, op, after, hfirst, hsome⟩
      · refine .inl ⟨by rw [hnone]; rfl, fun before op after hstands => ?_⟩
        cases before with
        | nil => exact hfront op after hstands
        | cons d before => exact hfree before op after (standsIn_of_cons hstands)
      · exact .inr ⟨c :: before, op, after, isFirstIn_cons hfirst hfront, by rw [hsome]; rfl⟩
    cases hop : operator? (c :: t) with
    | none =>
      refine hlater (fun op after hstands => ?_) (by rw [requirement?, hop])
      rw [operator?_eq_some_iff.2 hstands.1] at hop
      cases hop
    | some found =>
      obtain ⟨op, after⟩ := found
      have htext := operator?_eq_some_iff.1 hop
      by_cases hvalue : trim Text.isSpacing after = []
      · refine hlater (fun op' after' => ?_) ?_
        · rw [htext]
          exact not_standsIn_front hvalue
        · rw [requirement?, hop]
          exact if_pos (by simp [hvalue])
      · refine .inr ⟨[], op, after, ⟨?_, fun _ _ _ _ => Nat.zero_le _⟩, ?_⟩
        · rw [htext]
          exact standsIn_front hvalue
        · rw [requirement?, hop]
          simp [hvalue]

/-! ## Section 4: Cuts -/

theorem CutsInto.unique {origin' : Text} {requirement' : Option (Operator × Text)}
    (h : CutsInto comment origin requirement) (h' : CutsInto comment origin' requirement') :
    origin' = origin ∧ requirement' = requirement := by
  cases h with
  | whole hfree =>
    cases h' with
    | whole => exact ⟨rfl, rfl⟩
    | first hfirst => exact absurd hfirst.1 (hfree _ _ _)
  | first hfirst horigin hvalue =>
    cases h' with
    | whole hfree => exact absurd hfirst.1 (hfree _ _ _)
    | first hfirst' horigin' hvalue' =>
      obtain ⟨rfl, rfl, rfl⟩ := hfirst.unique hfirst'
      rw [← trimsTo_iff.1 horigin, ← trimsTo_iff.1 horigin', ← trimsTo_iff.1 hvalue,
        ← trimsTo_iff.1 hvalue']
      exact ⟨rfl, rfl⟩

/-- A trimmed comment can be cut, and is read as it is cut. -/
theorem exists_cutsInto (hne : comment ≠ []) (htrim : IsTrimmed Text.isSpacing comment) :
    ∃ origin requirement, CutsInto comment origin requirement ∧
      parts comment = ⟨if origin.isEmpty then none else some origin, requirement⟩ := by
  rcases requirement?_spec comment with ⟨hnone, hfree⟩ | ⟨before, op, after, hfirst, hsome⟩
  · refine ⟨comment, none, .whole hfree, ?_⟩
    rw [parts, hnone, if_neg (by simpa using hne)]
  · -- The comment is trimmed, so there is no spacing in front of the origin.
    have hstart : Stops Text.isSpacing before := by
      intro c hc
      refine htrim.1 c ?_
      rw [hfirst.1.1, List.head?_append, Option.mem_def.1 hc]
      rfl
    have horigin : trim Text.isSpacing before = trimEnd Text.isSpacing before := by
      rw [trim, dropWhile_of_stops hstart]
    refine ⟨trim Text.isSpacing before, some (op, trim Text.isSpacing after),
      .first hfirst (trimsTo_trim _ before) (trimsTo_trim _ after), ?_⟩
    rw [parts, hsome, horigin]

theorem parts_of_cutsInto (hne : comment ≠ []) (htrim : IsTrimmed Text.isSpacing comment)
    (h : CutsInto comment origin requirement) :
    parts comment = ⟨if origin.isEmpty then none else some origin, requirement⟩ := by
  obtain ⟨origin', requirement', hcut, hparts⟩ := exists_cutsInto hne htrim
  obtain ⟨rfl, rfl⟩ := h.unique hcut
  exact hparts

/-! ## Section 5: What a requirement states -/

theorem constraint_eq_ok_iff {c : Constraint} :
    constraint requirement = .ok c ↔ States requirement c := by
  constructor
  · intro h
    unfold constraint at h
    split at h
    · cases h
      exact .latest
    · split at h
      · next hvalue =>
        cases h
        exact .upToNextMajor hvalue
      · cases h
      · next hvalue =>
        cases h
        exact .exactly hvalue
      · next hvalue =>
        cases h
        exact .reference hvalue
  · intro h
    cases h with
    | latest => rfl
    | upToNextMajor h => simp [constraint, h]
    | exactly h => simp [constraint, h]
    | reference h => simp [constraint, h]

/-- Only `~>` needs a version. -/
theorem constraint_eq_error_iff {why : Rejection} : constraint requirement = .error why ↔
    ∃ value, requirement = some (.upToNextMajor, value) ∧ Version.ofLooseText? value = none ∧
      why = .notAVersion value := by
  constructor
  · intro h
    unfold constraint at h
    split at h
    · cases h
    · split at h
      · cases h
      · next hvalue =>
        cases h
        exact ⟨_, rfl, hvalue, rfl⟩
      · cases h
      · cases h
  · rintro ⟨value, rfl, hvalue, rfl⟩
    simp [constraint, hvalue]

/-! ## Section 6: Origins without operators -/

/-- No operator stands in `t`, with or without a value. -/
def HasNoOperator (t : Text) : Prop :=
  ∀ before (op : Operator) after, t ≠ before ++ (op.text ++ after)

/-- Before an operator that counts every operator would count. -/
theorem IsFirstIn.hasNoOperator (h : IsFirstIn comment before op after) : HasNoOperator before := by
  intro front op' rest heq
  obtain ⟨c, hc, hspace⟩ := h.1.2
  have hstands : StandsIn comment front op' (rest ++ (op.text ++ after)) := by
    refine ⟨?_, c, ?_, hspace⟩
    · rw [h.1.1, heq, List.append_assoc, List.append_assoc]
    · exact List.mem_append_right _ (List.mem_append_right _ hc)
  have hle := h.2 _ _ _ hstands
  obtain ⟨x, y, hop, _⟩ := exists_operator_text op'
  rw [heq, hop, List.length_append, List.length_append] at hle
  simp only [List.length_cons] at hle
  omega

theorem HasNoOperator.of_infix (h : HasNoOperator (before ++ t ++ after)) : HasNoOperator t := by
  intro front op rest heq
  exact h (before ++ front) op (rest ++ after) (by simp [heq])

theorem hasNoOperator_of_forall (h : ∀ c ∈ t, c ≠ '~' ∧ c ≠ '=') : HasNoOperator t := by
  rintro front op rest rfl
  cases op with
  | upToNextMajor => exact (h '~' (by simp [Operator.text])).1 rfl
  | exact => exact (h '=' (by simp [Operator.text])).2 rfl

theorem HasNoOperator.cutsInto (h : HasNoOperator t) : CutsInto t t none :=
  .whole fun before op after hstands => h before op after hstands.1

/-- Behind an origin without operators and a space, an operator with a value is
    the first one. -/
theorem isFirstIn_spaced (h : HasNoOperator t) (hvalue : ∃ c ∈ after, Text.isSpacing c = false) :
    IsFirstIn (t ++ ' ' :: (op.text ++ after)) (t ++ [' ']) op after := by
  refine ⟨⟨by simp, hvalue⟩, fun before' op' after' hstands => ?_⟩
  obtain ⟨x, y, hop, hx, hy⟩ := exists_operator_text op'
  have heq := hstands.1
  rw [hop] at heq
  rcases List.append_eq_append_iff.1 heq with ⟨front, rfl, hrest⟩ | ⟨back, rfl, hrest⟩
  · -- The operator starts at the space or behind it.
    cases front with
    | nil => exact absurd (List.cons.inj hrest).1.symm hx
    | cons d front => simp
  · -- The operator starts in the origin, but it cannot end there or go over its end.
    cases back with
    | nil => exact absurd (List.cons.inj hrest).1 hx
    | cons d back =>
      obtain ⟨rfl, hlater⟩ := List.cons.inj hrest
      cases back with
      | nil => exact absurd (List.cons.inj hlater).1 hy
      | cons e back =>
        obtain ⟨rfl, _⟩ := List.cons.inj hlater
        exact absurd (by rw [hop]; rfl) (h before' op' back)

end Annotation
end ScriptDeps
