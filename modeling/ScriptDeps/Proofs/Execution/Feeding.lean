import ScriptDeps.Toolchain.Feeding

/-! # What a child is fed

    The books of a feeding balance: what the child has read, what is in the
    pipe and what is still to be written make up the content, in this order
    (`Balanced.foldl`).  So the child reads a front of it, whatever happens
    (`received_prefix`).  If the pipe refuses bytes only when the child has
    closed its end, then a child that has seen the end has read everything
    (`received_of_sawEnd`). -/

namespace ScriptDeps
namespace Feeding

variable {content : Bytes} {f : Feeding} {es : List Event} {ev : Event}

/-! ## Section 1: The books -/

theorem flatten_pieces (content : Bytes) : (pieces content).flatten = content := by
  fun_induction pieces content with
  | case1 content hempty => simp_all
  | case2 content hsome ih => rw [List.flatten_cons, ih, List.take_append_drop]

/-- No byte is lost or moved. -/
def Balanced (content : Bytes) (f : Feeding) : Prop :=
  f.received ++ f.pipe ++ f.pending.flatten = content

theorem balanced_start (content : Bytes) : Balanced content (start content) :=
  flatten_pieces content

theorem Balanced.write (h : Balanced content f) (n : Nat) : Balanced content (f.write n) := by
  unfold Feeding.write
  split
  · exact h
  · next piece rest hpending =>
    split
    · unfold Balanced at h ⊢
      rw [hpending] at h
      have hrest : (if (piece.drop n).isEmpty then rest else piece.drop n :: rest).flatten =
          piece.drop n ++ rest.flatten := by
        split
        · next hempty => rw [List.isEmpty_iff.1 hempty, List.nil_append]
        · rw [List.flatten_cons]
      calc f.received ++ (f.pipe ++ piece.take n) ++ List.flatten _
          = f.received ++ f.pipe ++ (piece.take n ++ piece.drop n ++ rest.flatten) := by
            rw [hrest]
            simp only [List.append_assoc]
        _ = content := by rw [List.take_append_drop, ← List.flatten_cons, h]
    · exact h

theorem Balanced.receive (h : Balanced content f) (n : Nat) : Balanced content (f.receive n) := by
  unfold Feeding.receive
  split
  · exact h
  · split
    · exact h
    · unfold Balanced at h ⊢
      rw [List.append_assoc f.received, List.take_append_drop, h]

theorem Balanced.step (h : Balanced content f) (ev : Event) : Balanced content (f.step ev) := by
  cases ev with
  | written n => exact h.write n
  | refused e =>
    show Balanced content (f.refuse e)
    unfold refuse
    split <;> exact h
  | closed =>
    show Balanced content f.close
    unfold close
    split <;> exact h
  | read n => exact h.receive n
  | hungUp => exact h

theorem Balanced.foldl (h : Balanced content f) (es : List Event) :
    Balanced content (es.foldl Feeding.step f) := by
  induction es generalizing f with
  | nil => exact h
  | cons ev es ih => exact ih (h.step ev)

/-- Whatever happens, the child reads a front of the content. -/
theorem received_prefix (content : Bytes) (es : List Event) :
    (run content es).received <+: content := by
  have hbalanced := (balanced_start content).foldl es
  unfold Balanced at hbalanced
  rw [List.append_assoc] at hbalanced
  exact ⟨_, hbalanced⟩

/-! ## Section 2: The end -/

/-- The pipe refuses bytes only once the child has closed its end. -/
def RefusesLate (es : List Event) : Prop :=
  ∀ before e after, es = before ++ .refused e :: after → .hungUp ∈ before

theorem RefusesLate.of_append {fs : List Event} (h : RefusesLate (es ++ fs)) : RefusesLate es := by
  intro before e after hsplit
  refine h before e (after ++ fs) ?_
  rw [hsplit, List.append_assoc, List.cons_append]

/-- A child that has closed its end does not open it again. -/
theorem reading_step (hf : f.reading = false) (ev : Event) : (f.step ev).reading = false := by
  cases ev with
  | written n =>
    show (f.write n).reading = false
    unfold Feeding.write
    split
    · exact hf
    · split <;> exact hf
  | refused e =>
    show (f.refuse e).reading = false
    unfold refuse
    split <;> exact hf
  | closed =>
    show f.close.reading = false
    unfold close
    split <;> exact hf
  | read n =>
    show (f.receive n).reading = false
    unfold Feeding.receive
    rw [hf]
    exact hf
  | hungUp => rfl

theorem reading_foldl (hf : f.reading = false) (es : List Event) :
    (es.foldl step f).reading = false := by
  induction es generalizing f with
  | nil => exact hf
  | cons ev es ih => exact ih (reading_step hf ev)

theorem reading_of_hungUp (h : .hungUp ∈ es) : (es.foldl step f).reading = false := by
  obtain ⟨before, after, rfl⟩ := List.append_of_mem h
  rw [List.foldl_append]
  exact reading_foldl rfl after

/-- A writer closes its end after everything, or when nobody reads; and the
    child sees the end after everything. -/
structure EndsLast (f : Feeding) : Prop where
  writer : f.writing = false → f.pending = [] ∨ f.reading = false
  child  : f.sawEnd = true → f.writing = false ∧ f.pipe = [] ∧ f.pending = []

theorem endsLast_start (content : Bytes) : EndsLast (start content) := ⟨nofun, nofun⟩

theorem EndsLast.write (h : EndsLast f) (n : Nat) : EndsLast (f.write n) := by
  unfold Feeding.write
  split
  · exact h
  · split
    · next hopen =>
      have hwriting : f.writing = true := (Bool.and_eq_true_iff.1 hopen).1
      have hnot : f.writing ≠ false := by simp [hwriting]
      exact ⟨fun hclosed => absurd hclosed hnot, fun hsaw => absurd (h.child hsaw).1 hnot⟩
    · exact h

theorem EndsLast.refuse (h : EndsLast f) (hlate : f.reading = false) (e : IoError) :
    EndsLast (f.refuse e) := by
  unfold Feeding.refuse
  split
  · next hopen =>
    have hwriting : f.writing ≠ false := by simp [(Bool.and_eq_true_iff.1 hopen).1]
    exact ⟨fun _ => .inr hlate, fun hsaw => absurd (h.child hsaw).1 hwriting⟩
  · exact h

theorem EndsLast.receive (h : EndsLast f) (n : Nat) : EndsLast (f.receive n) := by
  unfold Feeding.receive
  split
  · exact h
  · next hreading =>
    split
    · next hpipe =>
      refine ⟨h.writer, fun hsaw => ?_⟩
      rcases Bool.or_eq_true_iff.1 hsaw with hsaw | hclosed
      · exact h.child hsaw
      · -- The child is told now: the writer has closed its end, not given up.
        have hwriting : f.writing = false := by simpa using hclosed
        have hpending : f.pending = [] :=
          (h.writer hwriting).resolve_right fun hlate => hreading (by simp [hlate])
        exact ⟨hwriting, List.isEmpty_iff.1 hpipe, hpending⟩
    · next hpipe =>
      refine ⟨h.writer, fun hsaw => ?_⟩
      exact absurd (List.isEmpty_iff.2 (h.child hsaw).2.1) hpipe

theorem EndsLast.step (h : EndsLast f) (hlate : ∀ e, ev = .refused e → f.reading = false) :
    EndsLast (f.step ev) := by
  cases ev with
  | written n => exact h.write n
  | refused e => exact h.refuse (hlate e rfl) e
  | closed =>
    show EndsLast f.close
    unfold close
    split
    · next hpending =>
      have hpending := List.isEmpty_iff.1 hpending
      exact ⟨fun _ => .inl hpending, fun hsaw => ⟨rfl, (h.child hsaw).2⟩⟩
    · exact h
  | read n => exact h.receive n
  | hungUp => exact ⟨fun _ => .inr rfl, h.child⟩

theorem endsLast_foldl (content : Bytes) (hlate : RefusesLate es) :
    EndsLast (es.foldl step (start content)) := by
  -- From the end, so that a refusal is met together with all that has been before it.
  induction hes : es.reverse generalizing es with
  | nil =>
    rw [List.reverse_eq_nil_iff.1 hes]
    exact endsLast_start content
  | cons ev rest ih =>
    obtain rfl : es = rest.reverse ++ [ev] := by
      rw [← List.reverse_reverse es, hes, List.reverse_cons]
    rw [List.foldl_append]
    refine (ih hlate.of_append (List.reverse_reverse rest)).step fun e he => ?_
    exact reading_of_hungUp (hlate rest.reverse e [] (by rw [he]))

/-- A child that has seen the end has read everything. -/
theorem received_of_sawEnd (hlate : RefusesLate es) (hsaw : (run content es).sawEnd = true) :
    (run content es).received = content := by
  obtain ⟨_, hpipe, hpending⟩ := (endsLast_foldl content hlate).child hsaw
  have hbalanced := (balanced_start content).foldl es
  unfold Balanced at hbalanced
  rw [hpipe, hpending, List.append_nil, List.flatten_nil, List.append_nil] at hbalanced
  exact hbalanced

end Feeding
end ScriptDeps
