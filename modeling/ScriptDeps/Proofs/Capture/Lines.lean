import ScriptDeps.Proofs.Capture.Order
import ScriptDeps.Proofs.Text.Trim

/-! # The lines that a capture delivers

    A line is delivered at the event that brings its end, whatever the events
    before have left of it (`delivers`).  Of all that is written, what is
    delivered depends on the bytes of each stream alone: the lines that a line
    feed has ended, and of the error stream an unfinished one as well.  An
    unfinished line of the terminal is lost (`finished_lines_delivered`). -/

namespace ScriptDeps

/-! ## Section 1: Lines of some bytes -/

namespace Line

/-- The bytes are `lines`, each with its line feed, and after them the
    unfinished line `rest`. -/
structure Splits (bytes : Bytes) (lines : List Bytes) (rest : Bytes) : Prop where
  bytes_eq   : bytes = (lines.map (· ++ [0x0A])).flatten ++ rest
  ended      : ∀ line ∈ lines, 0x0A ∉ line
  unfinished : 0x0A ∉ rest

/-- What stands before a line feed, without one carriage return at its end. -/
def withoutReturn (line : Bytes) : Bytes := (Cut.before? [0x0D] line).getD line

/-- An unfinished line is none if nothing stands in it. -/
def unfinished (rest : Bytes) : List Bytes := if rest = [] then [] else [rest]

variable {bytes line rest : Bytes} {lines : List Bytes}

theorem complete_unfinished (h : 0x0A ∉ rest) : complete rest = ([], rest) := by
  induction rest with
  | nil => rfl
  | cons x rest ih =>
    rw [List.mem_cons, not_or] at h
    have hx : ¬ x = 0x0A := fun heq => h.1 heq.symm
    rw [complete, ih h.2]
    simp [hx]

theorem splits_cons (h : Splits bytes lines rest) (hline : 0x0A ∉ line) :
    Splits (line ++ 0x0A :: bytes) (line :: lines) rest := by
  refine ⟨?_, ?_, h.unfinished⟩
  · rw [h.bytes_eq]
    simp
  · intro l hl
    rcases List.mem_cons.1 hl with rfl | hl
    · exact hline
    · exact h.ended l hl

/-- All bytes have their lines. -/
theorem exists_splits (bytes : Bytes) : ∃ lines rest, Splits bytes lines rest := by
  induction bytes with
  | nil => exact ⟨[], [], rfl, nofun, nofun⟩
  | cons x bytes ih =>
    obtain ⟨lines, rest, h⟩ := ih
    by_cases hx : x = 0x0A
    · subst hx
      exact ⟨[] :: lines, rest, splits_cons h List.not_mem_nil⟩
    · -- The byte belongs to the first line, be it one that ends or not.
      have hx' : ¬ (0x0A : UInt8) = x := fun heq => hx heq.symm
      cases lines with
      | nil =>
        refine ⟨[], x :: rest, ?_, by simp, ?_⟩
        · rw [h.bytes_eq]
          simp
        · simpa [hx'] using h.unfinished
      | cons line lines =>
        refine ⟨(x :: line) :: lines, rest, ?_, ?_, h.unfinished⟩
        · rw [h.bytes_eq]
          simp
        · intro l hl
          rcases List.mem_cons.1 hl with rfl | hl
          · simpa [hx'] using h.ended line (by simp)
          · exact h.ended l (by simp [hl])

/-- The reading finds the lines that the bytes have. -/
theorem Splits.complete_eq (h : Splits bytes lines rest) :
    complete bytes = (lines.map (· ++ [0x0A]), rest) := by
  obtain ⟨rfl, hended, hrest⟩ := h
  induction lines with
  | nil => exact complete_unfinished hrest
  | cons line lines ih =>
    have hline : 0x0A ∉ line := hended line (by simp)
    have hlater := ih fun l hl => hended l (by simp [hl])
    have hbytes : ((line :: lines).map (· ++ [0x0A])).flatten ++ rest =
        line ++ 0x0A :: ((lines.map (· ++ [0x0A])).flatten ++ rest) := by
      simp
    rw [hbytes, complete_line hline, hlater]
    rfl

theorem terminalOutput_append (a b : Bytes) :
    terminalOutput (a ++ b) = terminalOutput a ++ terminalOutput b := List.flatMap_append

/-- Without a line feed there is nothing to write in front of one. -/
theorem terminalOutput_eq_self (h : 0x0A ∉ line) : terminalOutput line = line := by
  induction line with
  | nil => rfl
  | cons x line ih =>
    rw [List.mem_cons, not_or] at h
    have hx : ¬ x = 0x0A := fun heq => h.1 heq.symm
    have htail := ih h.2
    unfold terminalOutput at htail ⊢
    rw [List.flatMap_cons, if_neg hx, htail]
    rfl

/-- A terminal writes a carriage return at the end of each line that ends. -/
theorem Splits.terminalOutput (h : Splits bytes lines rest) :
    Splits (terminalOutput bytes) (lines.map (· ++ [0x0D])) rest := by
  refine ⟨?_, ?_, h.unfinished⟩
  · rw [h.bytes_eq, terminalOutput_append, terminalOutput_eq_self h.unfinished]
    congr 1
    -- Line by line; what is left over is the same on both sides.
    have hended := h.ended
    clear h
    induction lines with
    | nil => rfl
    | cons line lines ih =>
      have hline := terminalOutput_eq_self (hended line (by simp))
      have hfeed : ScriptDeps.terminalOutput [0x0A] = [0x0D, 0x0A] := rfl
      rw [List.map_cons, List.flatten_cons, terminalOutput_append, terminalOutput_append, hline,
        hfeed, ih fun l hl => hended l (by simp [hl])]
      simp
  · intro l hl
    obtain ⟨line, hline, rfl⟩ := List.mem_map.1 hl
    have hnone := h.ended line hline
    simpa using hnone

@[simp] theorem withoutReturn_append (line : Bytes) : withoutReturn (line ++ [0x0D]) = line := by
  rw [withoutReturn, Cut.before?_append, Option.getD_some]

/-- A line stays as it is exactly if no carriage return stands at its end. -/
theorem withoutReturn_eq_iff : withoutReturn line = line ↔ line.getLast? ≠ some 0x0D := by
  cases hbefore : Cut.before? [0x0D] line with
  | none =>
    have hlast : line.getLast? ≠ some 0x0D := by
      intro hlast
      obtain ⟨front, hfront⟩ := List.getLast?_eq_some_iff.1 hlast
      rw [hfront, Cut.before?_append] at hbefore
      cases hbefore
    simp [withoutReturn, hbefore, hlast]
  | some front =>
    rw [Cut.before?_eq_some_iff.1 hbefore]
    simp

theorem trimEnd_ended (line : Bytes) : trimEnd (line ++ [0x0A]) = withoutReturn line := by
  rw [trimEnd, Cut.before?_append, Option.getD_some, withoutReturn]

theorem trimEnd_unfinished (h : 0x0A ∉ rest) : trimEnd rest = withoutReturn rest := by
  have hnone : Cut.before? [0x0A] rest = none := by
    cases hbefore : Cut.before? [0x0A] rest with
    | none => rfl
    | some front =>
      rw [Cut.before?_eq_some_iff.1 hbefore] at h
      exact absurd (by simp) h
  rw [trimEnd, hnone, Option.getD_none, withoutReturn]

end Line

namespace Capture

/-! ## Section 2: Model -/

/-- A line as it is delivered. -/
inductive Delivery where
  | terminal (t : Text)
  | errors (t : Text)
deriving DecidableEq, Repr

namespace Delivery

def terminal? : Delivery → Option Text
  | terminal t => some t
  | errors _ => none

def errors? : Delivery → Option Text
  | terminal _ => none
  | errors t => some t

theorem filterMap_terminal (ts : List Text) :
    (ts.map terminal).filterMap terminal? = ts ∧ (ts.map terminal).filterMap errors? = [] := by
  simp [List.filterMap_map, Function.comp_def, terminal?, errors?]

end Delivery

/-- The text of a line of the error stream. -/
def errorText (line : Bytes) : Text := Utf8.decodeLossy (Line.trimEnd line)

theorem filterMap_errors (ls : List Bytes) :
    (ls.map fun l => Delivery.errors (errorText l)).filterMap Delivery.terminal? = [] ∧
      (ls.map fun l => Delivery.errors (errorText l)).filterMap Delivery.errors? =
        ls.map errorText := by
  simp [List.filterMap_map, Function.comp_def, Delivery.terminal?, Delivery.errors?]

/-- The lines that an event brings to their end. -/
def delivers (c : Capture) : Event → List Delivery
  | .terminal chunk =>
      if c.terminalOpen then
        (textsOf (Line.complete (c.terminalRest ++ chunk)).1).map .terminal
      else []
  | .errors chunk =>
      if c.errorsOpen then
        (Line.complete (c.errorsRest ++ chunk)).1.map fun line => .errors (errorText line)
      else []
  | .errorsEnd => (Line.unfinished c.errorsRest).map fun line => .errors (errorText line)
  | .terminalEnd | .signal _ | .exited _ => []

/-- The lines that are delivered by all of `es`, in order. -/
def deliveries (c : Capture) : List Event → List Delivery
  | [] => []
  | e :: es => c.delivers e ++ (c.step e).deliveries es

/-- All that the toolchain writes is read: `out`, which goes through the
    terminal, and `err`, each up to its end, in whatever parts and whatever
    order, with signals and endings anywhere. -/
structure Writes (out err : Bytes) (es : List Event) : Prop where
  terminal     : terminalBytes es = terminalOutput out
  errors       : errorBytes es = err
  terminalEnds : .terminalEnd ∈ es
  errorsEnds   : .errorsEnd ∈ es

/-! ## Section 3: One event more -/

variable {es : List Event} {c : Capture} {e : Event}

/-- A step takes note of the lines that it delivers and of nothing else. -/
theorem step_delivers (c : Capture) (e : Event) :
    (c.step e).invocation =
        (lastShown ((c.delivers e).filterMap Delivery.terminal?)).or c.invocation ∧
      (c.step e).errorLines =
        c.errorLines ++ (c.delivers e).filterMap Delivery.errors? := by
  -- One case for each event; those that bring no bytes deliver nothing, an end apart.
  cases e with
  | terminal chunk =>
    rw [step, delivers]
    split
    · obtain ⟨hshown, hnone⟩ :=
        Delivery.filterMap_terminal (textsOf (Line.complete (c.terminalRest ++ chunk)).1)
      dsimp only
      rw [hshown, hnone, foldl_terminalLine]
      simp
    · simp [lastShown]
  | errors chunk =>
    rw [step, delivers]
    split
    · obtain ⟨hnone, hlines⟩ := filterMap_errors (Line.complete (c.errorsRest ++ chunk)).1
      dsimp only
      rw [hnone, hlines, foldl_errorLine]
      exact ⟨rfl, rfl⟩
    · simp [lastShown]
  | errorsEnd =>
    obtain ⟨hnone, hlines⟩ := filterMap_errors (Line.unfinished c.errorsRest)
    rw [delivers, hnone, hlines, step]
    -- At its end an unfinished line counts.
    by_cases hrest : c.errorsRest = []
    · simp [hrest, Line.unfinished, lastShown]
    · simp [hrest, Line.unfinished, lastShown, errorLine, errorText]
  | terminalEnd => simp [step, delivers, lastShown]
  | signal s =>
    rw [step, delivers]
    split
    · simp [lastShown]
    · simp [lastShown]
  | exited e => simp [step, delivers, lastShown]

theorem deliveries_append (c : Capture) (es fs : List Event) :
    c.deliveries (es ++ fs) = c.deliveries es ++ (es.foldl step c).deliveries fs := by
  induction es generalizing c with
  | nil => rfl
  | cons e es ih => rw [List.cons_append, deliveries, deliveries, ih, List.append_assoc,
      List.foldl_cons]

/-- What an event delivers is a line of its own stream. -/
theorem delivers_other (c : Capture) (e : Event) :
    (e.isTerminal = false → (c.delivers e).filterMap Delivery.terminal? = []) ∧
      (e.isErrors = false → (c.delivers e).filterMap Delivery.errors? = []) := by
  cases e with
  | terminal chunk =>
    refine ⟨nofun, fun _ => ?_⟩
    rw [delivers]
    split
    · exact (Delivery.filterMap_terminal _).2
    · rfl
  | errors chunk =>
    refine ⟨fun _ => ?_, nofun⟩
    rw [delivers]
    split
    · exact (filterMap_errors _).1
    · rfl
  | errorsEnd =>
    refine ⟨fun _ => ?_, nofun⟩
    exact (filterMap_errors _).1
  | _ => exact ⟨fun _ => rfl, fun _ => rfl⟩

/-- What an event delivers of the terminal is what it adds to the lines there. -/
theorem ReadsTerminal.delivers (h : ReadsTerminal es c) (e : Event) :
    terminalTexts (es ++ [e]) =
      terminalTexts es ++ (c.delivers e).filterMap Delivery.terminal? := by
  -- The state keeps only what was shown last, so the lines are compared by their bytes.
  have hbytes := terminalBytes_concat es e
  cases hkind : e.isTerminal with
  | false =>
    rw [terminalTexts, terminalBytes_concat_other hkind, (delivers_other c e).1 hkind,
      List.append_nil, terminalTexts]
  | true =>
    cases e with
    | terminal chunk =>
      by_cases hclosed : .terminalEnd ∈ es
      · have hopen : c.terminalOpen = false := by simpa using h.isOpen.not.2 (not_not.2 hclosed)
        rw [if_pos hclosed, List.append_nil] at hbytes
        rw [terminalTexts, hbytes, Capture.delivers, if_neg (by simp [hopen]), List.filterMap_nil,
          List.append_nil, terminalTexts]
      · have hnext := Line.complete_append (terminalBytes es) chunk
        rw [if_neg hclosed] at hbytes
        rw [terminalTexts, hbytes, Event.terminalChunk, hnext, Capture.delivers,
          if_pos (h.isOpen.2 hclosed), h.rest hclosed, terminalTexts]
        simp [textsOf, Function.comp_def, Delivery.terminal?]
    | terminalEnd =>
      have hchunk : Event.terminalEnd.terminalChunk = [] := rfl
      rw [hchunk, ite_self, List.append_nil] at hbytes
      rw [terminalTexts, hbytes, Capture.delivers, List.filterMap_nil, List.append_nil,
        terminalTexts]
    | _ => cases hkind

/-- What an event delivers of the error stream is what it adds to the lines there. -/
theorem ReadsErrors.delivers (h : ReadsErrors es c) (e : Event) :
    errorTexts (es ++ [e]) = errorTexts es ++ (c.delivers e).filterMap Delivery.errors? := by
  rw [← h.lines, ← (h.step e).lines]
  exact (step_delivers c e).2

/-- What is delivered from the start is what each stream brings. -/
theorem deliveries_run (es : List Event) :
    (deliveries {} es).filterMap Delivery.terminal? = terminalTexts es ∧
      (deliveries {} es).filterMap Delivery.errors? = errorTexts es := by
  induction es using List.reverseRecOn with
  | nil => exact ⟨rfl, rfl⟩
  | append_singleton es e ih =>
    obtain ⟨hterminal, herrors⟩ := reads_run es
    rw [deliveries_append, deliveries, deliveries, List.append_nil, List.filterMap_append,
      List.filterMap_append, ih.1, ih.2]
    exact ⟨(hterminal.delivers e).symm, (herrors.delivers e).symm⟩

/-! ## Section 4: Results -/

variable {out err tail rest : Bytes} {ts ls : List Bytes}

theorem terminalTexts_of_writes (h : Writes out err es) (hout : Line.Splits out ts tail) :
    terminalTexts es = ts.filterMap Utf8.decode := by
  have hline : ∀ line : Bytes,
      Utf8.decode (Line.trimEnd ((line ++ [0x0D]) ++ [0x0A])) = Utf8.decode line := by
    intro line
    rw [Line.trimEnd_ended, Line.withoutReturn_append]
  rw [terminalTexts, h.terminal, hout.terminalOutput.complete_eq, textsOf, List.map_map,
    List.filterMap_map]
  simp only [Function.comp_def, hline]

theorem errorTexts_of_writes (h : Writes out err es) (herr : Line.Splits err ls rest) :
    errorTexts es =
      (ls.map Line.withoutReturn ++ (Line.unfinished rest).map Line.withoutReturn).map
        Utf8.decodeLossy := by
  rw [errorTexts, h.errors, herr.complete_eq]
  dsimp only
  by_cases hrest : rest = []
  · simp [hrest, Line.unfinished, Line.trimEnd_ended]
  · simp [h.errorsEnds, hrest, Line.unfinished, Line.trimEnd_ended,
      Line.trimEnd_unfinished herr.unfinished]

/-- To leave a carriage return out shows in the text. -/
theorem decodeLossy_withoutReturn_iff (line : Bytes) :
    Utf8.decodeLossy (Line.withoutReturn line) = Utf8.decodeLossy line ↔
      line.getLast? ≠ some 0x0D := by
  rw [← Line.withoutReturn_eq_iff]
  constructor
  · intro htext
    by_contra hline
    rw [Line.withoutReturn_eq_iff, not_not] at hline
    obtain ⟨front, rfl⟩ := List.getLast?_eq_some_iff.1 hline
    have hlength := congrArg List.length htext
    have hreturn : Utf8.decodeLossy [0x0D] = ['\r'] := Utf8.decodeLossy_encode ['\r']
    rw [Line.withoutReturn_append, Utf8.decodeLossy_append (by decide), hreturn,
      List.length_append, List.length_singleton] at hlength
    omega
  · intro hline
    rw [hline]

/-- Whatever the toolchain writes and however it is cut, the lines that a line feed ends
    are delivered in order, without what the terminal adds to them, and all that is
    delivered is taken note of.  An unfinished line of the terminal is lost, and one of
    the error stream loses a carriage return at its end; nothing else is missing. -/
theorem finished_lines_delivered (out err : Bytes) (es : List Event) :
    ((∃ ts tail, Line.Splits out ts tail) ∧ ∃ ls rest, Line.Splits err ls rest) ∧
    ((run es).invocation = lastShown ((deliveries {} es).filterMap Delivery.terminal?) ∧
      (run es).errorLines = (deliveries {} es).filterMap Delivery.errors?) ∧
    (Writes out err es →
      (∀ ts tail, Line.Splits out ts tail →
        Line.Splits (terminalOutput out) (ts.map (· ++ [0x0D])) tail ∧
        (deliveries {} es).filterMap Delivery.terminal? = ts.filterMap Utf8.decode ∧
        ((deliveries {} es).filterMap Delivery.terminal? =
            (ts ++ Line.unfinished tail).filterMap Utf8.decode ↔
          tail = [] ∨ Utf8.decode tail = none)) ∧
      ∀ ls rest, Line.Splits err ls rest →
        (deliveries {} es).filterMap Delivery.errors? =
          (ls.map Line.withoutReturn ++ (Line.unfinished rest).map Line.withoutReturn).map
            Utf8.decodeLossy ∧
        ((deliveries {} es).filterMap Delivery.errors? =
            (ls.map Line.withoutReturn ++ Line.unfinished rest).map Utf8.decodeLossy ↔
          rest.getLast? ≠ some 0x0D)) := by
  refine ⟨⟨Line.exists_splits out, Line.exists_splits err⟩, ?_, fun hwrites => ⟨?_, ?_⟩⟩
  · obtain ⟨hterminal, herrors⟩ := reads_run es
    obtain ⟨hshown, hlines⟩ := deliveries_run es
    rw [hshown, hlines]
    exact ⟨hterminal.invocation, herrors.lines⟩
  · -- The terminal: what could be missing is the unfinished line.
    intro ts tail hout
    rw [(deliveries_run es).1, terminalTexts_of_writes hwrites hout]
    refine ⟨hout.terminalOutput, rfl, ?_⟩
    rw [List.filterMap_append, List.self_eq_append_right]
    by_cases htail : tail = []
    · simp [htail, Line.unfinished]
    · simp [htail, Line.unfinished]
  · -- The error stream: what could differ is the return at the end of that line.
    intro ls rest herr
    rw [(deliveries_run es).2, errorTexts_of_writes hwrites herr]
    refine ⟨rfl, ?_⟩
    rw [List.map_append, List.map_append, List.append_right_inj]
    by_cases hrest : rest = []
    · simp [hrest, Line.unfinished]
    · rw [Line.unfinished, if_neg hrest, ← decodeLossy_withoutReturn_iff rest]
      simp

/-- Both streams, cut within lines; the last line of each is unfinished. -/
def brokenLines : List Event :=
  [.terminal (Utf8.encode "a\r\nx: re".toList), .errors (Utf8.encode "e\r".toList),
    .terminal (Utf8.encode "pl -lc".toList), .errors (Utf8.encode "\nf\r".toList), .terminalEnd,
    .exited (.exited 0), .errorsEnd]

theorem writes_brokenLines :
    Writes (Utf8.encode "a\nx: repl -lc".toList) (Utf8.encode "e\r\nf\r".toList) brokenLines := by
  refine ⟨?_, ?_, ?_, ?_⟩
  · decide +kernel
  · decide +kernel
  · decide +kernel
  · decide +kernel

theorem splits_brokenLines :
    Line.Splits (Utf8.encode "a\nx: repl -lc".toList) [Utf8.encode "a".toList]
        (Utf8.encode "x: repl -lc".toList) ∧
      Line.Splits (Utf8.encode "e\r\nf\r".toList) [Utf8.encode "e\r".toList]
        (Utf8.encode "f\r".toList) := by
  refine ⟨⟨?_, ?_, ?_⟩, ⟨?_, ?_, ?_⟩⟩
  all_goals decide +kernel

theorem finished_lines_delivered_broken :
    (deliveries {} brokenLines).filterMap Delivery.terminal? = ["a".toList] ∧
      (deliveries {} brokenLines).filterMap Delivery.errors? = ["e".toList, "f".toList] := by
  obtain ⟨hout, herr⟩ := splits_brokenLines
  obtain ⟨hterminal, herrors⟩ :=
    (finished_lines_delivered _ _ brokenLines).2.2 writes_brokenLines
  rw [(hterminal _ _ hout).2.1, (herrors _ _ herr).1]
  exact ⟨by decide +kernel, by decide +kernel⟩

/-- An unfinished last line is not delivered as it is written: of the terminal not at
    all, so that a resolution fails if it alone shows arguments. -/
theorem unfinished_line_lost :
    ¬ (∀ out err es, Writes out err es →
      (∀ ts tail, Line.Splits out ts tail →
        (deliveries {} es).filterMap Delivery.terminal? =
          (ts ++ Line.unfinished tail).filterMap Utf8.decode) ∧
      ∀ ls rest, Line.Splits err ls rest →
        (deliveries {} es).filterMap Delivery.errors? =
          (ls.map Line.withoutReturn ++ Line.unfinished rest).map Utf8.decodeLossy) ∧
    ((Resolve.capture "/" Prepare.smallOptions.resolve).run (Prepare.shownHost brokenLines)
      ⟨.empty, []⟩).1 = .error (.resolution "e\nf".toList) := by
  refine ⟨fun hdelivered => ?_, by decide +kernel⟩
  have hterminal := (hdelivered _ _ _ writes_brokenLines).1 _ _ splits_brokenLines.1
  rw [(deliveries_run brokenLines).1] at hterminal
  exact absurd hterminal (by decide +kernel)

end Capture
end ScriptDeps
