import Mathlib.Data.List.Induction
import ScriptDeps.Proofs.Prepare.Resolve
import ScriptDeps.Proofs.Text.Utf8

/-! # The streams of a capture

    The events of a capture mix two streams of bytes, signals and the end of
    the toolchain in whatever order they happen.  What is read of a stream
    depends on its own bytes alone, neither on where they are cut nor on what
    happens in between: `ReadsTerminal` and `ReadsErrors` say so of a state, one
    event keeps them, and so every reading has them. -/

namespace ScriptDeps

/-! ## Section 1: Lines of an append -/

namespace Line

/-- To go on reading is to put what follows after the unfinished line. -/
theorem complete_append (a b : Bytes) :
    complete (a ++ b) =
      ((complete a).1 ++ (complete ((complete a).2 ++ b)).1,
        (complete ((complete a).2 ++ b)).2) := by
  induction a with
  | nil => rfl
  | cons x a ih =>
    rcases ha : complete a with ⟨ls, tail⟩
    rcases hb : complete (tail ++ b) with ⟨ls', tail'⟩
    rw [ha] at ih
    dsimp only at ih
    rw [List.cons_append, complete, complete, ih, hb, ha]
    dsimp only
    by_cases hx : x = 0x0A
    · rw [if_pos hx, if_pos hx, hb]
      rfl
    · rw [if_neg hx, if_neg hx]
      -- The unfinished line grows by `x` if no line has ended since.
      cases ls with
      | nil =>
        dsimp only
        rw [List.cons_append, complete, hb]
        dsimp only
        rw [if_neg hx]
        rfl
      | cons l ls =>
        dsimp only
        rw [hb]
        rfl

/-- A line that comes to its end. -/
theorem complete_line {line : Bytes} (h : 0x0A ∉ line) (rest : Bytes) :
    complete (line ++ 0x0A :: rest) =
      ((line ++ [0x0A]) :: (complete rest).1, (complete rest).2) := by
  induction line with
  | nil => rfl
  | cons x line ih =>
    rw [List.mem_cons, not_or] at h
    rw [List.cons_append, complete, ih h.2]
    dsimp only
    rw [if_neg fun hx => h.1 hx.symm, List.cons_append]

end Line

namespace Capture

/-! ## Section 2: Model -/

namespace Event

/-- The bytes that an event brings of the terminal. -/
def terminalChunk : Event → Bytes
  | terminal chunk => chunk
  | _ => []

/-- The bytes that an event brings of the error stream. -/
def errorChunk : Event → Bytes
  | errors chunk => chunk
  | _ => []

def signal? : Event → Option Signal
  | signal s => some s
  | _ => none

def ending? : Event → Option Ending
  | exited e => some e
  | _ => none

/-- Whether an event is one of the terminal. -/
def isTerminal : Event → Bool
  | terminal _ | terminalEnd => true
  | _ => false

/-- Whether an event is one of the error stream. -/
def isErrors : Event → Bool
  | errors _ | errorsEnd => true
  | _ => false

end Event

/-- The bytes of the terminal up to its end. -/
def terminalBytes (es : List Event) : Bytes :=
  (es.takeWhile (· != .terminalEnd)).flatMap Event.terminalChunk

/-- The bytes of the error stream up to its end. -/
def errorBytes (es : List Event) : Bytes :=
  (es.takeWhile (· != .errorsEnd)).flatMap Event.errorChunk

/-- The texts of complete lines of the terminal; what is no text is left out. -/
def textsOf (lines : List Bytes) : List Text :=
  lines.filterMap fun line => Utf8.decode (Line.trimEnd line)

/-- The lines that the terminal brings. -/
def terminalTexts (es : List Event) : List Text := textsOf (Line.complete (terminalBytes es)).1

/-- The lines that the error stream brings; at its end an unfinished one
    counts. -/
def errorTexts (es : List Event) : List Text :=
  let (ls, rest) := Line.complete (errorBytes es)
  (ls ++ if .errorsEnd ∈ es ∧ rest ≠ [] then [rest] else []).map fun line =>
    Utf8.decodeLossy (Line.trimEnd line)

/-- The arguments shown last. -/
def lastShown (lines : List Text) : Option (List Text) :=
  (lines.filterMap Interactive.ofLine?).getLast?

/-- The state `c` has read the terminal as far as the events `es` go. -/
structure ReadsTerminal (es : List Event) (c : Capture) : Prop where
  isOpen     : c.terminalOpen = true ↔ .terminalEnd ∉ es
  rest       : .terminalEnd ∉ es → c.terminalRest = (Line.complete (terminalBytes es)).2
  invocation : c.invocation = lastShown (terminalTexts es)

/-- The state `c` has read the error stream as far as the events `es` go. -/
structure ReadsErrors (es : List Event) (c : Capture) : Prop where
  isOpen : c.errorsOpen = true ↔ .errorsEnd ∉ es
  rest   : c.errorsRest = if .errorsEnd ∈ es then [] else (Line.complete (errorBytes es)).2
  lines  : c.errorLines = errorTexts es

/-! ## Section 3: One event more -/

variable {es : List Event} {c : Capture} {e : Event}

theorem flatMap_takeWhile_concat (f : Event → Bytes) (stop e : Event) (hstop : f stop = [])
    (es : List Event) :
    ((es ++ [e]).takeWhile (· != stop)).flatMap f =
      (es.takeWhile (· != stop)).flatMap f ++ if stop ∈ es then [] else f e := by
  induction es with
  | nil =>
    by_cases he : e = stop
    · simp [he, hstop]
    · simp [he]
  | cons e' es ih =>
    by_cases he' : e' = stop
    · simp [he']
    · have hne : ¬ stop = e' := fun h => he' h.symm
      simp [he', hne, ih]

theorem terminalBytes_concat (es : List Event) (e : Event) :
    terminalBytes (es ++ [e]) =
      terminalBytes es ++ if .terminalEnd ∈ es then [] else e.terminalChunk :=
  flatMap_takeWhile_concat Event.terminalChunk .terminalEnd e rfl es

theorem errorBytes_concat (es : List Event) (e : Event) :
    errorBytes (es ++ [e]) = errorBytes es ++ if .errorsEnd ∈ es then [] else e.errorChunk :=
  flatMap_takeWhile_concat Event.errorChunk .errorsEnd e rfl es

/-- Only an event of the terminal brings bytes of it. -/
theorem terminalBytes_concat_other (h : e.isTerminal = false) (es : List Event) :
    terminalBytes (es ++ [e]) = terminalBytes es := by
  have hchunk : e.terminalChunk = [] := by cases e <;> first | rfl | cases h
  rw [terminalBytes_concat, hchunk, ite_self, List.append_nil]

theorem errorBytes_concat_other (h : e.isErrors = false) (es : List Event) :
    errorBytes (es ++ [e]) = errorBytes es := by
  have hchunk : e.errorChunk = [] := by cases e <;> first | rfl | cases h
  rw [errorBytes_concat, hchunk, ite_self, List.append_nil]

theorem lastShown_append (ts us : List Text) :
    lastShown (ts ++ us) = (lastShown us).or (lastShown ts) := by
  unfold lastShown
  rw [List.filterMap_append, List.getLast?_append]

/-- Lines of the terminal change nothing but what was shown last. -/
theorem foldl_terminalLine (c : Capture) (ls : List Bytes) :
    ls.foldl terminalLine c =
      { c with
        invocation := (lastShown (textsOf ls)).or c.invocation
        events := (ls.foldl terminalLine c).events } := by
  induction ls generalizing c with
  | nil => rfl
  | cons l ls ih =>
    rw [List.foldl_cons, ih]
    cases hdecode : Utf8.decode (Line.trimEnd l) with
    | none => simp [terminalLine, textsOf, hdecode]
    | some t =>
      have htexts : textsOf (l :: ls) = [t] ++ textsOf ls := by simp [textsOf, hdecode]
      rw [htexts, lastShown_append]
      cases hshown : Interactive.ofLine? t with
      | none => simp [terminalLine, hdecode, lastShown, hshown]
      | some args =>
        simp [terminalLine, hdecode, lastShown, hshown]

theorem foldl_errorLine (c : Capture) (ls : List Bytes) :
    ls.foldl errorLine c =
      { c with
        errorLines := c.errorLines ++ ls.map fun line => Utf8.decodeLossy (Line.trimEnd line) } := by
  induction ls generalizing c with
  | nil => simp
  | cons l ls ih =>
    rw [List.foldl_cons, ih]
    simp [errorLine]

/-! ## Section 4: What a step keeps -/

theorem mem_concat_iff (es : List Event) {stop : Event} (h : e ≠ stop) :
    stop ∈ es ++ [e] ↔ stop ∈ es := by
  rw [List.mem_append, List.mem_singleton]
  exact or_iff_left h.symm

/-- An event of neither stream changes neither. -/
theorem fields_step (c : Capture) :
    (e.isTerminal = false → (c.step e).terminalOpen = c.terminalOpen ∧
      (c.step e).terminalRest = c.terminalRest ∧ (c.step e).invocation = c.invocation) ∧
    (e.isErrors = false → (c.step e).errorsOpen = c.errorsOpen ∧
      (c.step e).errorsRest = c.errorsRest ∧ (c.step e).errorLines = c.errorLines) ∧
    (e.signal? = none → (c.step e).forwarded = c.forwarded) ∧
    (e.ending? = none → (c.step e).ending = c.ending) := by
  -- Each event is of one stream at most; a closed stream takes nothing.
  cases e with
  | terminal chunk =>
    rw [step]
    split
    · dsimp only
      rw [foldl_terminalLine]
      exact ⟨nofun, fun _ => ⟨rfl, rfl, rfl⟩, fun _ => rfl, fun _ => rfl⟩
    · exact ⟨nofun, fun _ => ⟨rfl, rfl, rfl⟩, fun _ => rfl, fun _ => rfl⟩
  | errors chunk =>
    rw [step]
    split
    · dsimp only
      rw [foldl_errorLine]
      exact ⟨fun _ => ⟨rfl, rfl, rfl⟩, nofun, fun _ => rfl, fun _ => rfl⟩
    · exact ⟨fun _ => ⟨rfl, rfl, rfl⟩, nofun, fun _ => rfl, fun _ => rfl⟩
  | terminalEnd => exact ⟨nofun, fun _ => ⟨rfl, rfl, rfl⟩, fun _ => rfl, fun _ => rfl⟩
  | errorsEnd =>
    rw [step]
    split
    · exact ⟨fun _ => ⟨rfl, rfl, rfl⟩, nofun, fun _ => rfl, fun _ => rfl⟩
    · exact ⟨fun _ => ⟨rfl, rfl, rfl⟩, nofun, fun _ => rfl, fun _ => rfl⟩
  | signal s =>
    rw [step]
    split
    · exact ⟨fun _ => ⟨rfl, rfl, rfl⟩, fun _ => ⟨rfl, rfl, rfl⟩, nofun, fun _ => rfl⟩
    · exact ⟨fun _ => ⟨rfl, rfl, rfl⟩, fun _ => ⟨rfl, rfl, rfl⟩, nofun, fun _ => rfl⟩
  | exited e => exact ⟨fun _ => ⟨rfl, rfl, rfl⟩, fun _ => ⟨rfl, rfl, rfl⟩, fun _ => rfl, nofun⟩

/-- The lines of the terminal are what they were if nothing more comes of it. -/
theorem ReadsTerminal.of_same (h : ReadsTerminal es c) {es' : List Event} {c' : Capture}
    (hend : .terminalEnd ∈ es' ↔ .terminalEnd ∈ es) (hbytes : terminalBytes es' = terminalBytes es)
    (hopen : c'.terminalOpen = c.terminalOpen) (hrest : c'.terminalRest = c.terminalRest)
    (hinvocation : c'.invocation = c.invocation) : ReadsTerminal es' c' := by
  refine ⟨by rw [hopen, hend, h.isOpen], fun hnot => ?_, ?_⟩
  · rw [hrest, hbytes, h.rest (hend.not.1 hnot)]
  · rw [hinvocation, h.invocation, terminalTexts, terminalTexts, hbytes]

/-- What is not of the terminal leaves its lines as they are. -/
theorem ReadsTerminal.other (h : ReadsTerminal es c) (hkind : e.isTerminal = false) :
    ReadsTerminal (es ++ [e]) (c.step e) := by
  have hne : e ≠ .terminalEnd := by
    rintro rfl
    cases hkind
  obtain ⟨hopen, hrest, hinvocation⟩ := (fields_step c).1 hkind
  exact h.of_same (mem_concat_iff es hne) (terminalBytes_concat_other hkind es) hopen hrest
    hinvocation

/-- Once the terminal has ended nothing is read of it any more. -/
theorem ReadsTerminal.closed (h : ReadsTerminal es c) (hkind : e.isTerminal = true)
    (hclosed : .terminalEnd ∈ es) : ReadsTerminal (es ++ [e]) (c.step e) := by
  have hopen : c.terminalOpen = false := by simpa using h.isOpen.not.2 (not_not.2 hclosed)
  have hbytes := terminalBytes_concat es e
  rw [if_pos hclosed, List.append_nil] at hbytes
  have hend : .terminalEnd ∈ es ++ [e] ↔ .terminalEnd ∈ es := by simp [hclosed]
  cases e with
  | terminal chunk =>
    rw [Capture.step, if_neg (by simp [hopen])]
    exact h.of_same hend hbytes rfl rfl rfl
  | terminalEnd =>
    exact ⟨by simp [Capture.step], fun hnot => absurd (hend.2 hclosed) hnot,
      by rw [terminalTexts, hbytes]; exact h.invocation⟩
  | _ => cases hkind

/-- The lines that a chunk brings to their end are read, and the rest is kept for later. -/
theorem ReadsTerminal.chunk (h : ReadsTerminal es c) (hclosed : .terminalEnd ∉ es)
    (chunk : Bytes) : ReadsTerminal (es ++ [.terminal chunk]) (c.step (.terminal chunk)) := by
  have hbytes := terminalBytes_concat es (.terminal chunk)
  rw [if_neg hclosed] at hbytes
  have hnext := Line.complete_append (terminalBytes es) chunk
  have htexts : terminalTexts (es ++ [.terminal chunk]) = terminalTexts es ++
      textsOf (Line.complete ((Line.complete (terminalBytes es)).2 ++ chunk)).1 := by
    rw [terminalTexts, hbytes, Event.terminalChunk, hnext]
    exact List.filterMap_append
  rw [Capture.step, if_pos (h.isOpen.2 hclosed), h.rest hclosed]
  dsimp only
  rw [foldl_terminalLine]
  refine ⟨by simpa [hclosed] using h.isOpen.2 hclosed, fun _ => ?_, ?_⟩
  · rw [hbytes, Event.terminalChunk, hnext]
  · rw [htexts, lastShown_append, ← h.invocation]

/-- At the end of the terminal its unfinished line is dropped. -/
theorem ReadsTerminal.ended (h : ReadsTerminal es c) (hclosed : .terminalEnd ∉ es) :
    ReadsTerminal (es ++ [.terminalEnd]) (c.step .terminalEnd) := by
  have hbytes := terminalBytes_concat es .terminalEnd
  have hnone : Event.terminalEnd.terminalChunk = [] := rfl
  rw [if_neg hclosed, hnone, List.append_nil] at hbytes
  exact ⟨by simp [Capture.step], by simp, by rw [terminalTexts, hbytes]; exact h.invocation⟩

theorem ReadsTerminal.step (h : ReadsTerminal es c) (e : Event) :
    ReadsTerminal (es ++ [e]) (c.step e) := by
  cases hkind : e.isTerminal with
  | false => exact h.other hkind
  | true =>
    by_cases hclosed : .terminalEnd ∈ es
    · exact h.closed hkind hclosed
    · cases e with
      | terminal chunk => exact h.chunk hclosed chunk
      | terminalEnd => exact h.ended hclosed
      | _ => cases hkind

theorem ReadsErrors.of_same (h : ReadsErrors es c) {es' : List Event} {c' : Capture}
    (hend : .errorsEnd ∈ es' ↔ .errorsEnd ∈ es) (hbytes : errorBytes es' = errorBytes es)
    (hopen : c'.errorsOpen = c.errorsOpen) (hrest : c'.errorsRest = c.errorsRest)
    (hlines : c'.errorLines = c.errorLines) : ReadsErrors es' c' := by
  refine ⟨by rw [hopen, hend, h.isOpen], ?_, ?_⟩
  · rw [hrest, h.rest, hbytes]
    simp only [hend]
  · rw [hlines, h.lines, errorTexts, errorTexts, hbytes]
    simp only [hend]

/-- What is not of the error stream leaves its lines as they are. -/
theorem ReadsErrors.other (h : ReadsErrors es c) (hkind : e.isErrors = false) :
    ReadsErrors (es ++ [e]) (c.step e) := by
  have hne : e ≠ .errorsEnd := by
    rintro rfl
    cases hkind
  obtain ⟨hopen, hrest, hlines⟩ := (fields_step c).2.1 hkind
  exact h.of_same (mem_concat_iff es hne) (errorBytes_concat_other hkind es) hopen hrest hlines

/-- Once the error stream has ended nothing is read of it any more. -/
theorem ReadsErrors.closed (h : ReadsErrors es c) (hkind : e.isErrors = true)
    (hclosed : .errorsEnd ∈ es) : ReadsErrors (es ++ [e]) (c.step e) := by
  have hopen : c.errorsOpen = false := by simpa using h.isOpen.not.2 (not_not.2 hclosed)
  have hbytes := errorBytes_concat es e
  rw [if_pos hclosed, List.append_nil] at hbytes
  have hend : .errorsEnd ∈ es ++ [e] ↔ .errorsEnd ∈ es := by simp [hclosed]
  cases e with
  | errors chunk =>
    rw [Capture.step, if_neg (by simp [hopen])]
    exact h.of_same hend hbytes rfl rfl rfl
  | errorsEnd =>
    -- Nothing is left over that a second end could complete.
    have hrest := h.rest
    rw [if_pos hclosed] at hrest
    rw [Capture.step, if_pos (by simp [hrest])]
    exact h.of_same hend hbytes hopen.symm hrest.symm rfl
  | _ => cases hkind

/-- While the error stream is open its lines are the complete ones. -/
theorem ReadsErrors.lines_of_open (h : ReadsErrors es c) (hclosed : .errorsEnd ∉ es) :
    c.errorsRest = (Line.complete (errorBytes es)).2 ∧
      c.errorLines = (Line.complete (errorBytes es)).1.map fun line =>
        Utf8.decodeLossy (Line.trimEnd line) := by
  have hrest := h.rest
  have hlines := h.lines
  rw [if_neg hclosed] at hrest
  rw [errorTexts] at hlines
  dsimp only at hlines
  rw [if_neg (by simp [hclosed]), List.append_nil] at hlines
  exact ⟨hrest, hlines⟩

/-- The lines that a chunk brings to their end are read, and the rest is kept for later. -/
theorem ReadsErrors.chunk (h : ReadsErrors es c) (hclosed : .errorsEnd ∉ es) (chunk : Bytes) :
    ReadsErrors (es ++ [.errors chunk]) (c.step (.errors chunk)) := by
  obtain ⟨hrest, hlines⟩ := h.lines_of_open hclosed
  have hbytes := errorBytes_concat es (.errors chunk)
  rw [if_neg hclosed] at hbytes
  have hnext := Line.complete_append (errorBytes es) chunk
  have hstill : .errorsEnd ∉ es ++ [Event.errors chunk] := by simp [hclosed]
  rw [Capture.step, if_pos (h.isOpen.2 hclosed), hrest]
  dsimp only
  rw [foldl_errorLine]
  refine ⟨by simpa [hclosed] using h.isOpen.2 hclosed, ?_, ?_⟩
  · rw [if_neg hstill, hbytes, Event.errorChunk, hnext]
  · rw [errorTexts, hbytes, Event.errorChunk, hnext]
    dsimp only
    rw [if_neg (by simp [hclosed]), List.append_nil, List.map_append, hlines]

/-- At the end of the error stream its unfinished line counts, if there is one. -/
theorem ReadsErrors.ended (h : ReadsErrors es c) (hclosed : .errorsEnd ∉ es) :
    ReadsErrors (es ++ [.errorsEnd]) (c.step .errorsEnd) := by
  obtain ⟨hrest, hlines⟩ := h.lines_of_open hclosed
  have hbytes := errorBytes_concat es .errorsEnd
  have hnone : Event.errorsEnd.errorChunk = [] := rfl
  have hended : .errorsEnd ∈ es ++ [Event.errorsEnd] := by simp
  rw [if_neg hclosed, hnone, List.append_nil] at hbytes
  have htexts : errorTexts (es ++ [.errorsEnd]) = c.errorLines ++
      (if c.errorsRest = [] then [] else [c.errorsRest]).map fun line =>
        Utf8.decodeLossy (Line.trimEnd line) := by
    rw [errorTexts, hbytes, hlines, hrest]
    dsimp only
    rw [List.map_append]
    by_cases hnil : (Line.complete (errorBytes es)).2 = [] <;> simp [hnil]
  refine ⟨by simp [Capture.step], by rw [if_pos hended]; simp [Capture.step], ?_⟩
  rw [htexts, Capture.step]
  by_cases hnil : c.errorsRest = []
  · simp [hnil]
  · simp [hnil, errorLine]

theorem ReadsErrors.step (h : ReadsErrors es c) (e : Event) :
    ReadsErrors (es ++ [e]) (c.step e) := by
  cases hkind : e.isErrors with
  | false => exact h.other hkind
  | true =>
    by_cases hclosed : .errorsEnd ∈ es
    · exact h.closed hkind hclosed
    · cases e with
      | errors chunk => exact h.chunk hclosed chunk
      | errorsEnd => exact h.ended hclosed
      | _ => cases hkind

/-- Every reading has read each stream as far as its events go. -/
theorem reads_run (es : List Event) : ReadsTerminal es (run es) ∧ ReadsErrors es (run es) := by
  induction es using List.reverseRecOn with
  | nil => exact ⟨⟨by simp [run], fun _ => rfl, rfl⟩, ⟨by simp [run], by simp [run]; rfl, rfl⟩⟩
  | append_singleton es e ih =>
    rw [run_append]
    exact ⟨ih.1.step e, ih.2.step e⟩

/-- The ending is the one reported last. -/
theorem ending_run (es : List Event) :
    (run es).ending = (es.filterMap Event.ending?).getLast? := by
  induction es using List.reverseRecOn with
  | nil => rfl
  | append_singleton es e ih =>
    rw [run_append, List.filterMap_append, List.getLast?_append]
    cases he : e.ending? with
    | none =>
      rw [List.foldl_cons, List.foldl_nil, (fields_step _).2.2.2 he, ih]
      simp [he]
    | some x =>
      cases e with
      | exited e =>
        cases he
        rfl
      | _ => cases he

end Capture
end ScriptDeps
