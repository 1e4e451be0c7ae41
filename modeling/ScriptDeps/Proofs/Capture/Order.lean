import ScriptDeps.Proofs.Capture.Signals

/-! # The order of a capture

    What comes of a capture without signals depends on the lines of the
    terminal, the lines of the error stream and the ending, and not on the
    order in which these happen: `Brings` says of events what they bring, and
    every interleaving of two sequences of lines brings these
    (`Interleaves.brings`). -/

namespace ScriptDeps

/-! ## Section 1: Line ends -/

namespace Cut

variable {α : Type} [BEq α] [LawfulBEq α]

theorem before?_append (finish xs : List α) : before? finish (xs ++ finish) = some xs := by
  rw [before?, List.reverse_append, after?_append, Option.map_some, List.reverse_reverse]

theorem getLast?_of_before? {x : α} {xs rest : List α} (h : before? [x] xs = some rest) :
    xs.getLast? = some x := by
  obtain ⟨back, hback, rfl⟩ := Option.map_eq_some_iff.1 h
  have hxs := congrArg List.reverse (eq_append_of_after? hback)
  rw [List.reverse_reverse] at hxs
  rw [hxs]
  simp

end Cut

namespace Utf8

/-- A small byte at the end of a text is its last character. -/
theorem getLast?_of_encode {t : Text} {b : UInt8} (hb : b.toNat < 0x80)
    (h : (encode t).getLast? = some b) : ∃ c, t.getLast? = some c ∧ c.toNat = b.toNat := by
  induction t using List.reverseRecOn with
  | nil => cases h
  | append_singleton front c _ =>
    refine ⟨c, List.getLast?_concat, ?_⟩
    have hne : encodeCode c.toNat ≠ [] := by
      unfold encodeCode
      repeat' split
      all_goals exact List.cons_ne_nil _ _
    have hsplit : encode (front ++ [c]) = encode front ++ encodeCode c.toNat := by simp [encode]
    rw [hsplit, List.getLast?_append, List.getLast?_eq_some_getLast hne, Option.some_or] at h
    exact eq_toNat_of_mem_encodeCode (isScalar_toNat c) hb
      (Option.some.inj h ▸ List.getLast_mem hne)

end Utf8

namespace Line

/-- The bytes `line` are the text `t` and a line end; a carriage return at the
    end of the text needs another one in the line end. -/
def Ends (t : Text) (line : Bytes) : Prop :=
  '\n' ∉ t ∧ (line = Utf8.encode t ++ [0x0D, 0x0A] ∨
    line = Utf8.encode t ++ [0x0A] ∧ t.getLast? ≠ some '\r')

theorem trimEnd_of_ends {t : Text} {line : Bytes} (h : Ends t line) :
    trimEnd line = Utf8.encode t := by
  rcases h.2 with rfl | ⟨rfl, hlast⟩
  · have hline : Utf8.encode t ++ [0x0D, 0x0A] = (Utf8.encode t ++ [0x0D]) ++ [0x0A] := by simp
    rw [trimEnd, hline, Cut.before?_append, Option.getD_some, Cut.before?_append, Option.getD_some]
  · rw [trimEnd, Cut.before?_append, Option.getD_some]
    cases hbefore : Cut.before? [0x0D] (Utf8.encode t) with
    | none => rfl
    | some rest =>
      obtain ⟨c, hc, hcode⟩ := Utf8.getLast?_of_encode (by decide) (Cut.getLast?_of_before? hbefore)
      obtain rfl : c = '\r' := Char.toNat_inj.1 hcode
      exact absurd hc hlast

theorem exists_front_of_ends {t : Text} {line : Bytes} (h : Ends t line) :
    ∃ front, line = front ++ [0x0A] ∧ 0x0A ∉ front := by
  have hnone : (0x0A : UInt8) ∉ Utf8.encode t := by
    intro hmem
    obtain ⟨c, hc, hcode⟩ := Utf8.exists_mem_of_mem_encode (by decide) hmem
    obtain rfl : c = '\n' := Char.toNat_inj.1 hcode
    exact h.1 hc
  rcases h.2 with rfl | ⟨rfl, _⟩
  · exact ⟨Utf8.encode t ++ [0x0D], by simp, by simpa using hnone⟩
  · exact ⟨Utf8.encode t, rfl, hnone⟩

/-- Lines put together come apart again. -/
theorem complete_flatten {ts : List Text} {ls : List Bytes} (h : List.Forall₂ Ends ts ls) :
    complete ls.flatten = (ls, []) := by
  induction h with
  | nil => rfl
  | cons hline _ ih =>
    obtain ⟨front, rfl, hfront⟩ := exists_front_of_ends hline
    rw [List.flatten_cons, List.append_assoc, List.singleton_append, complete_line hfront, ih]

end Line

namespace Capture

/-! ## Section 2: Model -/

/-- Without signals, the events bring the lines `T` of the terminal and `E` of
    the error stream, and the toolchain ends so. -/
structure Brings (T E : List Text) (ending : Ending) (es : List Event) : Prop where
  terminal : terminalTexts es = T
  errors   : errorTexts es = E
  ending   : es.filterMap Event.ending? = [ending]
  quiet    : es.filterMap Event.signal? = []

/-- The events come line by line, each stream in its order and up to its end,
    and the ending somewhere among them. -/
structure Interleaves (T E : List Text) (ending : Ending) (es : List Event) : Prop where
  terminal : ∃ ls, List.Forall₂ Line.Ends T ls ∧
    es.filter Event.isTerminal = ls.map .terminal ++ [.terminalEnd]
  errors   : ∃ ls, List.Forall₂ Line.Ends E ls ∧
    es.filter Event.isErrors = ls.map .errors ++ [.errorsEnd]
  others   : es.filter (fun e => !e.isTerminal && !e.isErrors) = [.exited ending]

/-! ## Section 3: Interleavings -/

variable {T E : List Text} {ending : Ending} {es : List Event}

/-- Only the events of a stream count for its bytes. -/
theorem flatMap_takeWhile_filter (f : Event → Bytes) (stop : Event) (p : Event → Bool)
    (hother : ∀ e, p e = false → f e = [] ∧ e ≠ stop) (es : List Event) :
    ((es.filter p).takeWhile (· != stop)).flatMap f = (es.takeWhile (· != stop)).flatMap f := by
  induction es with
  | nil => rfl
  | cons e es ih =>
    cases he : p e with
    | true =>
      rw [List.filter_cons_of_pos he]
      by_cases hstop : e = stop
      · simp [hstop]
      · simp [hstop, ih]
    | false =>
      obtain ⟨hnone, hstop⟩ := hother e he
      rw [List.filter_cons_of_neg (by simp [he]), ih]
      simp [hstop, hnone]

theorem terminalTexts_of_lines {ls : List Bytes} (hlines : List.Forall₂ Line.Ends T ls)
    (h : es.filter Event.isTerminal = ls.map .terminal ++ [.terminalEnd]) :
    terminalTexts es = T := by
  have hbytes : terminalBytes es = ls.flatten := by
    have hfilter := flatMap_takeWhile_filter Event.terminalChunk .terminalEnd Event.isTerminal
      (fun e he => by cases e <;> simp_all [Event.isTerminal, Event.terminalChunk]) es
    rw [h, List.takeWhile_append_of_pos (by simp)] at hfilter
    rw [terminalBytes, ← hfilter]
    simp [List.flatMap_map, Event.terminalChunk, List.flatMap_id']
  rw [terminalTexts, hbytes, Line.complete_flatten hlines]
  dsimp only
  clear h hbytes
  induction hlines with
  | nil => rfl
  | cons hline _ ih =>
    rw [textsOf] at ih ⊢
    rw [List.filterMap_cons, Line.trimEnd_of_ends hline, Utf8.decode_encode, ih]

theorem errorTexts_of_lines {ls : List Bytes} (hlines : List.Forall₂ Line.Ends E ls)
    (h : es.filter Event.isErrors = ls.map .errors ++ [.errorsEnd]) : errorTexts es = E := by
  have hbytes : errorBytes es = ls.flatten := by
    have hfilter := flatMap_takeWhile_filter Event.errorChunk .errorsEnd Event.isErrors
      (fun e he => by cases e <;> simp_all [Event.isErrors, Event.errorChunk]) es
    rw [h, List.takeWhile_append_of_pos (by simp)] at hfilter
    rw [errorBytes, ← hfilter]
    simp [List.flatMap_map, Event.errorChunk, List.flatMap_id']
  rw [errorTexts, hbytes, Line.complete_flatten hlines]
  dsimp only
  rw [if_neg (by simp), List.append_nil]
  clear h hbytes
  induction hlines with
  | nil => rfl
  | cons hline _ ih =>
    rw [List.map_cons, Line.trimEnd_of_ends hline, Utf8.decodeLossy_encode, ih]

theorem filterMap_of_filter {β : Type} (g : Event → Option β) (p : Event → Bool)
    (hother : ∀ e, p e = false → g e = none) (es : List Event) :
    es.filterMap g = (es.filter p).filterMap g := by
  induction es with
  | nil => rfl
  | cons e es ih =>
    cases he : p e with
    | true => rw [List.filter_cons_of_pos he, List.filterMap_cons, List.filterMap_cons, ih]
    | false =>
      rw [List.filter_cons_of_neg (by simp [he]), List.filterMap_cons_none (hother e he), ih]

/-- In whatever order they come, lines bring what they are. -/
theorem Interleaves.brings (h : Interleaves T E ending es) : Brings T E ending es := by
  obtain ⟨ts, hts, hterminal⟩ := h.terminal
  obtain ⟨ls, hls, herrors⟩ := h.errors
  refine ⟨terminalTexts_of_lines hts hterminal, errorTexts_of_lines hls herrors, ?_, ?_⟩
  · rw [filterMap_of_filter _ (fun e => !e.isTerminal && !e.isErrors)
      (fun e he => by cases e <;> first | rfl | cases he), h.others]
    rfl
  · rw [filterMap_of_filter _ (fun e => !e.isTerminal && !e.isErrors)
      (fun e he => by cases e <;> first | rfl | cases he), h.others]
    rfl

/-! ## Section 4: Results -/

theorem lastShown_eq_none {ts : List Text} (h : ∀ t ∈ ts, Interactive.ofLine? t = none) :
    lastShown ts = none := by
  rw [lastShown, List.filterMap_eq_nil_iff.2 h, List.getLast?_nil]

theorem lastShown_eq_some {before after : List Text} {line : Text} {args : List Text}
    (hline : Interactive.ofLine? line = some args)
    (hafter : ∀ t ∈ after, Interactive.ofLine? t = none) :
    lastShown (before ++ line :: after) = some args := by
  have hone : lastShown [line] = some args := by
    rw [lastShown, List.filterMap_cons_some hline]
    rfl
  rw [← List.singleton_append, lastShown_append, lastShown_append, lastShown_eq_none hafter, hone]
  rfl

theorem isTolerated_iff (e : Ending) :
    e.isTolerated = true ↔ e = .exited 0 ∨ e = .signaled 9 := by
  rw [Ending.isTolerated, Ending.succeeded, Bool.or_eq_true, decide_eq_true_iff,
    decide_eq_true_iff]

/-- What a capture has read of its streams decides its result. -/
theorem Brings.result (h : Brings T E ending es) (program : Text) :
    ((run es).result program).1 =
      match if ending.isTolerated then lastShown T else none with
      | some args => .ok args
      | none => .error (.resolution (Cut.join ['\n'] E)) := by
  obtain ⟨hterminal, herrors⟩ := reads_run es
  have hquiet : (run es).forwarded = [] := by
    rw [forwarded_run, heard_of_no_signal h.quiet]
    rfl
  have hending : (run es).ending = some ending := by
    rw [ending_run, h.ending]
    rfl
  rw [Capture.result, hquiet, hending, hterminal.invocation, herrors.lines, h.terminal, h.errors,
    List.getLast?_nil, Option.getD_some]
  dsimp only
  cases ending.isTolerated with
  | false => rfl
  | true =>
    rw [if_pos rfl, if_pos rfl]
    cases lastShown T <;> rfl

/-- Whatever the order of the lines, of their parts and of the ending, a
    capture without signals fails with the lines of the error stream, if the
    ending is no good one or no line shows arguments, and otherwise results in
    the arguments shown last. -/
theorem capture_of_lines (T E : List Text) (ending : Ending) :
    (∀ es, Interleaves T E ending es → Brings T E ending es) ∧
      ∀ es, Brings T E ending es → ∀ (h : Host) (m : Machine) fs dir o,
        h.capture (Resolve.call dir o) m.files = .ok (fs, es) →
        ((ending ≠ .exited 0 ∧ ending ≠ .signaled 9) ∨
            (∀ t ∈ T, Interactive.ofLine? t = none) →
          ((Resolve.capture dir o).run h m).1 = .error (.resolution (Cut.join ['\n'] E))) ∧
        (ending = .exited 0 ∨ ending = .signaled 9 →
          ∀ before line after args, T = before ++ line :: after →
            Interactive.ofLine? line = some args →
            (∀ t ∈ after, Interactive.ofLine? t = none) →
            ((Resolve.capture dir o).run h m).1 = .ok args) := by
  refine ⟨fun es => Interleaves.brings, fun es hbrings h m fs dir o hcall => ?_⟩
  have hcapture := Resolve.run_capture dir o h m
  rw [hcall] at hcapture
  obtain ⟨m', _, hrun⟩ := hcapture
  rw [hrun, hbrings.result]
  refine ⟨fun hbad => ?_, fun hgood before line after args hT hline hafter => ?_⟩
  · have hnone : (if ending.isTolerated then lastShown T else none) = none := by
      rcases hbad with hbad | hnothing
      · rw [if_neg ((isTolerated_iff ending).not.2 (not_or.2 hbad))]
      · rw [lastShown_eq_none hnothing, ite_self]
    rw [hnone]
  · rw [if_pos ((isTolerated_iff ending).2 hgood), hT, lastShown_eq_some hline hafter]

/-- Two lines that show arguments, with the error stream and a death by signal
    9 between them. -/
def mixedLines : List Event :=
  [.errors (Utf8.encode "e\n".toList), .terminal (Utf8.encode "x: repl -a\r\n".toList),
    .exited (.signaled 9), .errors (Utf8.encode "f\r\n".toList),
    .terminal (Utf8.encode "x: repl -b  c\n".toList), .errorsEnd,
    .terminal (Utf8.encode "done\r\n".toList), .terminalEnd]

theorem interleaves_mixedLines :
    Interleaves (["x: repl -a", "x: repl -b  c", "done"].map String.toList)
      (["e", "f"].map String.toList) (.signaled 9) mixedLines := by
  refine ⟨⟨["x: repl -a\r\n", "x: repl -b  c\n", "done\r\n"].map fun l => Utf8.encode l.toList,
    ?_, by decide +kernel⟩, ⟨["e\n", "f\r\n"].map fun l => Utf8.encode l.toList, ?_,
    by decide +kernel⟩, by decide +kernel⟩
  · exact .cons ⟨by decide, .inl (by decide +kernel)⟩ (.cons ⟨by decide, .inr (by decide +kernel)⟩
      (.cons ⟨by decide, .inl (by decide +kernel)⟩ .nil))
  · exact .cons ⟨by decide, .inr (by decide +kernel)⟩ (.cons ⟨by decide, .inl (by decide +kernel)⟩
      .nil)

theorem capture_of_lines_mixed :
    ((Resolve.capture "/" Prepare.smallOptions.resolve).run (Prepare.shownHost mixedLines)
      ⟨.empty, []⟩).1 = .ok ["-b".toList, "c".toList] := by
  have hlines := capture_of_lines (["x: repl -a", "x: repl -b  c", "done"].map String.toList)
    (["e", "f"].map String.toList) (.signaled 9)
  refine (hlines.2 mixedLines (hlines.1 _ interleaves_mixedLines) (Prepare.shownHost mixedLines)
    ⟨.empty, []⟩ _ "/" _ rfl).2 (.inr rfl) ["x: repl -a".toList] "x: repl -b  c".toList
    ["done".toList] _ rfl (by decide +kernel) (by decide +kernel)

end Capture

end ScriptDeps
