import Mathlib.Data.List.Induction
import ScriptDeps.Proofs.Prepare.Run

/-! # Scanning line by line

    A scan takes a script as a whole.  Here it is told line by line: each line
    is read with the notices that have been given so far (`Progress.next`), and
    what comes out is the same whatever these are.  So a scan falls into the
    scans of its parts, and each notice is logged at the first line that calls
    for it and nowhere else. -/

namespace ScriptDeps

/-! ## Section 1: Saying something once -/

namespace Log

/-- Whether an event is a notice, which a run gives at most once. -/
def Event.isNotice : Event → Bool
  | bareShorthand | entryAttribute => true
  | _ => false

namespace Given

variable {e : Event}

theorem blocks_note (g : Given) (he : e.isNotice = true) (e' : Event) :
    (g.note e').blocks e = (g.blocks e || e' == e) := by
  cases e with
  | bareShorthand => cases e' <;> simp [note, blocks]
  | entryAttribute => cases e' <;> simp [note, blocks]
  | _ => cases he

/-- A notice is given once it was called for. -/
theorem blocks_limit (g : Given) (he : e.isNotice = true) (es : List Event) :
    (g.limit es).1.blocks e = (g.blocks e || es.contains e) := by
  induction es generalizing g with
  | nil => simp [limit]
  | cons e' es ih =>
    rw [limit]
    dsimp only
    rw [ih, blocks_note g he, List.contains_cons, Bool.or_assoc, BEq.comm]

theorem mem_limit_iff (g : Given) (he : e.isNotice = true) (es : List Event) :
    e ∈ (g.limit es).2 ↔ e ∈ es ∧ g.blocks e = false := by
  induction es generalizing g with
  | nil => simp [limit]
  | cons e' es ih =>
    have hrest := ih (g.note e')
    rw [blocks_note g he] at hrest
    rw [limit]
    by_cases heq : e' = e
    · subst heq
      by_cases hblocks : g.blocks e' <;> simp [hblocks, hrest]
    · have hne : e ≠ e' := fun h => heq h.symm
      by_cases hblocks : g.blocks e' <;> simp [hblocks, hrest, heq, hne]

/-- No notice is repeated. -/
theorem count_limit_le (g : Given) (he : e.isNotice = true) (es : List Event) :
    (g.limit es).2.count e ≤ 1 := by
  induction es generalizing g with
  | nil => simp [limit]
  | cons e' es ih =>
    have hrest := ih (g.note e')
    rw [limit]
    dsimp only
    split
    · exact hrest
    · by_cases heq : e' = e
      · subst heq
        -- What is noted now does not come again.
        have hnone : e' ∉ ((g.note e').limit es).2 := by
          rw [mem_limit_iff _ he, blocks_note g he]
          simp
        have hcount := List.count_eq_zero_of_not_mem hnone
        rw [List.count_cons_self]
        omega
      · rw [List.count_cons_of_ne heq]
        exact hrest

end Given
end Log

namespace Script

/-! ## Section 2: Lines of an append -/

/-- Nothing, or something that ends with a line feed. -/
def EndsLine (bytes : Bytes) : Prop := bytes = [] ∨ bytes.getLast? = some 0x0A

/-- One line: it has a line feed at its end, if one at all. -/
def IsLine (line : Bytes) : Prop := line ≠ [] ∧ 0x0A ∉ line.dropLast

theorem lines_ne_nil {bytes : Bytes} (h : bytes ≠ []) : lines bytes ≠ [] := by
  intro hnil
  have hflatten := flatten_lines bytes
  rw [hnil] at hflatten
  exact h hflatten.symm

theorem lines_append {a : Bytes} (ha : EndsLine a) (b : Bytes) :
    lines (a ++ b) = lines a ++ lines b := by
  induction a with
  | nil => rfl
  | cons x a ih =>
    rw [List.cons_append, lines, lines]
    by_cases hx : x = 0x0A
    · -- The line that `x` ends is empty, and what follows it still ends with a line.
      have hrest : EndsLine a := by
        rcases List.eq_nil_or_concat a with rfl | ⟨front, y, rfl⟩
        · exact .inl rfl
        · refine .inr ?_
          rcases ha with hnil | hlast
          · cases hnil
          · rw [List.concat_eq_append, ← List.cons_append, List.getLast?_concat] at hlast
            rw [List.concat_eq_append, List.getLast?_concat, hlast]
      rw [if_pos hx, if_pos hx, ih hrest, List.cons_append]
    · -- The line that `x` starts ends within `a`.
      have hne : a ≠ [] := by
        rintro rfl
        rcases ha with hnil | hlast
        · cases hnil
        · exact hx (Option.some.inj hlast)
      have hrest : EndsLine a := by
        refine .inr ?_
        rcases ha with hnil | hlast
        · cases hnil
        · rwa [List.getLast?_cons_of_ne_nil hne] at hlast
      rw [if_neg hx, if_neg hx, ih hrest]
      cases hlines : lines a with
      | nil => exact absurd hlines (lines_ne_nil hne)
      | cons line more => rfl

theorem lines_of_isLine {line : Bytes} (h : IsLine line) : lines line = [line] := by
  obtain ⟨hne, hfree⟩ := h
  induction line with
  | nil => exact absurd rfl hne
  | cons x line ih =>
    cases line with
    | nil => by_cases hx : x = 0x0A <;> simp [lines, hx]
    | cons y rest =>
      rw [List.dropLast_cons_cons, List.mem_cons, not_or] at hfree
      rw [lines, if_neg fun hx => hfree.1 hx.symm, ih (List.cons_ne_nil _ _) hfree.2]

/-! ## Section 3: What a line says -/

/-- The line is an import line whose annotation declares `d`; `bare` tells
    whether its origin is a bare shorthand. -/
def Annotates (ctx : Context) (line : Bytes) (d : Dependency) (bare : Bool) : Prop :=
  ∃ t module comment, lineText? line = some t ∧
    ImportLine.ofText? t = some ⟨module, some comment⟩ ∧
    Annotation.dependency ctx.place module comment = .ok (d, bare)

/-- The line imports the companion library and has no annotation. -/
def ImportsCompanion (line : Bytes) : Prop :=
  ∃ t, lineText? line = some t ∧ ImportLine.ofText? t = some ⟨companionModule, none⟩

/-- The line calls for a notice. -/
def CallsFor (ctx : Context) (line : Bytes) : Log.Event → Prop
  | .entryAttribute => ∃ t, lineText? line = some t ∧ marksEntry t = true
  | .bareShorthand => ∃ d, Annotates ctx line d true
  | _ => False

/-- What a line of text is read as, in all cases. -/
theorem readLine_eq {ctx : Context} {line : Bytes} {t : Text} (ht : lineText? line = some t) :
    readLine ctx line =
      ((LineReading.ofLine ctx.place ctx.toolVersion t).1.dependency?,
        (if marksEntry t then [.entryAttribute] else []) ++
          (LineReading.ofLine ctx.place ctx.toolVersion t).2) := by
  rw [readLine, ht]

/-- A line that is no text says nothing. -/
theorem readLine_of_not_text {ctx : Context} {line : Bytes} (h : lineText? line = none) :
    readLine ctx line = (none, []) := by
  rw [readLine, h]

theorem annotates_iff (ctx : Context) {line : Bytes} {t module comment : Text}
    (ht : lineText? line = some t)
    (himport : ImportLine.ofText? t = some ⟨module, some comment⟩) (d : Dependency) (bare : Bool) :
    Annotates ctx line d bare ↔
      Annotation.dependency ctx.place module comment = .ok (d, bare) := by
  constructor
  · rintro ⟨t', module', comment', ht', himport', hdependency⟩
    cases ht.symm.trans ht'
    cases himport.symm.trans himport'
    exact hdependency
  · exact fun hdependency => ⟨t, module, comment, ht, himport, hdependency⟩

/-- An import line without a comment has no annotation, and neither has any
    other line. -/
theorem not_annotates (ctx : Context) {line : Bytes} {t : Text} (ht : lineText? line = some t)
    (hnone : (ImportLine.ofText? t).bind (·.comment) = none) (d : Dependency) (bare : Bool) :
    ¬ Annotates ctx line d bare := by
  rintro ⟨t', module, comment, ht', himport, _⟩
  cases ht.symm.trans ht'
  rw [himport] at hnone
  cases hnone

/-- A line declares a dependency by its annotation, or by the companion's
    name alone. -/
theorem readLine_eq_some_iff {ctx : Context} {line : Bytes} {d : Dependency} :
    (readLine ctx line).1 = some d ↔
      (∃ bare, Annotates ctx line d bare) ∨
        ImportsCompanion line ∧ d = .companion (.exactly ctx.toolVersion) := by
  cases ht : lineText? line with
  | none => simp [readLine_of_not_text ht, Annotates, ImportsCompanion, ht]
  | some t =>
    rw [readLine_eq ht]
    unfold LineReading.ofLine
    -- No import at all, one without a comment, or one that may be annotated.
    split
    · next himport =>
      have hnone := not_annotates ctx ht (by rw [himport]; rfl)
      simp [LineReading.dependency?, ImportsCompanion, ht, himport, hnone]
    · next module himport =>
      have hnone := not_annotates ctx ht (by rw [himport]; rfl)
      by_cases hmodule : module = companionModule
      · subst hmodule
        simp [LineReading.dependency?, ImportsCompanion, ht, himport, hnone, eq_comm]
      · simp [LineReading.dependency?, ImportsCompanion, ht, himport, hnone, hmodule]
    · next module comment himport =>
      have hiff := annotates_iff ctx ht himport
      cases hdependency : Annotation.dependency ctx.place module comment with
      | ok found =>
        obtain ⟨d', bare⟩ := found
        simp [LineReading.dependency?, ImportsCompanion, ht, himport, hiff, hdependency]
      | error why =>
        cases why <;>
          simp [LineReading.dependency?, ImportsCompanion, ht, himport, hiff, hdependency]

theorem mem_readLine_iff {ctx : Context} {line : Bytes} {e : Log.Event} (he : e.isNotice = true) :
    e ∈ (readLine ctx line).2 ↔ CallsFor ctx line e := by
  cases ht : lineText? line with
  | none => cases e <;> simp [readLine_of_not_text ht, CallsFor, Annotates, ht]
  | some t =>
    rw [readLine_eq ht]
    -- Of the events of a reading only one is a notice.
    have hevents : ∀ e : Log.Event, e.isNotice = true →
        (e ∈ (LineReading.ofLine ctx.place ctx.toolVersion t).2 ↔
          e = .bareShorthand ∧ ∃ d, Annotates ctx line d true) := by
      intro e he
      unfold LineReading.ofLine
      split
      · next himport => simp [not_annotates ctx ht (by rw [himport]; rfl)]
      · next module himport =>
        split <;> simp [not_annotates ctx ht (by rw [himport]; rfl)]
      · next module comment himport =>
        have hiff := annotates_iff ctx ht himport
        cases hdependency : Annotation.dependency ctx.place module comment with
        | ok found =>
          obtain ⟨d, bare⟩ := found
          cases bare <;> simp [hiff, hdependency]
        | error why => cases why <;> cases e <;> simp_all [Log.Event.isNotice]
    rw [List.mem_append, hevents e he]
    cases e with
    | bareShorthand => simp [CallsFor]
    | entryAttribute => simp [CallsFor, ht]
    | _ => cases he

/-! ## Section 4: Reading on from notices -/

/-- A scan that is under way. -/
structure Progress where
  dependencies : List Dependency
  /-- The notices that have been given. -/
  given        : Log.Given
  /-- What has been logged, line by line. -/
  logged       : List (List Log.Event)

/-- Reads one more line: a notice that has been given is not logged again. -/
def Progress.next (ctx : Context) (p : Progress) (line : Bytes) : Progress :=
  ⟨p.dependencies ++ (readLine ctx line).1.toList, (p.given.limit (readLine ctx line).2).1,
    p.logged ++ [(p.given.limit (readLine ctx line).2).2]⟩

/-- Reads lines, with the notices in `given` already raised. -/
def readOn (ctx : Context) (given : Log.Given) (ls : List Bytes) : Progress :=
  ls.foldl (Progress.next ctx) ⟨[], given, []⟩

variable {ctx : Context} {given : Log.Given} {ls : List Bytes} {e : Log.Event}

theorem readOn_concat (ctx : Context) (given : Log.Given) (ls : List Bytes) (line : Bytes) :
    readOn ctx given (ls ++ [line]) = (readOn ctx given ls).next ctx line :=
  List.foldl_append ..

/-- The dependencies are those of the lines, whatever notices were raised. -/
theorem dependencies_readOn (ctx : Context) (given : Log.Given) (ls : List Bytes) :
    (readOn ctx given ls).dependencies = ls.filterMap fun line => (readLine ctx line).1 := by
  induction ls using List.reverseRecOn with
  | nil => rfl
  | append_singleton ls line ih =>
    rw [readOn_concat, Progress.next, ih, List.filterMap_append]
    cases h : (readLine ctx line).1 <;> simp [h]

/-- To limit the events line by line is to limit them all at once. -/
theorem limit_readOn (ctx : Context) (given : Log.Given) (ls : List Bytes) :
    given.limit (ls.flatMap fun line => (readLine ctx line).2) =
      ((readOn ctx given ls).given, (readOn ctx given ls).logged.flatten) := by
  induction ls using List.reverseRecOn with
  | nil => rfl
  | append_singleton ls line ih =>
    rw [readOn_concat, Progress.next, List.flatMap_append, Log.Given.limit_append, ih]
    simp

theorem length_logged (ctx : Context) (given : Log.Given) (ls : List Bytes) :
    (readOn ctx given ls).logged.length = ls.length := by
  induction ls using List.reverseRecOn with
  | nil => rfl
  | append_singleton ls line ih => rw [readOn_concat, Progress.next]; simp [ih]

/-- What was logged at a line is not touched by later lines. -/
theorem logged_append (ctx : Context) (given : Log.Given) (ls more : List Bytes) :
    (readOn ctx given ls).logged <+: (readOn ctx given (ls ++ more)).logged := by
  induction more using List.reverseRecOn with
  | nil => exact (List.append_nil ls).symm ▸ List.prefix_refl _
  | append_singleton more line ih =>
    rw [← List.append_assoc, readOn_concat]
    exact ih.trans (List.prefix_append _ _)

theorem blocks_readOn (ctx : Context) (given : Log.Given) (ls : List Bytes)
    (he : e.isNotice = true) :
    (readOn ctx given ls).given.blocks e = true ↔
      given.blocks e = true ∨ ∃ line ∈ ls, CallsFor ctx line e := by
  have hgiven := Log.Given.blocks_limit given he (ls.flatMap fun line => (readLine ctx line).2)
  rw [limit_readOn] at hgiven
  rw [hgiven, Bool.or_eq_true, List.contains_iff_mem]
  simp only [List.mem_flatMap, mem_readLine_iff he]

theorem logged_getElem {i : Nat} (hi : i < ls.length) :
    (readOn ctx given ls).logged[i]? =
      some ((readOn ctx given (ls.take i)).given.limit (readLine ctx ls[i]).2).2 := by
  obtain ⟨tail, htail⟩ := logged_append ctx given (ls.take (i + 1)) (ls.drop (i + 1))
  have hlength := length_logged ctx given (ls.take i)
  rw [List.length_take_of_le (Nat.le_of_lt hi)] at hlength
  rw [List.take_append_drop, List.take_succ_eq_append_getElem hi, readOn_concat,
    Progress.next] at htail
  rw [← htail, List.getElem?_append_left (by simp [hlength]),
    List.getElem?_append_right (Nat.le_of_eq hlength), hlength]
  simp

/-- A notice is logged at the first line that calls for it. -/
theorem mem_logged_iff (he : e.isNotice = true) {i : Nat} (hi : i < ls.length) :
    (∃ es, (readOn ctx given ls).logged[i]? = some es ∧ e ∈ es) ↔
      CallsFor ctx ls[i] e ∧ given.blocks e = false ∧
        ∀ line ∈ ls.take i, ¬ CallsFor ctx line e := by
  have hblocks := blocks_readOn ctx given (ls.take i) he
  rw [logged_getElem hi]
  simp only [Option.some.injEq, exists_eq_left', Log.Given.mem_limit_iff _ he,
    mem_readLine_iff he]
  rw [← Bool.not_eq_true, hblocks, not_or, Bool.not_eq_true]
  simp only [not_exists, not_and]

/-! ## Section 5: Whole scans -/

/-- What a scan logs that starts without any notice given. -/
def logs (ctx : Context) (content : Bytes) : List Log.Event :=
  (readOn ctx {} (lines content)).logged.flatten

theorem dependencies_scan (ctx : Context) (given : Log.Given) (content : Bytes) :
    (readOn ctx given (lines content)).dependencies = (scan ctx content).dependencies := by
  rw [dependencies_readOn, scan, List.filterMap_map]
  rfl

theorem limit_scan (ctx : Context) (content : Bytes) :
    (({} : Log.Given).limit (scan ctx content).events).2 = logs ctx content := by
  rw [scan, List.flatMap_map]
  exact congrArg Prod.snd (limit_readOn ctx {} (lines content))

theorem scan_append {a : Bytes} (ha : EndsLine a) (ctx : Context) (b : Bytes) :
    (scan ctx (a ++ b)).dependencies = (scan ctx a).dependencies ++ (scan ctx b).dependencies ∧
      (scan ctx (a ++ b)).events = (scan ctx a).events ++ (scan ctx b).events := by
  simp only [scan, lines_append ha, List.map_append, List.filterMap_append, List.flatMap_append,
    and_self]

theorem scan_line {line : Bytes} (hline : IsLine line) (ctx : Context) :
    (scan ctx line).dependencies = (readLine ctx line).1.toList ∧
      (scan ctx line).events = (readLine ctx line).2 := by
  simp only [scan, lines_of_isLine hline]
  cases h : (readLine ctx line).1 <;> simp [h]

end Script

/-- What the lines of a source are read against. -/
def Script.Source.context (source : Script.Source) (homes : Homes) : Script.Context :=
  ⟨⟨source.folder, homes.home?, homes.homeOf?⟩, toolVersion⟩

namespace Prepare

variable {homes : Homes} {o : Options} {s : Store} {source : Script.Source} {h : Host}
  {m m₁ m' : Machine} {content : Bytes}

/-- A scan for a run logs what its lines call for, each notice once. -/
theorem run_scan_eq (homes : Homes) (hread : source.read.run h m = (.ok content, m₁)) :
    (scan homes source).run h m =
      (.ok (Script.scan (source.context homes) content, content),
        { m₁ with seen := m₁.seen ++ (Script.logs (source.context homes) content).map .logged }) := by
  have hlogged := Script.limit_scan (source.context homes) content
  unfold scan
  rw [Action.run_bind_ok hread]
  dsimp only
  rw [Action.run_bind_ok (Action.run_logAll_eq _ h m₁), ← hlogged]
  rfl

/-- The content is kept exactly where the script cannot be read again. -/
theorem stdin_prepare {scanned : Script.Scan} {p : Prepared}
    (hscan : (scan homes source).run h m = (.ok (scanned, content), m₁))
    (hrun : (prepare homes o s source).run h m = (.ok p, m')) :
    p.stdin = if source.isReplayable then none else some content := by
  cases hidle : scanned.dependencies.isEmpty && o.skipPackage with
  | true =>
    unfold prepare at hrun
    rw [Action.run_bind_ok hscan] at hrun
    dsimp only at hrun
    rw [if_pos hidle, Action.run_bind_ok (Action.run_ask _ h m₁)] at hrun
    cases hrun
    rfl
  | false =>
    rcases hrecord : (record o s (manifestFor o scanned.dependencies)).run h m₁ with ⟨f | r, m₂⟩
    · rw [run_prepare_error hscan hidle hrecord] at hrun
      cases hrun
    · obtain ⟨m₃, hprepare, _⟩ := run_prepare_ok hscan hidle hrecord
      cases hprepare.symm.trans hrun
      rfl

end Prepare
namespace Script

/-! ## Section 6: The law of scanning -/

/-- A line that declares nothing can be taken out of a script. -/
theorem scan_without_line {ctx : Context} {a line b : Bytes} (ha : EndsLine a)
    (hline : IsLine line) (hend : EndsLine line ∨ b = [])
    (hnone : ∀ d bare, ¬ Annotates ctx line d bare) (hcompanion : ¬ ImportsCompanion line) :
    (scan ctx (a ++ (line ++ b))).dependencies = (scan ctx (a ++ b)).dependencies ∧
      (scan ctx (a ++ (line ++ b))).events =
        (scan ctx a).events ++ (readLine ctx line).2 ++ (scan ctx b).events := by
  have hread : (readLine ctx line).1 = none := by
    cases h : (readLine ctx line).1 with
    | none => rfl
    | some d =>
      rcases readLine_eq_some_iff.1 h with ⟨bare, hannotates⟩ | ⟨himports, _⟩
      · exact absurd hannotates (hnone d bare)
      · exact absurd himports hcompanion
  have hsplit : (scan ctx (line ++ b)).dependencies =
        (scan ctx line).dependencies ++ (scan ctx b).dependencies ∧
      (scan ctx (line ++ b)).events = (scan ctx line).events ++ (scan ctx b).events := by
    rcases hend with hend | rfl
    · exact scan_append hend ctx b
    · rw [List.append_nil]
      exact ⟨(List.append_nil _).symm, (List.append_nil _).symm⟩
  obtain ⟨hdependencies, hevents⟩ := scan_line hline ctx
  rw [(scan_append ha ctx _).1, (scan_append ha ctx _).1, (scan_append ha ctx _).2, hsplit.1,
    hsplit.2, hdependencies, hevents, hread, List.append_assoc]
  exact ⟨rfl, rfl⟩

/-- A scan falls into the scans of its parts, keeps the content and digests
    it; a line without a valid annotation that is no bare import of the
    companion counts for nothing; the dependencies are the same whatever
    notices were raised before; and each notice is logged at the first line
    that calls for it, and only there. -/
theorem scan_line_by_line {a : Bytes} (ha : EndsLine a) (b : Bytes) (ctx : Context) :
    (scan ctx (a ++ b)).dependencies = (scan ctx a).dependencies ++ (scan ctx b).dependencies ∧
    (scan ctx (a ++ b)).hash = sha256Hex (a ++ b) ∧
    (∀ line, IsLine line → EndsLine line ∨ b = [] →
      (∀ d bare, ¬ Annotates ctx line d bare) → ¬ ImportsCompanion line →
      (scan ctx (a ++ (line ++ b))).dependencies = (scan ctx (a ++ b)).dependencies ∧
        (scan ctx (a ++ (line ++ b))).events =
          (scan ctx a).events ++ (readLine ctx line).2 ++ (scan ctx b).events) ∧
    (∀ given, (readOn ctx given (lines (a ++ b))).dependencies =
      (scan ctx (a ++ b)).dependencies) ∧
    (∀ e, e.isNotice = true → (logs ctx (a ++ b)).count e ≤ 1 ∧
      ∀ i (hi : i < (lines (a ++ b)).length),
        (∃ es, (readOn ctx {} (lines (a ++ b))).logged[i]? = some es ∧ e ∈ es) ↔
          CallsFor ctx (lines (a ++ b))[i] e ∧
            ∀ line ∈ (lines (a ++ b)).take i, ¬ CallsFor ctx line e) ∧
    ∀ homes source h m m₁, ctx = source.context homes →
      source.read.run h m = (.ok (a ++ b), m₁) →
      (Prepare.scan homes source).run h m =
        (.ok (scan ctx (a ++ b), a ++ b),
          { m₁ with seen := m₁.seen ++ (logs ctx (a ++ b)).map .logged }) ∧
      ∀ o s p m', (prepare homes o s source).run h m = (.ok p, m') →
        p.stdin = if source.isReplayable then none else some (a ++ b) := by
  refine ⟨(scan_append ha ctx b).1, rfl,
    fun line hline hend hnone hcompanion => scan_without_line ha hline hend hnone hcompanion,
    fun given => dependencies_scan ctx given _, fun e he => ⟨?_, fun i hi => ?_⟩, ?_⟩
  · rw [← limit_scan]
    exact Log.Given.count_limit_le _ he _
  · have hfresh : ({} : Log.Given).blocks e = false := by cases e <;> rfl
    rw [mem_logged_iff he hi]
    exact and_congr_right fun _ => ⟨fun h => h.2, fun h => ⟨hfresh, h⟩⟩
  · rintro homes source h m m₁ rfl hread
    have hscan := Prepare.run_scan_eq homes hread
    exact ⟨hscan, fun o s p m' hrun => Prepare.stdin_prepare hscan hrun⟩

/-- In a script of two lines that both call for a notice, the first one has
    it. -/
theorem scan_line_by_line_twice :
    let ctx : Context := ⟨⟨"/", none, fun _ => none⟩, toolVersion⟩
    let line := Utf8.encode "import A // b/c\n".toList
    EndsLine line ∧ CallsFor ctx line .bareShorthand ∧
      (scan ctx (line ++ line)).dependencies =
        (scan ctx line).dependencies ++ (scan ctx line).dependencies ∧
      (logs ctx (line ++ line)).count .bareShorthand ≤ 1 := by
  intro ctx line
  have ha : EndsLine line := .inr (by decide)
  have hcalls : CallsFor ctx line .bareShorthand :=
    (mem_readLine_iff rfl).1 (by decide +kernel)
  obtain ⟨hparts, _, _, _, hnotices, _⟩ := scan_line_by_line ha line ctx
  exact ⟨ha, hcalls, hparts, (hnotices .bareShorthand rfl).1⟩

/-- The bare import of the companion library has no annotation, and declares
    a dependency all the same. -/
theorem scan_counts_bare_companion :
    let ctx : Context := ⟨⟨"/", none, fun _ => none⟩, toolVersion⟩
    let line := Utf8.encode "import SwiftSH_Helpers\n".toList
    (∀ d bare, ¬ Annotates ctx line d bare) ∧
      (scan ctx line).dependencies = [.companion (.exactly toolVersion)] := by
  intro ctx line
  refine ⟨not_annotates _ (t := "import SwiftSH_Helpers".toList) ?_ ?_, ?_⟩
  · decide +kernel
  · decide +kernel
  · decide +kernel

end Script
end ScriptDeps
