import ScriptDeps.Proofs.Capture.Order
import ScriptDeps.Proofs.FileSystem.Entry
import ScriptDeps.Proofs.Text.Words

/-! # The arguments that a line shows

    A line shows what follows its last marker, if something precedes it
    (`Shows`); the arguments are the words of that.  Spaces alone have no
    words, but they are something that follows: such a line shows an empty list
    of arguments (`ShowsBlank`), and a resolution that reads no better line
    after it succeeds with nothing (`arguments_follow_last_marker`). -/

namespace ScriptDeps

/-! ## Section 1: Lines -/

namespace Interactive

/-- In `line`, `rest` follows the last marker, and something precedes it. -/
def Shows (line rest : Text) : Prop :=
  ∃ before, Cut.IsLast marker line before rest ∧ before ≠ []

/-- What a line shows is one space or more, and nothing else. -/
def ShowsBlank (line : Text) : Prop :=
  ∃ rest, Shows line rest ∧ rest ≠ [] ∧ ∀ c ∈ rest, c = ' '

variable {line rest : Text} {args : List Text}

/-- The arguments of a line are the words of what it shows. -/
theorem ofLine?_eq_some_iff : ofLine? line = some args ↔
    ∃ rest, Shows line rest ∧ rest ≠ [] ∧ Cut.HasWords (· = ' ') rest args := by
  constructor
  · intro h
    unfold ofLine? at h
    split at h
    · next before rest hsplit =>
      split at h
      · cases h
      · next hboth =>
        simp only [Bool.or_eq_true, List.isEmpty_iff, not_or] at hboth
        exact ⟨rest, ⟨before, Cut.splitAtLast?_eq_some_iff.1 hsplit, hboth.1⟩, hboth.2,
          Cut.words_eq_iff.1 (Option.some.inj h)⟩
    · cases h
  · rintro ⟨rest, ⟨before, hlast, hbefore⟩, hrest, hwords⟩
    unfold ofLine?
    rw [Cut.splitAtLast?_eq_some_iff.2 hlast]
    simp [hbefore, hrest, hwords.words_eq]

/-- A line has an empty list of arguments if it shows spaces alone. -/
theorem ofLine?_eq_some_nil_iff : ofLine? line = some [] ↔ ShowsBlank line := by
  rw [ofLine?_eq_some_iff]
  apply exists_congr
  intro rest
  rw [← Cut.words_eq_iff, Cut.words_eq_nil_iff]
  simp

/-- A line has arguments if it shows something that is no space. -/
theorem exists_arguments_iff : (∃ args, args ≠ [] ∧ ofLine? line = some args) ↔
    ∃ rest, Shows line rest ∧ ∃ c ∈ rest, c ≠ ' ' := by
  -- The words of a text are none exactly if it holds nothing but spaces.
  have hnone : ∀ rest : Text, Cut.words (· = ' ') rest ≠ [] ↔ ∃ c ∈ rest, c ≠ ' ' := by
    intro rest
    rw [Ne, Cut.words_eq_nil_iff]
    simp
  constructor
  · rintro ⟨args, hne, h⟩
    obtain ⟨rest, hshows, -, hwords⟩ := ofLine?_eq_some_iff.1 h
    refine ⟨rest, hshows, (hnone rest).1 ?_⟩
    rw [hwords.words_eq]
    exact hne
  · rintro ⟨rest, hshows, c, hc, hspace⟩
    refine ⟨Cut.words (· = ' ') rest, (hnone rest).2 ⟨c, hc, hspace⟩, ?_⟩
    apply ofLine?_eq_some_iff.2
    exact ⟨rest, hshows, List.ne_nil_of_mem hc, Cut.hasWords_words _ rest⟩

/-- Arguments that are written after a marker are read back. -/
theorem ofLine?_written {front : Text} (hfront : front ≠ []) (hne : args ≠ [])
    (hargs : ∀ a ∈ args, a ≠ [] ∧ ' ' ∉ a) (hmarker : ¬ marker <:+: Cut.join [' '] args) :
    ofLine? (front ++ marker ++ Cut.join [' '] args) = some args := by
  have hlast : Cut.IsLast marker (front ++ marker ++ Cut.join [' '] args) front
      (Cut.join [' '] args) := by
    have hcolon : ':' ∉ " repl ".toList := by decide
    exact (Cut.isLast_iff hcolon).2 hmarker
  have hwords : Cut.words (· = ' ') (Cut.join [' '] args) = args := by
    apply Cut.words_join (by simp)
    intro a ha
    obtain ⟨hnil, hspace⟩ := hargs a ha
    refine ⟨hnil, fun c hc => ?_⟩
    have hcs : c ≠ ' ' := fun heq => hspace (heq ▸ hc)
    simpa using hcs
  apply ofLine?_eq_some_iff.2
  refine ⟨_, ⟨front, hlast, hfront⟩, ?_, Cut.words_eq_iff.1 hwords⟩
  intro hnil
  rw [hnil] at hwords
  exact hne hwords.symm

end Interactive

/-! ## Section 2: Captures -/

namespace Capture

open Interactive

variable {es : List Event} {args : List Text}

/-- The arguments shown last are those of a line after which no line has any. -/
theorem lastShown_eq_some_iff {ts : List Text} : lastShown ts = some args ↔
    ∃ before line after, ts = before ++ line :: after ∧ ofLine? line = some args ∧
      ∀ t ∈ after, ofLine? t = none := by
  constructor
  · -- From the end on: the last line has arguments, or those of the lines before it count.
    intro h
    induction ts using List.reverseRecOn with
    | nil => cases h
    | append_singleton ts line ih =>
      cases hline : ofLine? line with
      | some shown =>
        have hshown : lastShown (ts ++ [line]) = some shown :=
          lastShown_eq_some hline (by simp)
        rw [h] at hshown
        exact ⟨ts, line, [], rfl, hline.trans hshown.symm, by simp⟩
      | none =>
        have hnone : lastShown [line] = none := lastShown_eq_none (by simpa using hline)
        rw [lastShown_append, hnone, Option.none_or] at h
        obtain ⟨before, shown, after, rfl, hshown, hafter⟩ := ih h
        refine ⟨before, shown, after ++ [line], by simp, hshown, ?_⟩
        intro t ht
        rcases List.mem_append.1 ht with ht | ht
        · exact hafter t ht
        · rw [List.mem_singleton.1 ht]
          exact hline
  · rintro ⟨before, line, after, rfl, hline, hafter⟩
    exact lastShown_eq_some hline hafter

/-- A capture has a result if no signal was passed on, the ending is a good one and
    arguments have been shown. -/
theorem result_eq_ok_iff (c : Capture) (program : Text) : (c.result program).1 = .ok args ↔
    c.forwarded = [] ∧ (c.ending.getD (.exited 0)).isTolerated = true ∧
      c.invocation = some args := by
  unfold result
  cases hforwarded : c.forwarded.getLast? with
  | some s =>
    have hne : c.forwarded ≠ [] := by
      intro hnil
      rw [hnil] at hforwarded
      cases hforwarded
    simp [hne]
  | none =>
    have hnil : c.forwarded = [] := List.getLast?_eq_none_iff.1 hforwarded
    cases hending : (c.ending.getD (.exited 0)).isTolerated with
    | false => simp [hending]
    | true => cases hshown : c.invocation <;> simp [hending, hnil]

/-- What a resolution has to see so that it reads the arguments. -/
theorem run_capture_eq_ok_iff (dir : Path) (o : Resolve.Options) (h : Host) (m : Machine) :
    ((Resolve.capture dir o).run h m).1 = .ok args ↔
      ∃ fs es, h.capture (Resolve.call dir o) m.files = .ok (fs, es) ∧ heard es = [] ∧
        ((run es).ending.getD (.exited 0)).isTolerated = true ∧
        lastShown (terminalTexts es) = some args := by
  have hcapture := Resolve.run_capture dir o h m
  cases hcall : h.capture (Resolve.call dir o) m.files with
  | error e =>
    rw [hcall] at hcapture
    simp [hcapture]
  | ok shown =>
    obtain ⟨fs, es⟩ := shown
    rw [hcall] at hcapture
    obtain ⟨m', -, hrun⟩ := hcapture
    rw [hrun, result_eq_ok_iff, forwarded_run, (reads_run es).1.invocation, List.map_eq_nil_iff]
    constructor
    · intro hresult
      exact ⟨fs, es, rfl, hresult⟩
    · rintro ⟨fs', es', heq, hresult⟩
      cases heq
      exact hresult

end Capture

/-! ## Section 3: Completed arguments -/

namespace Invocation

variable {args : List Text} {dir : Path}

/-- To prefer other include paths leaves as many arguments as before. -/
theorem gives_preferModulesAll (args : List Text) :
    (preferModulesAll args).Gives fun patched => patched.length = args.length := by
  fun_induction preferModulesAll args with
  | case1 => rfl
  | case2 path rest ih =>
    refine (Program.gives_of_forall (fun _ => trivial) _).bind fun path' _ => ?_
    refine ih.bind fun rest' hrest => ?_
    show rest'.length + 2 = rest.length + 2
    rw [hrest]
  | case3 path rest _ _ ih =>
    refine ih.bind fun rest' hrest => ?_
    show rest'.length + 1 = rest.length + 1
    rw [hrest]
  | case4 path rest _ _ ih =>
    refine (Program.gives_of_forall (fun _ => trivial) _).bind fun path' _ => ?_
    refine ih.bind fun rest' hrest => ?_
    show rest'.length + 1 = rest.length + 1
    rw [hrest]
  | case5 word rest _ _ ih =>
    refine ih.bind fun rest' hrest => ?_
    show rest'.length + 1 = rest.length + 1
    rw [hrest]

/-- Arguments are added to and none is taken away. -/
theorem gives_complete (args : List Text) (dir : Path) :
    (complete args dir).Gives fun completed => args.length ≤ completed.length := by
  refine (gives_preferModulesAll args).bind fun patched hpatched => ?_
  show ∀ artifacts checkouts, Program.Gives _ ((systemPaths checkouts).bind fun system =>
    .done (patched ++ (headerPaths artifacts).map includeArg ++ system.map includeArg))
  intro artifacts checkouts
  refine (Program.gives_of_forall (R := fun _ => True) (by simp) _).bind fun system _ => ?_
  show args.length ≤ (patched ++ _ ++ _).length
  rw [List.length_append, List.length_append, hpatched]
  omega

/-- Nothing lies below a name that is missing in the root. -/
theorem visits_of_missing {fs : FileSystem} {p : Path} {n n' : Name} (hp : p.Fits)
    (hsteps : p.steps = [.root, .name n, .name n']) (hn : n.length ≤ FileSystem.nameLimit)
    (hnone : fs.at? [n] = none) (cwd : Location) : fs.visits cwd p = [] := by
  have hfind : fs.findNode cwd false p = .error .noEntry := by
    rw [FileSystem.findNode, FileSystem.find_eq_walk hp, hsteps, FileSystem.walk,
      FileSystem.walk_name _ _ _ _ hn, List.nil_append, hnone]
    rfl
  rw [FileSystem.visits, hfind]

/-- To no arguments and no files, nothing is added. -/
theorem run_complete_empty (h : Host) {m : Machine} (hm : m.files = .empty) :
    ((complete [] "/").run h m).1 = [] := by
  have hfolders : ∀ n ∈ ["artifacts".toList, "checkouts".toList],
      ((Path.join "/" (Path.ofText ".build".toList)).join (Path.ofText n)).Fits ∧
        ((Path.join "/" (Path.ofText ".build".toList)).join (Path.ofText n)).steps =
          [.root, .name (Utf8.encode ".build".toList), .name (Utf8.encode n)] := by
    decide +kernel
  have hvisits : ∀ n ∈ ["artifacts".toList, "checkouts".toList],
      FileSystem.empty.visits h.cwd
        ((Path.join "/" (Path.ofText ".build".toList)).join (Path.ofText n)) = [] := by
    intro n hn
    obtain ⟨hfits, hsteps⟩ := hfolders n hn
    exact visits_of_missing hfits hsteps (by decide +kernel) rfl h.cwd
  have hpatched : (preferModulesAll []).run h m = ([], m) := rfl
  unfold complete
  simp only [Program.bind_eq, Program.run_bind, Program.request, Program.run_ask,
    Program.run_done, Machine.respond, hpatched, hm, hvisits "artifacts".toList (by simp),
    hvisits "checkouts".toList (by simp)]
  rw [headerPaths]
  rfl

end Invocation

namespace Resolve

variable {dir : Path} {o : Options} {h : Host} {m : Machine}

/-- A resolution ends with nothing only if nothing has been shown. -/
theorem capture_eq_nil_of_invocation (hrun : ((invocation dir o).run h m).1 = .ok []) :
    ((capture dir o).run h m).1 = .ok [] := by
  unfold invocation at hrun
  rcases hcapture : (capture dir o).run h m with ⟨x, m₁⟩
  cases x with
  | error f =>
    rw [Action.run_bind_error hcapture] at hrun
    cases hrun
  | ok shown =>
    obtain ⟨m₂, hlog, -⟩ := Action.run_logAll (Invocation.events shown) h m₁
    rw [Action.run_bind_ok hcapture, Action.run_bind_ok hlog, Action.run_lift] at hrun
    have hle := (Invocation.gives_complete shown dir).run h m₂
    rw [Except.ok.inj hrun] at hle
    simpa using hle

end Resolve

/-! ## Section 4: Results -/

namespace Capture

open Interactive

/-- A line shows arguments if its last marker comes after something and before something
    that is no space; the arguments are the words after the marker, and what is written
    so is read back.  But spaces alone are taken for an empty list of arguments, and a
    resolution can end with nothing for that reason only. -/
theorem arguments_follow_last_marker (line front : Text) (args : List Text) (dir : Path)
    (o : Resolve.Options) (h : Host) (m : Machine) :
    (ofLine? line = some args ↔
      ∃ rest, Shows line rest ∧ rest ≠ [] ∧ Cut.HasWords (· = ' ') rest args) ∧
    ((∃ args, args ≠ [] ∧ ofLine? line = some args) ↔
      ∃ rest, Shows line rest ∧ ∃ c ∈ rest, c ≠ ' ') ∧
    (ofLine? line = some [] ↔ ShowsBlank line) ∧
    (front ≠ [] → args ≠ [] → (∀ a ∈ args, a ≠ [] ∧ ' ' ∉ a) →
      ¬ marker <:+: Cut.join [' '] args →
      ofLine? (front ++ marker ++ Cut.join [' '] args) = some args) ∧
    (((Resolve.capture dir o).run h m).1 = .ok [] ↔
      ∃ fs es, h.capture (Resolve.call dir o) m.files = .ok (fs, es) ∧ heard es = [] ∧
        ((run es).ending.getD (.exited 0)).isTolerated = true ∧
        ∃ before line after, terminalTexts es = before ++ line :: after ∧ ShowsBlank line ∧
          ∀ t ∈ after, ofLine? t = none) ∧
    (((Resolve.invocation dir o).run h m).1 = .ok [] →
      ((Resolve.capture dir o).run h m).1 = .ok []) := by
  refine ⟨ofLine?_eq_some_iff, exists_arguments_iff, ofLine?_eq_some_nil_iff, ofLine?_written, ?_,
    Resolve.capture_eq_nil_of_invocation⟩
  rw [run_capture_eq_ok_iff]
  simp only [lastShown_eq_some_iff, ofLine?_eq_some_nil_iff]

/-- A toolchain that shows a marker and two spaces, and ends well. -/
def blankLine : List Event :=
  [.terminal (Utf8.encode "x: repl  \r\n".toList), .terminalEnd, .errorsEnd, .exited (.exited 0)]

theorem run_capture_blankLine :
    ((Resolve.capture "/" Prepare.smallOptions.resolve).run (Prepare.shownHost blankLine)
        ⟨.empty, []⟩).1 = .ok [] ∧
      ((Resolve.capture "/" Prepare.smallOptions.resolve).run (Prepare.shownHost blankLine)
        ⟨.empty, []⟩).2.files = .empty := by
  decide +kernel

theorem run_invocation_blankLine :
    ((Resolve.invocation "/" Prepare.smallOptions.resolve).run (Prepare.shownHost blankLine)
      ⟨.empty, []⟩).1 = .ok [] := by
  obtain ⟨hcapture, hfiles⟩ := run_capture_blankLine
  obtain ⟨m, hlog, hm⟩ := Action.run_logAll (Invocation.events []) (Prepare.shownHost blankLine)
    ((Resolve.capture "/" Prepare.smallOptions.resolve).run (Prepare.shownHost blankLine)
      ⟨.empty, []⟩).2
  rw [Resolve.invocation, Action.run_bind_ok (Prod.ext hcapture rfl), Action.run_bind_ok hlog,
    Action.run_lift, Invocation.run_complete_empty _ (hm.trans hfiles)]

theorem arguments_follow_last_marker_written :
    ofLine? "x: repl -I/a -lb".toList = some ["-I/a".toList, "-lb".toList] ∧
      ((Resolve.capture "/" Prepare.smallOptions.resolve).run (Prepare.shownHost blankLine)
        ⟨.empty, []⟩).1 = .ok [] := by
  obtain ⟨-, -, -, hwritten, -, hresult⟩ := arguments_follow_last_marker [] "x".toList
    ["-I/a".toList, "-lb".toList] "/" Prepare.smallOptions.resolve (Prepare.shownHost blankLine)
    ⟨.empty, []⟩
  refine ⟨hwritten (by decide) (by decide) ?_ (by decide), hresult run_invocation_blankLine⟩
  decide

/-- A line that has nothing but a space after its marker and the space of the marker is
    taken for one with arguments, and a resolution succeeds with none. -/
theorem blank_line_accepted :
    ¬ (∀ line, (∃ args, ofLine? line = some args) ↔
      ∃ rest, Shows line rest ∧ ∃ c ∈ rest, c ≠ ' ') ∧
    ((Resolve.invocation "/" Prepare.smallOptions.resolve).run (Prepare.shownHost blankLine)
      ⟨.empty, []⟩).1 = .ok [] := by
  refine ⟨fun hshown => ?_, run_invocation_blankLine⟩
  have hline : ofLine? "x: repl  ".toList = some [] := by decide
  obtain ⟨rest, hshows, c, hc, hspace⟩ := (hshown "x: repl  ".toList).1 ⟨[], hline⟩
  -- What follows the last marker would have a word.
  obtain ⟨args, hne, hargs⟩ := exists_arguments_iff.2 ⟨rest, hshows, c, hc, hspace⟩
  rw [hline] at hargs
  exact hne (Option.some.inj hargs).symm

end Capture
end ScriptDeps
