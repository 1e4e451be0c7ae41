import ScriptDeps.Proofs.CommandLine.ScriptArguments

/-! # Commands that are named

    Options that go with every command can stand in front of the name of one.
    The normal form goes over them only as far as what they say themselves is
    text (`SaysText`): if all of it is, the command line stays as it is and the
    command named is the one that is read.  The first option that says other
    bytes is taken to be a script (`normal_of_other_bytes`), so `run` is read
    instead (`named_command_kept_iff`). -/

namespace ScriptDeps
namespace CommandLine

/-! ## Section 1: Model -/

/-- The word that names a command. -/
def Command.word : Command → Argument
  | .run _ _ _ => runWord
  | .build _ _ => CommandLine.word "build"
  | .clean _ _ _ => CommandLine.word "clean"
  | .settings _ => CommandLine.word "config"
  | .completions _ => CommandLine.word "completions"

variable {fallback : Option Path} {r r' : Reading} {gs : List (List Argument)} {a : Argument}

/-! ## Section 2: The command that is read -/

/-- The names down to a command begin with those down to the one above it. -/
theorem path_prefix_of_command? {l l' : Level} (h : l.command? a = some (.level l')) :
    l.path <+: l'.path := by
  have hbelow : ∀ m : Level, ∀ e ∈ m.below, ∀ l', e.2 = .level l' → m.path <+: l'.path := by
    intro m e he l' hl'
    cases m <;> simp only [Level.below, List.mem_cons, List.not_mem_nil, or_false] at he
    case top => exact List.nil_prefix
    case settings =>
      obtain rfl | rfl | rfl | rfl := he <;> cases hl' <;> exact List.prefix_append [_] [_]
  obtain ⟨front, back, hsplit, _⟩ := List.lookup_eq_some_iff.1 h
  exact hbelow l (a, .level l') (by simp [hsplit]) l' rfl

/-- At its end a reading has looked at all that it held. -/
theorem Reading.settle_of_finish {inner : Bool} (h : r.finish fallback inner = .ok r') :
    r.settle = .ok r' := by
  obtain ⟨r₁, hsettle, hrest⟩ := exists_of_bind_ok h
  rw [hsettle]
  repeat' split at hrest
  all_goals cases hrest
  all_goals rfl

/-- Reading a command ends at it or below it. -/
theorem exists_getLast_of_readFrom {ws : List Argument} {rs : List Reading}
    (h : readFrom fallback r ws = .ok rs) :
    ∃ last, rs.getLast? = some last ∧ r.level.path <+: last.level.path := by
  -- Only the name of a command changes the level, to one below.
  induction ws generalizing r rs with
  | nil =>
    obtain ⟨r₁, hfinish, hdone⟩ := exists_of_bind_ok h
    cases hdone
    exact ⟨r₁, rfl, Reading.level_settle (Reading.settle_of_finish hfinish) ▸ List.prefix_rfl⟩
  | cons a ws ih =>
    rw [readFrom] at h
    split at h
    · cases h
    · next l hnaming =>
      obtain ⟨inner, hinner, h⟩ := exists_of_bind_ok h
      obtain ⟨r₁, _, hdone⟩ := exists_of_bind_ok h
      cases hdone
      obtain ⟨last, hlast, hpath⟩ := ih hinner
      have hbelow : r.level.path <+: l.path := by
        apply path_prefix_of_command? (a := a)
        unfold Reading.naming? at hnaming
        split at hnaming
        · cases hnaming
        · exact hnaming
      refine ⟨last, ?_, hbelow.trans hpath⟩
      rw [List.getLast?_cons, hlast]
      rfl
    · obtain ⟨r₁, htake, h⟩ := exists_of_bind_ok h
      obtain ⟨last, hlast, hpath⟩ := ih h
      rw [Reading.level_take htake] at hpath
      exact ⟨last, hlast, hpath⟩

/-- A command goes by the first of the names down to it. -/
theorem Reading.word_of_command? {c : Command} (h : r.command? = some c) {name : Text}
    (hname : [name] <+: r.level.path) : c.word = Utf8.encode name := by
  have hfirst : ∃ first rest, r.level.path = first :: rest ∧ c.word = Utf8.encode first := by
    unfold command? at h
    split at h <;> rename_i hlevel <;> rw [hlevel]
    case h_1 => cases h
    case h_9 =>
      obtain ⟨s, _, rfl⟩ := Option.map_eq_some_iff.1 h
      exact ⟨_, _, rfl, rfl⟩
    all_goals
      cases h
      exact ⟨_, _, rfl, rfl⟩
  obtain ⟨first, rest, hpath, hword⟩ := hfirst
  obtain ⟨more, hmore⟩ := hname
  rw [hpath] at hmore
  obtain rfl := (List.cons.inj hmore).1
  exact hword

/-- The names of the commands of the program itself. -/
theorem command?_of_mem (h : a ∈ commandWords) :
    (a = word "help" ∧ Level.top.command? a = some .help) ∨
      ∃ l name, Level.top.command? a = some (.level l) ∧ l.path = [name] ∧
        a = Utf8.encode name := by
  simp only [commandWords, List.map_cons, List.map_nil, List.mem_cons, List.not_mem_nil,
    or_false] at h
  obtain rfl | rfl | rfl | rfl | rfl | rfl := h
  · exact .inr ⟨.run, _, rfl, rfl, rfl⟩
  · exact .inr ⟨.build, _, rfl, rfl, rfl⟩
  · exact .inr ⟨.clean, _, rfl, rfl, rfl⟩
  · exact .inr ⟨.settings, _, rfl, rfl, rfl⟩
  · exact .inr ⟨.completions, _, rfl, rfl, rfl⟩
  · exact .inl ⟨rfl, rfl⟩

/-- Help on commands is no order. -/
theorem readFrom_help_ne_ok (hgs : ∀ g ∈ gs, IsGlobalOption g) (ws : List Argument)
    (rs : List Reading) :
    readFrom fallback { level := .top } (gs.flatten ++ word "help" :: ws) ≠ .ok rs := by
  intro h
  rw [readFrom_global (ready_begin .top) hgs] at h
  obtain ⟨r, htake, h⟩ := exists_of_bind_ok h
  rcases (ready_begin .top).global_options hgs htake with hready | hdoomed
  · have hnaming : r.naming? (word "help") = some .help :=
      hready.naming? (Reading.level_takeAll htake) _
    rw [readFrom, hnaming] at h
    cases h
  · obtain ⟨e, _, hfault⟩ := readFrom_doomed hdoomed fallback (word "help")
    rw [hfault] at h
    cases h

/-- An order is for the command that is named after the options. -/
theorem word_of_read (program : Argument) (hgs : ∀ g ∈ gs, IsGlobalOption g)
    (ha : a ∈ commandWords) {ws : List Argument} {o : Order}
    (h : read fallback (program :: gs.flatten ++ a :: ws) = .ok o) : o.command.word = a := by
  rw [List.cons_append] at h
  obtain ⟨rs, hread, horder⟩ := exists_readings h
  obtain ⟨rfl, _⟩ | ⟨l, name, hnaming, hpath, rfl⟩ := command?_of_mem ha
  · exact absurd hread (readFrom_help_ne_ok hgs ws rs)
  obtain ⟨e, hfault⟩ | ⟨top, hlead⟩ := readFrom_lead hgs hnaming fallback
  · rw [hfault] at hread
    cases hread
  rw [hlead] at hread
  obtain ⟨inner, hinner, hread⟩ := exists_of_bind_ok hread
  obtain ⟨top', _, hdone⟩ := exists_of_bind_ok hread
  cases hdone
  obtain ⟨last, hlast, hbelow⟩ := exists_getLast_of_readFrom hinner
  rw [hpath] at hbelow
  obtain ⟨last', hlast', hcommand⟩ := exists_command? horder
  rw [List.getLast?_cons, hlast] at hlast'
  cases hlast'
  exact last.word_of_command? hcommand hbelow

/-! ## Section 3: Values that are not text -/

/-- The first option that says other bytes than text. -/
theorem exists_first_other (hgs : ¬ ∀ g ∈ gs, SaysText g) :
    ∃ front v back, gs = front ++ [word "--config=" ++ v] :: back ∧ (∀ g ∈ front, SaysText g) ∧
      (Utf8.decode v).isSome = false := by
  induction gs with
  | nil => exact absurd (fun g hg => absurd hg (List.not_mem_nil)) hgs
  | cons g gs ih =>
    by_cases hg : SaysText g
    · have hrest : ¬ ∀ g ∈ gs, SaysText g := fun hall => hgs (List.forall_mem_cons.2 ⟨hg, hall⟩)
      obtain ⟨front, v, back, rfl, hfront, hv⟩ := ih hrest
      exact ⟨g :: front, v, back, rfl, List.forall_mem_cons.2 ⟨hg, hfront⟩, hv⟩
    · obtain ⟨v, himp⟩ := Classical.not_forall.1 hg
      obtain ⟨rfl, hv⟩ := Classical.not_imp.1 himp
      refine ⟨[], v, gs, rfl, fun g hg => absurd hg List.not_mem_nil, ?_⟩
      exact Bool.eq_false_iff.2 hv

/-- An option that says other bytes than text counts as a script. -/
theorem startsRun_of_other_bytes {v : Argument} (hv : (Utf8.decode v).isSome = false) :
    StartsRun (word "--config=" ++ v) := by
  have hvalue : isSettingsWithValue (word "--config=" ++ v) = false :=
    (isSettingsWithValue_append v).trans hv
  have hne : ∀ b ∈ word "--verbose" :: settingsOption :: commandWords ++ infoOptions,
      (word "--config=").isPrefixOf b = false := by decide
  have hverbose : isVerbose (word "--config=" ++ v) = false := by
    unfold isVerbose
    rw [decide_eq_false (append_ne (hne _ (List.mem_cons_self ..)) _)]
    rfl
  have hsettings : word "--config=" ++ v ≠ settingsOption := append_ne (hne _ (by simp)) v
  refine ⟨splitOptions_of_other hsettings hvalue hverbose, ?_, ?_⟩
  · intro hmem
    exact append_ne (hne _ (by simp [hmem])) v rfl
  · intro hmem
    exact append_ne (hne _ (by simp [hmem])) v rfl

/-- The arguments after it are then marked as those of a script. -/
theorem markScript_of_other_bytes {v : Argument} (hv : (Utf8.decode v).isSome = false)
    {w : List Argument} (hw : w ≠ []) :
    markScript ((word "--config=" ++ v) :: w) = (word "--config=" ++ v) :: endOfOptions :: w := by
  obtain ⟨b, w, rfl⟩ := List.exists_cons_of_ne_nil hw
  have hne : ∀ b ∈ [endOfOptions, settingsOption, swiftOption],
      (word "--config=").isPrefixOf b = false := by decide
  have hend : word "--config=" ++ v ≠ endOfOptions := append_ne (hne _ (by simp)) v
  have hsettings : word "--config=" ++ v ≠ settingsOption := append_ne (hne _ (by simp)) v
  have hswift : word "--config=" ++ v ≠ swiftOption := append_ne (hne _ (by simp)) v
  have hlook : looksLikeOption (word "--config=" ++ v) = false := by
    unfold looksLikeOption
    rw [word, Utf8.decode_encode_append, Option.isSome_map, hv]
    rfl
  rw [markScript, if_neg hend, if_neg (by simp [hsettings, hswift]), if_neg (by simp [hlook])]

/-! ## Section 4: The normal form -/

/-- Where the options say text, the named command is left as it is. -/
theorem normal_of_text (program : Argument) (hgs : ∀ g ∈ gs, IsGlobalOption g)
    (htext : ∀ g ∈ gs, SaysText g) (ha : a ∈ commandWords) (hrun : a ≠ runWord)
    (rest : List Argument) :
    normal (program :: gs.flatten ++ a :: rest) = program :: gs.flatten ++ a :: rest := by
  have hstop : ∀ b ∈ commandWords, b ≠ settingsOption ∧
      Cut.after? (word "--config=") b = none ∧ isVerbose b = false := by decide
  obtain ⟨hsettings, hvalue, hverbose⟩ := hstop a ha
  have hsplit : splitOptions (a :: rest) = ([], a :: rest) :=
    splitOptions_of_other hsettings (isSettingsWithValue_of_none hvalue) hverbose rest
  rw [List.cons_append, normal, splitOptions_global hgs htext, hsplit]
  dsimp only
  rw [if_neg hrun, if_pos (by simp [ha])]

/-- The first option that says other bytes than text becomes the script. -/
theorem normal_of_other_bytes (program : Argument) {front back : List (List Argument)}
    {v : Argument} (hfront : ∀ g ∈ front, IsGlobalOption g) (htext : ∀ g ∈ front, SaysText g)
    (hv : (Utf8.decode v).isSome = false) {w : List Argument} (hw : w ≠ []) :
    normal (program :: (front ++ [word "--config=" ++ v] :: back).flatten ++ w) =
      program :: front.flatten ++
        runWord :: (word "--config=" ++ v) :: endOfOptions :: (back.flatten ++ w) := by
  have hsplit : program :: (front ++ [word "--config=" ++ v] :: back).flatten ++ w =
      program :: front.flatten ++ (word "--config=" ++ v) :: (back.flatten ++ w) := by simp
  have hafter : back.flatten ++ w ≠ [] := by simp [hw]
  rw [hsplit, normal_of_startsRun program hfront htext (startsRun_of_other_bytes hv),
    markScript_of_other_bytes hv hafter]

/-- Where some option says other bytes, `run` is put in after options in front
    of it. -/
theorem exists_normal_of_not_text (program : Argument) (hgs : ∀ g ∈ gs, IsGlobalOption g)
    (hsome : ¬ ∀ g ∈ gs, SaysText g) {w : List Argument} (hw : w ≠ []) :
    ∃ (front : List (List Argument)) (words : List Argument), (∀ g ∈ front, IsGlobalOption g) ∧
      (program :: gs.flatten ++ w).length <
        (program :: front.flatten ++ runWord :: words).length ∧
      normal (program :: gs.flatten ++ w) = program :: front.flatten ++ runWord :: words := by
  obtain ⟨front, v, back, rfl, htext, hv⟩ := exists_first_other hsome
  have hfront : ∀ g ∈ front, IsGlobalOption g := fun g hg => hgs g (List.mem_append_left _ hg)
  refine ⟨front, _, hfront, ?_, normal_of_other_bytes program hfront htext hv hw⟩
  simp only [List.flatten_append, List.flatten_cons, List.length_append, List.length_cons,
    List.length_nil]
  omega

/-- A command that is named after options is left as it is, and is the one that
    is read, exactly if all that the options say themselves is text; otherwise
    `run` is put in and read. -/
theorem named_command_kept_iff (program : Argument) (hgs : ∀ g ∈ gs, IsGlobalOption g)
    (ha : a ∈ commandWords) (hrun : a ≠ runWord) (rest : List Argument) :
    (normal (program :: gs.flatten ++ a :: rest) = program :: gs.flatten ++ a :: rest ↔
      ∀ g ∈ gs, SaysText g) ∧
    ((∀ g ∈ gs, SaysText g) → ∀ fallback o,
      readNormal fallback (program :: gs.flatten ++ a :: rest) = .ok o → o.command.word = a) ∧
    ((¬ ∀ g ∈ gs, SaysText g) → ∀ fallback o,
      readNormal fallback (program :: gs.flatten ++ a :: rest) = .ok o →
        o.command.word = runWord) := by
  refine ⟨⟨fun hkept => ?_, fun htext => normal_of_text program hgs htext ha hrun rest⟩,
    fun htext fallback o hread => ?_, fun hsome fallback o hread => ?_⟩
  · -- With `run` put in, the command line has grown.
    refine Classical.byContradiction fun hsome => ?_
    obtain ⟨front, words, _, hlength, hnormal⟩ :=
      exists_normal_of_not_text program hgs hsome (List.cons_ne_nil a rest)
    rw [← hnormal, hkept] at hlength
    exact Nat.lt_irrefl _ hlength
  · rw [readNormal, normal_of_text program hgs htext ha hrun rest] at hread
    exact word_of_read program hgs ha hread
  · obtain ⟨front, words, hfront, _, hnormal⟩ :=
      exists_normal_of_not_text program hgs hsome (List.cons_ne_nil a rest)
    rw [readNormal, hnormal] at hread
    exact word_of_read program hfront (by decide) hread

/-- A value in the next word can be any bytes, and then any words follow. -/
theorem named_command_kept_iff_clean :
    normal (word "swift-sh" :: [[word "-vv"], [settingsOption, [0xFF]]].flatten ++
        word "clean" :: [word "run", word "--dry-run"]) =
      [word "swift-sh", word "-vv", settingsOption, [0xFF], word "clean", word "run",
        word "--dry-run"] ∧
    (readNormal none [word "swift-sh", word "-vv", settingsOption, [0xFF], word "clean",
      word "run", word "--dry-run"]).toOption.map (·.command.word) = some (word "clean") := by
  have hgs : ∀ g ∈ [[word "-vv"], [settingsOption, [0xFF]]], IsGlobalOption g := by
    intro g hg
    obtain rfl | rfl : g = [word "-vv"] ∨ g = [settingsOption, [0xFF]] := by simpa using hg
    · exact .verbose (by decide)
    · exact .settings _
  have htext : ∀ g ∈ [[word "-vv"], [settingsOption, [0xFF]]], SaysText g := by
    intro g hg v hv
    obtain rfl | rfl : g = [word "-vv"] ∨ g = [settingsOption, [0xFF]] := by simpa using hg
    · cases hv
    · cases hv
  obtain ⟨hkept, hread, _⟩ := named_command_kept_iff (word "swift-sh") hgs
    (a := word "clean") (by decide) (by decide) [word "run", word "--dry-run"]
  refine ⟨hkept.2 htext, ?_⟩
  cases hresult : readNormal none [word "swift-sh", word "-vv", settingsOption, [0xFF],
      word "clean", word "run", word "--dry-run"] with
  | error e =>
    have hok : (readNormal none [word "swift-sh", word "-vv", settingsOption, [0xFF],
      word "clean", word "run", word "--dry-run"]).toOption.isSome = true := by decide +kernel
    rw [hresult] at hok
    cases hok
  | ok o => exact congrArg some (hread htext none o hresult)

/-- In the same word, bytes that are not text make a script of the option, so
    that `run` is read where `clean` is named. -/
theorem named_command_lost :
    normal [word "swift-sh", word "--config=" ++ [0xFF], word "clean"] =
      [word "swift-sh", runWord, word "--config=" ++ [0xFF], endOfOptions, word "clean"] ∧
    (readNormal none [word "swift-sh", word "--config=" ++ [0xFF], word "clean"]).toOption =
      some ⟨0, some ⟨[0xFF]⟩, .run {} "clean".toList []⟩ := by
  decide +kernel

end CommandLine
end ScriptDeps
