import ScriptDeps.Proofs.CommandLine.Recording
import ScriptDeps.Tool.Choices

/-! # Options and settings together

    A script is prepared as the options say that are given for it, and where
    they say nothing, as is set (`Follows`).  `build` follows all of its
    options.  `run` follows those up to the first that is not text, with that
    one, which it takes for the script (`choices_follow_options`). -/

namespace ScriptDeps

namespace CommandLine

open Reading

variable {fallback : Option Path} {r r' : Reading} {gs : List (List Argument)} {a : Argument}
  {w ws : List Argument} {o : Order} {c : Choice} {l : Level}

/-! ## Section 1: Orders that are none -/

theorem Reading.takeChoice_info_ne_ok (hc : c = .help ∨ c = .version) :
    r.takeChoice c ≠ .ok r' := by
  intro htake
  obtain ⟨r₁, _, hrest⟩ := exists_of_bind_ok htake
  obtain rfl | rfl := hc <;> cases hrest

/-- An option that asks for help or the version ends the reading. -/
theorem Reading.Ready.take_info_ne_ok (h : r.Ready) (htop : r.level = .top)
    (ha : a ∈ infoOptions) : r.take a ≠ .ok r' := by
  have hshort : ∀ ch c, c = .help ∨ c = .version → r.level.short? ch = some c →
      r.takeShort [ch] ≠ .ok r' := by
    intro ch c hc hname htake
    rw [Reading.takeShort, hname] at htake
    obtain ⟨r₁, hchoice, _⟩ := exists_of_bind_ok htake
    exact takeChoice_info_ne_ok hc hchoice
  have hlong : ∀ s c, c = .help ∨ c = .version →
      (Utf8.decode (word s)).bind Level.top.long? = some c →
      Cut.splitFirst (· = 0x3D) (word s) = none → r.takeLong (word s) ≠ .ok r' := by
    intro s c hc hname hsplit htake
    rw [← htop] at hname
    rw [takeLong_choice hsplit hname] at htake
    exact takeChoice_info_ne_ok hc htake
  obtain ⟨hhelp, hversion⟩ : Utf8.decodeLossy [0x68] = ['h'] ∧ Utf8.decodeLossy [0x56] = ['V'] := by
    decide +kernel
  -- There are four of these options, two short ones and two long ones.
  have hmem : a = [0x2D, 0x68] ∨ a = 0x2D :: 0x2D :: word "help" ∨ a = [0x2D, 0x56] ∨
      a = 0x2D :: 0x2D :: word "version" := by
    have hall : ∀ b ∈ infoOptions, b = [0x2D, 0x68] ∨ b = 0x2D :: 0x2D :: word "help" ∨
      b = [0x2D, 0x56] ∨ b = 0x2D :: 0x2D :: word "version" := by decide +kernel
    exact hall a ha
  intro htake
  obtain rfl | rfl | rfl | rfl := hmem
  · rw [take_short h.ended (by decide), hhelp] at htake
    exact hshort 'h' .help (.inl rfl) rfl htake
  · rw [take_long h.ended (by decide)] at htake
    exact hlong "help" .help (.inl rfl) (by decide +kernel) (by decide +kernel) htake
  · rw [take_short h.ended (by decide), hversion] at htake
    exact hshort 'V' .version (.inr rfl) rfl htake
  · rw [take_long h.ended (by decide)] at htake
    exact hlong "version" .version (.inr rfl) (by decide +kernel) (by decide +kernel) htake

theorem read_info_ne_ok (program : Argument) (hgs : ∀ g ∈ gs, IsGlobalOption g)
    (ha : a ∈ infoOptions) : read fallback (program :: gs.flatten ++ a :: w) ≠ .ok o := by
  intro h
  rw [List.cons_append] at h
  obtain ⟨rs, hread, _⟩ := exists_readings h
  rw [readFrom_global (ready_begin .top) hgs] at hread
  obtain ⟨r, htake, hread⟩ := exists_of_bind_ok hread
  rcases (ready_begin .top).global_options hgs htake with hready | hdoomed
  · have hdash : ∀ b ∈ infoOptions, b.head? = some 0x2D := by decide +kernel
    rw [readFrom_word (naming?_option (hdash a ha) r)] at hread
    obtain ⟨r₁, hfirst, _⟩ := exists_of_bind_ok hread
    exact hready.take_info_ne_ok (level_takeAll htake) ha hfirst
  · obtain ⟨e, _, hfault⟩ := readFrom_doomed hdoomed fallback a
    rw [hfault] at hread
    cases hread

theorem Reading.finish_top_ne_ok (htop : r.level = .top) : r.finish fallback false ≠ .ok r' := by
  intro hfinish
  obtain ⟨r₁, hsettle, hrest⟩ := exists_of_bind_ok hfinish
  have hlevel : r₁.level = .top := (level_settle hsettle).trans htop
  repeat' split at hrest
  all_goals cases hrest
  all_goals simp_all

/-- Options that go with every command are no order by themselves. -/
theorem read_options_ne_ok (program : Argument) (hgs : ∀ g ∈ gs, IsGlobalOption g) :
    read fallback (program :: gs.flatten) ≠ .ok o := by
  intro h
  obtain ⟨rs, hread, _⟩ := exists_readings h
  rw [← List.append_nil gs.flatten, readFrom_global (ready_begin .top) hgs] at hread
  obtain ⟨r, htake, hread⟩ := exists_of_bind_ok hread
  obtain ⟨r', hfinish, _⟩ := exists_of_bind_ok hread
  exact finish_top_ne_ok (level_takeAll htake) hfinish

/-! ## Section 2: What has been read -/

theorem names_global {g : List Argument} (hg : IsGlobalOption g) :
    Names g none ∧ swiftValue? g = none := by
  cases hg with
  | verbose h =>
    obtain rfl | ⟨n, rfl⟩ := exists_of_isVerbose h
    · exact names_long (t := "verbose".toList) (c := .verbose) (by decide +kernel)
    · exact names_short (by decide) _
  | settings v => exact ⟨names_pair _ v, rfl⟩
  | settingsWith v =>
    obtain ⟨hnames, hvalue⟩ := names_with .settings v
    exact ⟨hnames, Option.toList_eq_nil_iff.1 hvalue⟩

/-- Options that go with every command make none of the choices. -/
theorem records_begin (hgs : ∀ g ∈ gs, IsGlobalOption g) (l : Level) :
    ({ level := l } : Reading).Records gs := by
  have hnames := fun g hg => names_global (hgs g hg)
  constructor
  · intro k b
    have hnone : k.said gs = [] := by
      rw [Switch.said, List.filterMap_eq_nil_iff]
      intro g hg
      cases hvalue : k.value? g with
      | none => rfl
      | some b => cases ((hnames g hg).1.switch k b).1 hvalue
    rw [hnone]
    simp
  · have hnone : [sshOption] ∉ gs := by
      intro hg
      cases (hnames _ hg).1.ssh.1 rfl
    simp [hnone]
  · have hnone : swiftSaid gs = [] := List.filterMap_eq_nil_iff.2 fun g hg => (hnames g hg).2
    rw [hnone]
    rfl

/-- After the name of `run` or `build` all words are read by it. -/
theorem records_of_read (program : Argument) (hgs : ∀ g ∈ gs, IsGlobalOption g)
    (hl : l = .run ∨ l = .build) (ha : Level.top.command? a = some (.level l))
    (h : read fallback (program :: gs.flatten ++ a :: w) = .ok o) :
    ∃ r : Reading, r.level = l ∧ r.held = none ∧ r.Records (gs ++ optionsIn true w) ∧
      r.command? = some o.command := by
  rw [List.cons_append] at h
  obtain ⟨rs, hread, horder⟩ := exists_readings h
  obtain ⟨e, hfault⟩ | ⟨top, hlead⟩ := readFrom_lead hgs ha fallback
  · rw [hfault] at hread
    cases hread
  have hleaf : l.below = [] := by obtain rfl | rfl := hl <;> rfl
  rw [hlead, readFrom_leaf hleaf] at hread
  obtain ⟨inner, hinner, hread⟩ := exists_of_bind_ok hread
  obtain ⟨top', _, hdone⟩ := exists_of_bind_ok hread
  cases hdone
  obtain ⟨r, hlast, hdone⟩ := exists_of_bind_ok hinner
  cases hdone
  obtain ⟨r₀, htake, hfinish⟩ := exists_of_bind_ok hlast
  have hsettle := settle_of_finish hfinish
  have hlevel : r.level = l := (level_settle hsettle).trans (level_takeAll htake)
  have hopen : ({ level := l } : Reading).IsOpen := ⟨hl, rfl, nofun⟩
  have hrecords := (records_begin hgs l).takeAll hopen htake hsettle
  obtain ⟨last, hlast, hcommand⟩ := exists_command? horder
  cases hlast
  exact ⟨r, hlevel, (settle_spec hsettle).2.1, hrecords, hcommand⟩

/-- An accepted command line for `run` or `build` has been read with the options
    that are heeded of those given, and for `build` that is all of them. -/
theorem exists_records {program : Argument} (h : readNormal fallback (program :: ws) = .ok o) :
    (∃ r : Reading, r.held = none ∧ r.Records (heeded (given ws)) ∧
      o.command = .run r.preparation r.scriptText r.rest) ∨
    (∃ r : Reading, r.held = none ∧ r.Records (given ws) ∧
      o.command = .build r.preparation r.scriptText) ∨
    o.command.word ≠ runWord ∧ o.command.word ≠ buildWord := by
  rw [readNormal] at h
  cases normalForm program ws with
  | run hgs hnormal hgiven =>
    rw [hnormal] at h
    obtain ⟨r, hlevel, hheld, hrecords, hcommand⟩ := records_of_read program hgs (.inl rfl) rfl h
    rw [command?, hlevel] at hcommand
    exact .inl ⟨r, hheld, hgiven ▸ hrecords, (Option.some.inj hcommand).symm⟩
  | @named gs a w hgs ha hrun hnormal hgiven =>
    rw [hnormal] at h
    obtain ha | ha := ha
    · have hword := word_of_read program hgs ha h
      by_cases hbuild : a = buildWord
      · subst hbuild
        obtain ⟨r, hlevel, hheld, hrecords, hcommand⟩ :=
          records_of_read program hgs (.inr rfl) rfl h
        rw [command?, hlevel] at hcommand
        exact .inr (.inl ⟨r, hheld, hgiven rfl ▸ hrecords, (Option.some.inj hcommand).symm⟩)
      · rw [hword]
        exact .inr (.inr ⟨hrun, hbuild⟩)
    · exact absurd h (read_info_ne_ok program hgs ha)
  | @unfinished gs hgs hnormal =>
    -- The name of the command that was put in has become the missing value.
    have hall : ∀ g ∈ gs ++ [[settingsOption, runWord]], IsGlobalOption g := by
      intro g hg
      obtain hg | hg := List.mem_append.1 hg
      · exact hgs g hg
      · rw [List.mem_singleton.1 hg]
        exact .settings runWord
    have hwords : program :: gs.flatten ++ [settingsOption, runWord] =
        program :: (gs ++ [[settingsOption, runWord]]).flatten := by simp
    rw [hnormal, hwords] at h
    exact absurd h (read_options_ne_ok program hall)

end CommandLine

namespace Tool

open CommandLine

/-! ## Section 3: Options and settings -/

/-- What is set of a choice. -/
def setFor (s : Settings) : Switch → Bool
  | .skipPackage => s.skipPackage
  | .noSandbox => s.noSandbox
  | .release => s.release

/-- What a script is prepared with. -/
def usedFor (o : Prepare.Options) : Switch → Bool
  | .skipPackage => o.skipPackage
  | .noSandbox => o.noSandbox
  | .release => o.release

/-- Each choice is made by its own options, and by the settings where they say
    nothing. -/
structure Follows (o : Prepare.Options) (s : Settings) (gs : List (List Argument)) : Prop where
  /-- Of the options for a choice the last one counts. -/
  switch : ∀ k : Switch, usedFor o k = (k.said gs).getLast?.getD (setFor s k)
  /-- The path of the toolchain is given once at most. -/
  once : (swiftSaid gs).length ≤ 1
  swift : o.swift = ((swiftSaid gs).getLast?.map Path.mk).getD s.swift
  ssh : o.ssh = (decide ([sshOption] ∈ gs) || s.ssh)

variable {r : Reading} {gs : List (List Argument)}

theorem follows_of_records (h : r.Records gs) (hheld : r.held = none) (s : Settings)
    (marker : Bool) : Follows (prepareOptions r.preparation s marker) s gs := by
  obtain ⟨honce, hswift⟩ := h.swift_preparation hheld
  refine ⟨fun k => ?_, honce, ?_, ?_⟩
  · rw [← h.chosen?_preparation]
    cases k <;> rfl
  · rw [← hswift]
    rfl
  · rw [← h.ssh_preparation]
    rfl

/-- Whatever is set, a script is prepared as the options say that are given on an accepted
    command line, in any number and order: always for `build`, and for `run` if all of them are
    text.  Else `run` takes the first that is not for the script, and follows the options up to
    it. -/
theorem choices_follow_options {fallback : Option Path} {program : Argument} {ws : List Argument}
    {o : Order} (h : readNormal fallback (program :: ws) = .ok o) (s : Settings) (marker : Bool) :
    (∀ p script, o.command = .build p script →
      Follows (prepareOptions p s marker) s (given ws)) ∧
    (∀ p script args, o.command = .run p script args →
      ((∀ g ∈ given ws, IsText g) → Follows (prepareOptions p s marker) s (given ws)) ∧
      Follows (prepareOptions p s marker) s (heeded (given ws))) := by
  -- `run` records the options it heeds, `build` all of them, and other commands have none.
  obtain ⟨r, hheld, hrecords, hcommand⟩ | ⟨r, hheld, hrecords, hcommand⟩ | ⟨hrun, hbuild⟩ :=
    exists_records h
  · refine ⟨fun p script hbuild => ?_, fun p script args hrun => ?_⟩
    · rw [hcommand] at hbuild
      cases hbuild
    · rw [hcommand] at hrun
      cases hrun
      have hfollows := follows_of_records hrecords hheld s marker
      refine ⟨fun htext => ?_, hfollows⟩
      rwa [heeded_eq_self htext] at hfollows
  · refine ⟨fun p script hbuild => ?_, fun p script args hrun => ?_⟩
    · rw [hcommand] at hbuild
      cases hbuild
      exact follows_of_records hrecords hheld s marker
    · rw [hcommand] at hrun
      cases hrun
  · refine ⟨fun p script hcommand => ?_, fun p script args hcommand => ?_⟩
    · rw [hcommand] at hbuild
      exact absurd rfl hbuild
    · rw [hcommand] at hrun
      exact absurd rfl hrun

/-- Options for all choices, one of them made three times, and a path in a word of its own that
    is not text. -/
def mixedWords : List Argument :=
  [Switch.skipPackage.option false, swiftOption, [0xFF], Switch.skipPackage.option true,
    Switch.release.option false, word "-v", sshOption, Switch.skipPackage.option false,
    word "a.swift", Switch.noSandbox.option true]

/-- The last of them counts; what follows the script is an argument of the script. -/
theorem choices_follow_options_mixed :
    readNormal none (word "swift-sh" :: mixedWords) =
      .ok ⟨1, none, .run ⟨false, true, some false, none, some false, some ⟨[0xFF]⟩⟩
        "a.swift".toList ["--disable-sandbox-for-package-resolution".toList]⟩ ∧
    given mixedWords =
      [[Switch.skipPackage.option false], [swiftOption, [0xFF]], [Switch.skipPackage.option true],
        [Switch.release.option false], [word "-v"], [sshOption],
        [Switch.skipPackage.option false]] ∧
    Follows (prepareOptions ⟨false, true, some false, none, some false, some ⟨[0xFF]⟩⟩ {} true) {}
      (given mixedWords) := by
  have hread : readNormal none (word "swift-sh" :: mixedWords) =
      .ok ⟨1, none, .run ⟨false, true, some false, none, some false, some ⟨[0xFF]⟩⟩
        "a.swift".toList ["--disable-sandbox-for-package-resolution".toList]⟩ :=
    eq_ok_of_toOption (by decide +kernel)
  have htext : ∀ g ∈ given mixedWords, IsText g := by decide +kernel
  refine ⟨hread, by decide +kernel, ?_⟩
  exact ((choices_follow_options hread {} true).2 _ _ _ rfl).1 htext

/-- Words of which the first gives a path that is not text. -/
def hiddenWords : List Argument :=
  [word "--swift-path=" ++ [0xFF], Switch.skipPackage.option false, word "a.swift"]

/-- After such a word `run` takes the next option for the script, so that the option makes no
    choice, where it makes one for `build`. -/
theorem choice_hidden_by_path :
    readNormal none (word "swift-sh" :: hiddenWords) =
      .ok ⟨0, none, .run { swift := some ⟨[0xFF]⟩ }
        "--no-skip-package-on-no-remote-modules".toList ["a.swift".toList]⟩ ∧
    ¬ Follows (prepareOptions { swift := some ⟨[0xFF]⟩ } {} true) {} (given hiddenWords) ∧
    readNormal none (word "swift-sh" :: buildWord :: hiddenWords) =
      .ok ⟨0, none, .build { swift := some ⟨[0xFF]⟩, skipPackage := some false }
        "a.swift".toList⟩ := by
  refine ⟨eq_ok_of_toOption (by decide +kernel), fun hfollows => ?_,
    eq_ok_of_toOption (by decide +kernel)⟩
  have hsaid : Switch.skipPackage.said (given hiddenWords) = [false] := by decide +kernel
  have hswitch := hfollows.switch .skipPackage
  rw [hsaid] at hswitch
  cases hswitch

end Tool
end ScriptDeps
