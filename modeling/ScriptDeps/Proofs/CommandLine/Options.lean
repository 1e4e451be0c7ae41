import ScriptDeps.CommandLine.Normal
import ScriptDeps.CommandLine.Syntax
import ScriptDeps.Proofs.Text.Cut
import ScriptDeps.Proofs.Text.Utf8

/-! # Options in front of a script

    An option is one word, or a word and its value.  The normal form goes over
    whole options at a time (`splitOptions_common`, `markScript_run`), so where
    it finds the script depends only on what stands in front of it
    (`exists_normal`). -/

namespace ScriptDeps
namespace CommandLine

/-! ## Section 1: Model -/

/-- The words of an option that goes with every command. -/
inductive IsCommonOption : List Argument → Prop
  | verbose {a : Argument} (h : isVerbose a = true) : IsCommonOption [a]
  | settings (v : Text) : IsCommonOption [settingsOption, Utf8.encode v]
  | settingsWith (v : Text) : IsCommonOption [word "--config=" ++ Utf8.encode v]

/-- The words of an option that goes with every command, whose value is any
    bytes. -/
inductive IsGlobalOption : List Argument → Prop
  | verbose {a : Argument} (h : isVerbose a = true) : IsGlobalOption [a]
  | settings (v : Argument) : IsGlobalOption [settingsOption, v]
  | settingsWith (v : Argument) : IsGlobalOption [word "--config=" ++ v]

theorem IsCommonOption.isGlobal {g : List Argument} (h : IsCommonOption g) : IsGlobalOption g := by
  cases h with
  | verbose h => exact .verbose h
  | settings v => exact .settings _
  | settingsWith v => exact .settingsWith _

/-- What an option says itself, after `=`, is text. -/
def SaysText (g : List Argument) : Prop :=
  ∀ v, g = [word "--config=" ++ v] → (Utf8.decode v).isSome = true

/-- The words of an option that can stand after `run`. -/
inductive IsRunOption : List Argument → Prop
  | common {g : List Argument} (h : IsCommonOption g) : IsRunOption g
  | content : IsRunOption [word "-c"]
  | flag {name : Text} {f : Flag} (h : (name, .flag f) ∈ preparationNames) :
      IsRunOption [word "--" ++ Utf8.encode name]
  | swift (v : Text) : IsRunOption [swiftOption, Utf8.encode v]
  | swiftWith (v : Text) : IsRunOption [word "--swift-path=" ++ Utf8.encode v]

/-- A word that can name a script: a dash alone, or no dash in front. -/
def IsScriptWord (a : Argument) : Prop := a = word "-" ∨ a.head? ≠ some 0x2D

instance (a : Argument) : Decidable (IsScriptWord a) := inferInstanceAs (Decidable (_ ∨ _))

variable {a : Argument} {g w : List Argument} {gs : List (List Argument)}

theorem IsGlobalOption.ne_nil {g : List Argument} (h : IsGlobalOption g) : g ≠ [] := by
  cases h <;> exact List.cons_ne_nil _ _

theorem IsRunOption.ne_nil {g : List Argument} (h : IsRunOption g) : g ≠ [] := by
  cases h with
  | common h => exact h.isGlobal.ne_nil
  | content | flag h | swift v | swiftWith v => exact List.cons_ne_nil _ _

/-! ## Section 2: Words with a dash in front -/

/-- The long form, or one or more `v` after a dash. -/
theorem exists_of_isVerbose (h : isVerbose a = true) :
    a = word "--verbose" ∨ ∃ n, a = 0x2D :: List.replicate (n + 1) 0x76 := by
  unfold isVerbose at h
  rcases Bool.or_eq_true_iff.1 h with h | h
  · exact .inl (by simpa using h)
  · right
    match a, h with
    | dash :: v :: vs, h =>
      obtain ⟨hdash, hall⟩ := Bool.and_eq_true_iff.1 h
      have hvs : ∀ b ∈ v :: vs, b = 0x76 := fun b hb => by
        simpa using List.all_eq_true.1 hall b hb
      refine ⟨vs.length, ?_⟩
      rw [of_decide_eq_true hdash, List.eq_replicate_of_mem hvs]
      rfl

theorem encode_replicate_v (n : Nat) :
    Utf8.encode (List.replicate n 'v') = List.replicate n 0x76 := by
  induction n with
  | zero => rfl
  | succ n ih =>
    rw [List.replicate_succ, List.replicate_succ, Utf8.encode_cons, ih]
    rfl

/-- A dash and more, all of it text. -/
theorem looksLikeOption_encode {t : Text} (ht : t ≠ []) :
    looksLikeOption (0x2D :: Utf8.encode t) = true := by
  obtain ⟨c, t, rfl⟩ := List.exists_cons_of_ne_nil ht
  have hdecode : Utf8.decode (0x2D :: Utf8.encode (c :: t)) = some ('-' :: c :: t) :=
    Utf8.decode_encode ('-' :: c :: t)
  have hne : Utf8.encode (c :: t) ≠ [] := by
    intro hnil
    cases Utf8.encode_injective (hnil.trans Utf8.encode_nil.symm)
  unfold looksLikeOption
  rw [hdecode]
  simp [List.length_pos_iff.2 hne]

theorem looksLikeOption_of_isVerbose (h : isVerbose a = true) : looksLikeOption a = true := by
  obtain rfl | ⟨n, rfl⟩ := exists_of_isVerbose h
  · exact looksLikeOption_encode (t := "-verbose".toList) (by decide)
  · rw [← encode_replicate_v]
    exact looksLikeOption_encode (by simp)

/-- No verbosity option is a longer one. -/
theorem ne_of_isVerbose (h : isVerbose a = true) :
    a ≠ endOfOptions ∧ a ≠ settingsOption ∧ a ≠ swiftOption := by
  obtain rfl | ⟨n, rfl⟩ := exists_of_isVerbose h
  · decide
  · rw [List.replicate_succ]
    exact ⟨nofun, nofun, nofun⟩

/-- A word that begins with `p` is none that does not. -/
theorem append_ne {p b : Argument} (h : p.isPrefixOf b = false) (v : Argument) : p ++ v ≠ b := by
  rintro rfl
  rw [← Bool.not_eq_true] at h
  exact h (List.isPrefixOf_iff_prefix.2 (List.prefix_append p v))

/-! ## Section 3: Options before the command -/

/-- An option that says its value itself is seen to do so if the value is text. -/
theorem isSettingsWithValue_append (v : Argument) :
    isSettingsWithValue (word "--config=" ++ v) = (Utf8.decode v).isSome := by
  unfold isSettingsWithValue word
  rw [Cut.after?_append, Utf8.decode_encode_append, Option.isSome_map, Option.isSome_some,
    Bool.and_true]

theorem isSettingsWithValue_of_none (h : Cut.after? (word "--config=") a = none) :
    isSettingsWithValue a = false := by
  unfold isSettingsWithValue
  rw [h]
  exact Bool.and_false _

theorem splitOptions_single (hne : a ≠ settingsOption)
    (h : isSettingsWithValue a = true ∨ isVerbose a = true) (w : List Argument) :
    splitOptions (a :: w) = (a :: (splitOptions w).1, (splitOptions w).2) := by
  cases w with
  | nil => rw [splitOptions, if_pos (by simpa [hne] using h)]; rfl
  | cons v w => rw [splitOptions, if_neg hne, if_pos (by simpa using h)]

/-- An option that goes with every command is split off whole. -/
theorem IsGlobalOption.splitOptions (h : IsGlobalOption g) (htext : SaysText g)
    (w : List Argument) :
    splitOptions (g ++ w) = (g ++ (splitOptions w).1, (splitOptions w).2) := by
  cases h with
  | verbose h => exact splitOptions_single (ne_of_isVerbose h).2.1 (.inr h) w
  | settings v => rw [List.cons_append, List.cons_append, CommandLine.splitOptions, if_pos rfl]; rfl
  | settingsWith v =>
    have hne := append_ne (p := word "--config=") (b := settingsOption) (by decide)
    have hvalue := (isSettingsWithValue_append v).trans (htext v rfl)
    exact splitOptions_single (hne _) (.inl hvalue) w

theorem splitOptions_global (h : ∀ g ∈ gs, IsGlobalOption g) (htext : ∀ g ∈ gs, SaysText g)
    (w : List Argument) :
    splitOptions (gs.flatten ++ w) = (gs.flatten ++ (splitOptions w).1, (splitOptions w).2) := by
  induction gs with
  | nil => rfl
  | cons g gs ih =>
    have hfirst := (h g (List.mem_cons_self ..)).splitOptions (htext g (List.mem_cons_self ..))
    rw [List.flatten_cons, List.append_assoc, hfirst,
      ih (fun g hg => h g (List.mem_cons_of_mem _ hg))
        (fun g hg => htext g (List.mem_cons_of_mem _ hg)), List.append_assoc]

theorem IsCommonOption.saysText (h : IsCommonOption g) : SaysText g := by
  intro v hv
  cases h with
  | verbose h =>
    obtain rfl := (List.cons.inj hv).1
    obtain heq | ⟨n, heq⟩ := exists_of_isVerbose h <;> cases heq
  | settings t => cases hv
  | settingsWith t =>
    obtain rfl := List.append_cancel_left (List.cons.inj hv).1
    rw [Utf8.decode_encode]
    rfl

theorem splitOptions_common (h : ∀ g ∈ gs, IsCommonOption g) (w : List Argument) :
    splitOptions (gs.flatten ++ w) = (gs.flatten ++ (splitOptions w).1, (splitOptions w).2) :=
  splitOptions_global (fun g hg => (h g hg).isGlobal) (fun g hg => (h g hg).saysText) w

/-- Any other word ends the options that go with every command. -/
theorem splitOptions_of_other (hne : a ≠ settingsOption) (hvalue : isSettingsWithValue a = false)
    (hverbose : isVerbose a = false) (w : List Argument) :
    splitOptions (a :: w) = ([], a :: w) := by
  cases w <;> rw [splitOptions] <;> simp [hne, hvalue, hverbose]

/-! ## Section 4: Arguments of the script -/

theorem markScript_single (hlook : looksLikeOption a = true)
    (hne : a ≠ endOfOptions ∧ a ≠ settingsOption ∧ a ≠ swiftOption) (hw : w ≠ []) :
    markScript (a :: w) = a :: markScript w := by
  obtain ⟨b, w, rfl⟩ := List.exists_cons_of_ne_nil hw
  obtain ⟨hend, hsettings, hswift⟩ := hne
  rw [markScript, if_neg hend, if_neg (by simp [hsettings, hswift]), if_pos hlook]

/-- The script is not looked for inside an option. -/
theorem IsCommonOption.markScript (h : IsCommonOption g) (hw : w ≠ []) :
    markScript (g ++ w) = g ++ markScript w := by
  cases h with
  | verbose h => exact markScript_single (looksLikeOption_of_isVerbose h) (ne_of_isVerbose h) hw
  | settings v => rw [List.cons_append, List.cons_append, CommandLine.markScript]; rfl
  | settingsWith v =>
    have hne : ∀ b ∈ [endOfOptions, settingsOption, swiftOption],
        (word "--config=").isPrefixOf b = false := by decide
    exact markScript_single (looksLikeOption_encode (t := "-config=".toList ++ v) (by simp))
      ⟨append_ne (hne _ (by simp)) _, append_ne (hne _ (by simp)) _,
        append_ne (hne _ (by simp)) _⟩ hw

theorem IsRunOption.markScript (h : IsRunOption g) (hw : w ≠ []) :
    markScript (g ++ w) = g ++ markScript w := by
  cases h with
  | common h => exact h.markScript hw
  | content =>
    exact markScript_single (looksLikeOption_encode (t := ['c']) (by simp)) (by decide) hw
  | @flag name f h =>
    have hne : ∀ e ∈ preparationNames, word "--" ++ Utf8.encode e.1 ≠ endOfOptions ∧
        word "--" ++ Utf8.encode e.1 ≠ settingsOption ∧
        (e.2 = .setting .swift ∨ word "--" ++ Utf8.encode e.1 ≠ swiftOption) := by decide
    obtain ⟨hend, hsettings, hswift⟩ := hne _ h
    exact markScript_single (looksLikeOption_encode (t := '-' :: name) (by simp))
      ⟨hend, hsettings, hswift.resolve_left nofun⟩ hw
  | swift v => rw [List.cons_append, List.cons_append, CommandLine.markScript]; rfl
  | swiftWith v =>
    have hne : ∀ b ∈ [endOfOptions, settingsOption, swiftOption],
        (word "--swift-path=").isPrefixOf b = false := by decide
    exact markScript_single (looksLikeOption_encode (t := "-swift-path=".toList ++ v) (by simp))
      ⟨append_ne (hne _ (by simp)) _, append_ne (hne _ (by simp)) _,
        append_ne (hne _ (by simp)) _⟩ hw

theorem markScript_run (h : ∀ g ∈ gs, IsRunOption g) (hw : w ≠ []) :
    markScript (gs.flatten ++ w) = gs.flatten ++ markScript w := by
  induction gs with
  | nil => rfl
  | cons g gs ih =>
    rw [List.flatten_cons, List.append_assoc,
      (h g (List.mem_cons_self ..)).markScript (by simp [hw]),
      ih fun g hg => h g (List.mem_cons_of_mem _ hg), List.append_assoc]

/-! ## Section 5: The script -/

theorem IsScriptWord.ne (h : IsScriptWord a) {b : Argument} (hhead : b.head? = some 0x2D)
    (hlength : b.length ≠ 1) : a ≠ b := by
  rintro rfl
  rcases h with rfl | h
  · exact hlength rfl
  · exact h hhead

theorem IsScriptWord.looksLikeOption_eq_false (h : IsScriptWord a) :
    looksLikeOption a = false := by
  unfold looksLikeOption
  rcases h with rfl | h
  · exact Bool.and_false _
  · simp [h]

/-- After the script the options end, if anything follows. -/
theorem IsScriptWord.markScript (h : IsScriptWord a) (w : List Argument) :
    markScript (a :: w) = if w = [] then [a] else a :: endOfOptions :: w := by
  cases w with
  | nil => rfl
  | cons b w =>
    have hend := h.ne (b := endOfOptions) rfl (by decide)
    have hsettings := h.ne (b := settingsOption) rfl (by decide)
    have hswift := h.ne (b := swiftOption) rfl (by decide)
    rw [CommandLine.markScript, if_neg hend, if_neg (by simp [hsettings, hswift]),
      if_neg (by simp [h.looksLikeOption_eq_false]), if_neg (by simp)]

theorem IsScriptWord.isVerbose_eq_false (h : IsScriptWord a) : isVerbose a = false := by
  rw [← Bool.not_eq_true]
  intro hverbose
  have hlook := looksLikeOption_of_isVerbose hverbose
  rw [h.looksLikeOption_eq_false] at hlook
  cases hlook

theorem IsScriptWord.isSettingsWithValue_eq_false (h : IsScriptWord a) :
    isSettingsWithValue a = false := by
  refine isSettingsWithValue_of_none (Cut.after?_eq_none ?_)
  rw [← Bool.not_eq_true]
  intro hfront
  obtain ⟨v, rfl⟩ := List.isPrefixOf_iff_prefix.1 hfront
  rcases h with h | h
  · cases h
  · exact h rfl

/-! ## Section 6: The normal form -/

/-- What can stand in front of a script: options that go with every command,
    perhaps `run`, and options of `run`. -/
def lead (common : List (List Argument)) (named : Bool) (options : List (List Argument)) :
    List Argument :=
  common.flatten ++ (if named then [runWord] else []) ++ options.flatten

/-- A word that begins what belongs to `run` without naming it. -/
structure StartsRun (a : Argument) : Prop where
  split : ∀ w, splitOptions (a :: w) = ([], a :: w)
  notNamed : a ∉ commandWords
  notInfo : a ∉ infoOptions

theorem startsRun_of (hne : a ∉ settingsOption :: commandWords ++ infoOptions)
    (hvalue : Cut.after? (word "--config=") a = none) (hverbose : isVerbose a = false) :
    StartsRun a := by
  obtain ⟨hsettings, hcommand, hinfo⟩ :
      a ≠ settingsOption ∧ a ∉ commandWords ∧ a ∉ infoOptions := by simpa [not_or] using hne
  exact ⟨splitOptions_of_other hsettings (isSettingsWithValue_of_none hvalue) hverbose, hcommand,
    hinfo⟩

theorem IsRunOption.startsRun (h : IsRunOption g) (hother : ¬ IsCommonOption g) :
    ∃ a g', g = a :: g' ∧ StartsRun a := by
  cases h with
  | common h => exact absurd h hother
  | content =>
    exact ⟨_, [], rfl, startsRun_of (by decide) (by decide) (by decide)⟩
  | @flag name f h =>
    have hall : ∀ e ∈ preparationNames,
        word "--" ++ Utf8.encode e.1 ∉ settingsOption :: commandWords ++ infoOptions ∧
        Cut.after? (word "--config=") (word "--" ++ Utf8.encode e.1) = none ∧
        isVerbose (word "--" ++ Utf8.encode e.1) = false := by decide
    obtain ⟨hne, hvalue, hverbose⟩ := hall _ h
    exact ⟨_, [], rfl, startsRun_of hne hvalue hverbose⟩
  | swift v =>
    exact ⟨_, _, rfl, startsRun_of (by decide) (by decide) (by decide)⟩
  | swiftWith v =>
    have hne : ∀ b ∈ word "--verbose" :: settingsOption :: commandWords ++ infoOptions,
        (word "--swift-path=").isPrefixOf b = false := by decide
    have hverbose : isVerbose (word "--swift-path=" ++ Utf8.encode v) = false := by
      unfold isVerbose
      rw [decide_eq_false (append_ne (hne _ (List.mem_cons_self ..)) _)]
      rfl
    refine ⟨_, [], rfl, startsRun_of (fun hmem => ?_) rfl hverbose⟩
    exact append_ne (hne _ (List.mem_cons_of_mem _ hmem)) _ rfl

theorem IsScriptWord.startsRun (h : IsScriptWord a) (hcommand : a ∉ commandWords) :
    StartsRun a := by
  have hsettings := h.ne (b := settingsOption) rfl (by decide)
  refine ⟨splitOptions_of_other hsettings h.isSettingsWithValue_eq_false h.isVerbose_eq_false,
    hcommand, ?_⟩
  intro hinfo
  have hall : ∀ b ∈ infoOptions, b.head? = some 0x2D ∧ b.length ≠ 1 := by decide
  obtain ⟨hhead, hlength⟩ := hall a hinfo
  exact h.ne hhead hlength rfl

/-- Options that go with every command come first as far as they can. -/
theorem exists_common_front (gs : List (List Argument)) :
    ∃ front back, gs = front ++ back ∧ (∀ g ∈ front, IsCommonOption g) ∧
      ∀ g, back.head? = some g → ¬ IsCommonOption g := by
  induction gs with
  | nil => exact ⟨[], [], rfl, by simp, by simp⟩
  | cons g gs ih =>
    by_cases hg : IsCommonOption g
    · obtain ⟨front, back, rfl, hfront, hback⟩ := ih
      exact ⟨g :: front, back, rfl, by simpa [hg] using hfront, hback⟩
    · exact ⟨[], g :: gs, rfl, by simp, by simpa using hg⟩

theorem normal_of_startsRun (program : Argument) (hgs : ∀ g ∈ gs, IsGlobalOption g)
    (htext : ∀ g ∈ gs, SaysText g) (ha : StartsRun a) (w : List Argument) :
    normal (program :: gs.flatten ++ a :: w) =
      program :: gs.flatten ++ runWord :: markScript (a :: w) := by
  have hrun : a ≠ runWord := by
    rintro rfl
    exact ha.notNamed (by decide)
  rw [List.cons_append, normal, splitOptions_global hgs htext, ha.split]
  dsimp only
  rw [if_neg hrun, if_neg (by simpa using ⟨ha.notNamed, ha.notInfo⟩), List.append_nil]

/-- The normal form names `run` and keeps the options, wherever they stand, and
    what follows the script has no part in that. -/
theorem exists_normal {common options : List (List Argument)} {named : Bool} {s : Argument}
    (hcommon : ∀ g ∈ common, IsCommonOption g) (hoptions : ∀ g ∈ options, IsRunOption g)
    (hs : IsScriptWord s)
    (hcommand : named = true ∨ (∃ g ∈ options, ¬ IsCommonOption g) ∨ s ∉ commandWords) :
    ∃ common' options' : List (List Argument), (∀ g ∈ common', IsCommonOption g) ∧
      (∀ g ∈ options', IsRunOption g) ∧
      ∀ program w, normal (program :: lead common named options ++ s :: w) =
        program :: common'.flatten ++ runWord :: (options'.flatten ++ markScript (s :: w)) := by
  cases named with
  | true =>
    refine ⟨common, options, hcommon, hoptions, fun program w => ?_⟩
    have hsplit : splitOptions (runWord :: (options.flatten ++ s :: w)) =
        ([], runWord :: (options.flatten ++ s :: w)) :=
      splitOptions_of_other (by decide) (isSettingsWithValue_of_none rfl) (by decide) _
    have hlead : lead common true options ++ s :: w =
        common.flatten ++ runWord :: (options.flatten ++ s :: w) := by simp [lead]
    rw [List.cons_append, hlead, normal, splitOptions_common hcommon, hsplit]
    dsimp only
    rw [if_pos rfl, List.append_nil, markScript_run hoptions (List.cons_ne_nil _ _)]
  | false =>
    obtain ⟨front, back, rfl, hfront, hback⟩ := exists_common_front options
    have hbackRun : ∀ g ∈ back, IsRunOption g := fun g hg =>
      hoptions g (List.mem_append_right _ hg)
    have hall : ∀ g ∈ common ++ front, IsCommonOption g := fun g hg =>
      (List.mem_append.1 hg).elim (hcommon g) (hfront g)
    refine ⟨common ++ front, back, hall, hbackRun, fun program w => ?_⟩
    have hlead : lead common false (front ++ back) ++ s :: w =
        (common ++ front).flatten ++ (back.flatten ++ s :: w) := by simp [lead]
    -- What begins after the common options is an option of `run`, or the script.
    obtain ⟨a, w', hw', ha⟩ : ∃ a w', back.flatten ++ s :: w = a :: w' ∧ StartsRun a := by
      cases back with
      | nil =>
        refine ⟨s, w, rfl, hs.startsRun ?_⟩
        rcases hcommand with h | ⟨g, hg, hother⟩ | h
        · cases h
        · rw [List.append_nil] at hg
          exact absurd (hfront g hg) hother
        · exact h
      | cons g back =>
        obtain ⟨a, g', rfl, ha⟩ :=
          (hbackRun g (List.mem_cons_self ..)).startsRun (hback g rfl)
        exact ⟨a, _, rfl, ha⟩
    have hnormal := normal_of_startsRun program (fun g hg => (hall g hg).isGlobal)
      (fun g hg => (hall g hg).saysText) ha w'
    rw [List.cons_append, hlead, hw', ← List.cons_append, hnormal, ← hw',
      markScript_run hbackRun (List.cons_ne_nil _ _)]

end CommandLine
end ScriptDeps
