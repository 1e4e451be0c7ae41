import ScriptDeps.Proofs.CommandLine.NamedCommand

/-! # The options that are given

    Which options a command line gives to `run` or `build` can be read off its
    words: options that go with every command, the name of the command if there
    is one, and then more options, up to the script for `run` and on both sides
    of it for `build` (`given`).  The normal form keeps those up to the first
    that is not text; that one it takes for the script (`normalForm`). -/

namespace ScriptDeps
namespace CommandLine

/-! ## Section 1: Model -/

def buildWord : Argument := word "build"

/-- A dash and more. -/
def isOption (a : Argument) : Bool := a.head? = some 0x2D && 1 < a.length

/-- Whether the next word is the value of an option. -/
def takesValue (a : Argument) : Bool := a = settingsOption || a = swiftOption

/-- The options among the words of a command, each with its value: those in front
    of `--` and, unless options may come `past` operands, of the first operand. -/
def optionsIn (past : Bool) : List Argument → List (List Argument)
  | [] => []
  | [a] => if a ≠ endOfOptions ∧ isOption a = true then [[a]] else []
  | a :: v :: rest =>
      if a = endOfOptions then []
      else if takesValue a then [a, v] :: optionsIn past rest
      else if isOption a then [a] :: optionsIn past (v :: rest)
      else if past then optionsIn past (v :: rest) else []

/-- Whether `a` is an option of every command that is one word. -/
def isCommon (a : Argument) : Bool := isVerbose a || (word "--config=").isPrefixOf a

/-- The options in front that go with every command, and what follows them. -/
def splitCommon : List Argument → List (List Argument) × List Argument
  | [] => ([], [])
  | [a] => if isCommon a then ([[a]], []) else ([], [a])
  | a :: v :: rest =>
      if a = settingsOption then ([a, v] :: (splitCommon rest).1, (splitCommon rest).2)
      else if isCommon a then
        ([a] :: (splitCommon (v :: rest)).1, (splitCommon (v :: rest)).2)
      else ([], a :: v :: rest)

/-- The options after the name of the command, or after where it would stand. -/
def optionsOfCommand : List Argument → List (List Argument)
  | [] => []
  | a :: rest =>
      if a = runWord then optionsIn false rest
      else if a = buildWord then optionsIn true rest
      else optionsIn false (a :: rest)

/-- The options that a command line gives to `run` or `build`; the words are those
    after the name of the program. -/
def given (ws : List Argument) : List (List Argument) :=
  (splitCommon ws).1 ++ optionsOfCommand (splitCommon ws).2

/-- An option is text; a value in the next word need not be. -/
def IsText (g : List Argument) : Prop := ∀ a ∈ g.head?, (Utf8.decode a).isSome = true

instance (g : List Argument) : Decidable (IsText g) :=
  inferInstanceAs (Decidable (∀ a ∈ g.head?, _))

/-- The options up to the first that is not text, with that one. -/
def heeded : List (List Argument) → List (List Argument)
  | [] => []
  | g :: gs => if IsText g then g :: heeded gs else [g]

variable {a : Argument} {g w ws : List Argument} {gs hs : List (List Argument)} {past : Bool}

/-! ## Section 2: Options that are heeded -/

theorem heeded_append (h : ∀ g ∈ gs, IsText g) (hs : List (List Argument)) :
    heeded (gs ++ hs) = gs ++ heeded hs := by
  induction gs with
  | nil => rfl
  | cons g gs ih =>
    obtain ⟨hg, hgs⟩ := List.forall_mem_cons.1 h
    rw [List.cons_append, heeded, if_pos hg, ih hgs]
    rfl

theorem heeded_cons_of_not (h : ¬ IsText g) (gs : List (List Argument)) :
    heeded (g :: gs) = [g] := by
  rw [heeded, if_neg h]

/-- If all options are text, all are heeded. -/
theorem heeded_eq_self (h : ∀ g ∈ gs, IsText g) : heeded gs = gs := by
  have happend := heeded_append h []
  rwa [heeded, List.append_nil] at happend

/-! ## Section 3: Options in front of the script -/

theorem isOption_of_takesValue (h : takesValue a = true) :
    isOption a = true ∧ a ≠ endOfOptions ∧ IsText (a :: w) := by
  have hall : ∀ b ∈ [settingsOption, swiftOption],
      isOption b = true ∧ b ≠ endOfOptions ∧ IsText [b] := by decide +kernel
  have hmem : a ∈ [settingsOption, swiftOption] := by simpa [takesValue] using h
  exact hall a hmem

theorem optionsIn_option (hend : a ≠ endOfOptions) (hvalue : takesValue a = false)
    (h : isOption a = true) (w : List Argument) :
    optionsIn past (a :: w) = [a] :: optionsIn past w := by
  cases w with
  | nil => simp [optionsIn, hend, h]
  | cons v w => rw [optionsIn, if_neg hend, if_neg (by simp [hvalue]), if_pos h]

theorem optionsIn_operand (h : isOption a = false) (w : List Argument) :
    optionsIn past (a :: w) = if past then optionsIn past w else [] := by
  have hend : a ≠ endOfOptions := by
    rintro rfl
    exact absurd h (by decide)
  have hvalue : takesValue a = false := by
    rw [← Bool.not_eq_true]
    intro htakes
    rw [(isOption_of_takesValue (w := w) htakes).1] at h
    cases h
  cases w with
  | nil => cases past <;> simp [optionsIn, h]
  | cons v w => rw [optionsIn, if_neg hend, if_neg (by simp [hvalue]), if_neg (by simp [h])]

theorem optionsIn_end (past : Bool) (w : List Argument) :
    optionsIn past (endOfOptions :: w) = [] := by
  cases w <;> simp [optionsIn]

theorem looksLikeOption_iff :
    looksLikeOption a = true ↔ (Utf8.decode a).isSome = true ∧ isOption a = true := by
  unfold looksLikeOption isOption
  simp [and_assoc]

/-- With the script marked, the options in front of it are found as before, but the first
    that is not text counts as the script. -/
theorem optionsIn_markScript (w : List Argument) :
    optionsIn true (markScript w) = heeded (optionsIn false w) := by
  fun_induction markScript w with
  | case1 => rfl
  | case2 a =>
    by_cases h : a ≠ endOfOptions ∧ isOption a = true
    · by_cases htext : IsText [a] <;> simp [optionsIn, heeded, h, htext]
    · simp [optionsIn, heeded, h]
  | case3 b rest =>
    rw [optionsIn_end, optionsIn_end]
    rfl
  | case4 a b rest hend hvalue ih =>
    have htakes : takesValue a = true := hvalue
    have htext : IsText [a, b] := (isOption_of_takesValue htakes).2.2
    rw [optionsIn, optionsIn, if_neg hend, if_neg hend, if_pos htakes, if_pos htakes, ih, heeded,
      if_pos htext]
  | case5 a b rest hend hvalue hlook ih =>
    obtain ⟨htext, hoption⟩ := looksLikeOption_iff.1 hlook
    have hnone : takesValue a = false := Bool.eq_false_iff.2 hvalue
    have hsays : IsText [a] := by simpa [IsText] using htext
    rw [optionsIn_option hend hnone hoption, optionsIn_option hend hnone hoption, ih, heeded,
      if_pos hsays]
  | case6 a b rest hend hvalue hlook =>
    have hnone : takesValue a = false := Bool.eq_false_iff.2 hvalue
    cases hoption : isOption a with
    | true =>
      -- An option that is not text: it is taken for the script.
      have hsays : ¬ IsText [a] := by
        intro htext
        exact hlook (looksLikeOption_iff.2 ⟨by simpa [IsText] using htext, hoption⟩)
      rw [optionsIn_option hend hnone hoption, optionsIn_option hend hnone hoption, optionsIn_end,
        heeded_cons_of_not hsays]
    | false =>
      rw [optionsIn_operand hoption, optionsIn_operand hoption, if_pos rfl, optionsIn_end]
      rfl

/-! ## Section 4: Options in front of the command -/

theorem isGlobalOption_of_isCommon (h : isCommon a = true) : IsGlobalOption [a] := by
  rcases Bool.or_eq_true_iff.1 h with h | h
  · exact .verbose h
  · obtain ⟨v, rfl⟩ := List.isPrefixOf_iff_prefix.1 h
    exact .settingsWith v

theorem splitCommon_isGlobal (ws : List Argument) : ∀ g ∈ (splitCommon ws).1, IsGlobalOption g := by
  fun_induction splitCommon ws with
  | case1 => simp
  | case2 a h => simpa using isGlobalOption_of_isCommon h
  | case3 a h => simp
  | case4 v rest ih =>
    exact List.forall_mem_cons.2 ⟨.settings v, ih⟩
  | case5 a v rest hne h ih =>
    exact List.forall_mem_cons.2 ⟨isGlobalOption_of_isCommon h, ih⟩
  | case6 a v rest hne h => simp

theorem splitCommon_append (ws : List Argument) :
    (splitCommon ws).1.flatten ++ (splitCommon ws).2 = ws := by
  fun_induction splitCommon ws with
  | case1 => rfl
  | case2 a h => rfl
  | case3 a h => rfl
  | case4 v rest ih => exact congrArg ([settingsOption, v] ++ ·) ih
  | case5 a v rest hne h ih => exact congrArg (a :: ·) ih
  | case6 a v rest hne h => rfl

/-- What follows begins with no such option, unless its value is missing. -/
theorem splitCommon_stops (hback : (splitCommon ws).2 = a :: w) :
    isCommon a = false ∧ (a = settingsOption → w = []) := by
  fun_induction splitCommon ws with
  | case1 => cases hback
  | case2 a' h => cases hback
  | case3 a' h =>
    cases hback
    exact ⟨Bool.eq_false_iff.2 h, fun _ => rfl⟩
  | case4 v rest ih => exact ih hback
  | case5 a' v rest hne h ih => exact ih hback
  | case6 a' v rest hne h =>
    cases hback
    exact ⟨Bool.eq_false_iff.2 h, fun heq => absurd heq hne⟩

/-- An option that says its value itself is text if the value is. -/
theorem isText_of_saysText (hg : IsGlobalOption g) (h : SaysText g) : IsText g := by
  intro b hb
  cases hg with
  | @verbose a hverbose =>
    obtain rfl : b = a := by simpa using hb.symm
    exact (looksLikeOption_iff.1 (looksLikeOption_of_isVerbose hverbose)).1
  | settings v =>
    obtain rfl : b = settingsOption := by simpa using hb.symm
    decide +kernel
  | settingsWith v =>
    obtain rfl : b = word "--config=" ++ v := by simpa using hb.symm
    rw [word, Utf8.decode_encode_append, Option.isSome_map]
    exact h v rfl

theorem not_isText_of_other_bytes {v : Argument} (hv : (Utf8.decode v).isSome = false) :
    ¬ IsText [word "--config=" ++ v] := by
  intro htext
  have hsome := htext _ rfl
  rw [word, Utf8.decode_encode_append, Option.isSome_map, hv] at hsome
  cases hsome

/-! ## Section 5: The normal form -/

/-- The normal form names `run` after some of the options that go with every command, or is the
    command line as it is, naming another command; unless the last option is without its value. -/
inductive NormalForm (program : Argument) (ws : List Argument) : Prop
  | run {gs : List (List Argument)} {w : List Argument} (hgs : ∀ g ∈ gs, IsGlobalOption g)
      (hnormal : normal (program :: ws) = program :: gs.flatten ++ runWord :: w)
      (hgiven : gs ++ optionsIn true w = heeded (given ws)) : NormalForm program ws
  | named {gs : List (List Argument)} {a : Argument} {w : List Argument}
      (hgs : ∀ g ∈ gs, IsGlobalOption g) (ha : a ∈ commandWords ∨ a ∈ infoOptions)
      (hrun : a ≠ runWord) (hnormal : normal (program :: ws) = program :: gs.flatten ++ a :: w)
      (hgiven : a = buildWord → given ws = gs ++ optionsIn true w) : NormalForm program ws
  | unfinished {gs : List (List Argument)} (hgs : ∀ g ∈ gs, IsGlobalOption g)
      (hnormal : normal (program :: ws) = program :: gs.flatten ++ [settingsOption, runWord]) :
      NormalForm program ws

/-- Where the options in front of the command are text, it is the next word that decides. -/
theorem normalForm_of_text (program : Argument) (htext : ∀ g ∈ (splitCommon ws).1, SaysText g) :
    NormalForm program ws := by
  have hgs := splitCommon_isGlobal ws
  have hws := splitCommon_append ws
  have hheeded : heeded (given ws) =
      (splitCommon ws).1 ++ heeded (optionsOfCommand (splitCommon ws).2) :=
    heeded_append (fun g hg => isText_of_saysText (hgs g hg) (htext g hg)) _
  have hsplit : splitOptions ws =
      ((splitCommon ws).1.flatten ++ (splitOptions (splitCommon ws).2).1,
        (splitOptions (splitCommon ws).2).2) := by
    have hsplit := splitOptions_global hgs htext (splitCommon ws).2
    rwa [hws] at hsplit
  -- Split by the word after the options: none, an option without its value, `run`, another
  -- command, or anything else, which belongs to `run`.
  cases hback : (splitCommon ws).2 with
  | nil =>
    refine .run hgs (w := []) ?_ ?_
    · rw [normal, hsplit, hback]
      simp [splitOptions]
    · rw [hheeded, hback]
      rfl
  | cons a w =>
    obtain ⟨hcommon, hmissing⟩ := splitCommon_stops hback
    by_cases hsettings : a = settingsOption
    · -- An option at the end without its value; `run` becomes its value.
      refine .unfinished hgs ?_
      rw [normal, hsplit, hback, hmissing hsettings, hsettings]
      simp [splitOptions]
    obtain ⟨hverbose, hprefix⟩ := Bool.or_eq_false_iff.1 hcommon
    have hother : splitOptions (a :: w) = ([], a :: w) :=
      splitOptions_of_other hsettings (isSettingsWithValue_of_none (Cut.after?_eq_none hprefix))
        hverbose w
    rw [hback, hother, List.append_nil] at hsplit
    by_cases hrun : a = runWord
    · refine .run hgs (w := markScript w) ?_ ?_
      · rw [normal, hsplit]
        dsimp only
        rw [if_pos hrun]
      · rw [hheeded, hback, optionsOfCommand, if_pos hrun, optionsIn_markScript]
    by_cases hnamed : a ∈ commandWords ∨ a ∈ infoOptions
    · refine .named hgs hnamed hrun (w := w) ?_ fun hbuild => ?_
      · rw [normal, hsplit]
        dsimp only
        rw [if_neg hrun, if_pos (by simpa using hnamed)]
        rw [hback] at hws
        exact congrArg (program :: ·) hws.symm
      · rw [given, hback, optionsOfCommand, if_neg hrun, if_pos hbuild]
    · have hbuild : a ≠ buildWord := by
        rintro rfl
        exact hnamed (.inl (by decide))
      refine .run hgs (w := markScript (a :: w)) ?_ ?_
      · rw [normal, hsplit]
        dsimp only
        rw [if_neg hrun, if_neg (by simpa using hnamed)]
      · rw [hheeded, hback, optionsOfCommand, if_neg hrun, if_neg hbuild, optionsIn_markScript]

/-- Otherwise the first that is not text is taken for the script of `run`. -/
theorem normalForm_of_other_bytes (program : Argument)
    (hother : ¬ ∀ g ∈ (splitCommon ws).1, SaysText g) : NormalForm program ws := by
  have hgs := splitCommon_isGlobal ws
  have hws := splitCommon_append ws
  -- The first option that is not text is a `--config=` with other bytes in its value.
  obtain ⟨front, v, back, hsplit, htext, hv⟩ := exists_first_other hother
  have hfront : ∀ g ∈ front, IsGlobalOption g := by
    intro g hg
    apply hgs
    rw [hsplit]
    exact List.mem_append_left _ hg
  have hnot := not_isText_of_other_bytes hv
  have hoption : isOption (word "--config=" ++ v) = true ∧
      word "--config=" ++ v ≠ endOfOptions ∧ takesValue (word "--config=" ++ v) = false := by
    have hne : ∀ b ∈ [endOfOptions, settingsOption, swiftOption],
        (word "--config=").isPrefixOf b = false := by decide
    have hsettings : word "--config=" ++ v ≠ settingsOption := append_ne (hne _ (by simp)) v
    have hswift : word "--config=" ++ v ≠ swiftOption := append_ne (hne _ (by simp)) v
    refine ⟨?_, append_ne (hne _ (by simp)) v, by simp [takesValue, hsettings, hswift]⟩
    rfl
  have hwords : program :: ws =
      program :: front.flatten ++
        (word "--config=" ++ v) :: (back.flatten ++ (splitCommon ws).2) := by
    rw [hsplit] at hws
    exact congrArg (program :: ·) (hws.symm.trans (by simp))
  have hheeded : heeded (given ws) = front ++ [[word "--config=" ++ v]] := by
    rw [given, hsplit, List.append_assoc, List.cons_append,
      heeded_append fun g hg => isText_of_saysText (hfront g hg) (htext g hg),
      heeded_cons_of_not hnot]
  refine .run hfront
    (w := markScript ((word "--config=" ++ v) :: (back.flatten ++ (splitCommon ws).2))) ?_ ?_
  · rw [hwords]
    exact normal_of_startsRun program hfront htext (startsRun_of_other_bytes hv) _
  · rw [optionsIn_markScript, optionsIn_option hoption.2.1 hoption.2.2 hoption.1,
      heeded_cons_of_not hnot, hheeded]

theorem normalForm (program : Argument) (ws : List Argument) : NormalForm program ws := by
  by_cases htext : ∀ g ∈ (splitCommon ws).1, SaysText g
  · exact normalForm_of_text program htext
  · exact normalForm_of_other_bytes program htext

end CommandLine
end ScriptDeps
