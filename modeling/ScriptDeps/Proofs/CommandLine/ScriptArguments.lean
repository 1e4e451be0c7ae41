import ScriptDeps.Proofs.CommandLine.Reading

/-! # Arguments of a script

    Everything after the script belongs to it.  In a ready reading a word names
    the script (`Ready.take_script`), after that the normal form ends the
    options, and then every word is an argument of the script
    (`finish_after_script`).  So what follows the script changes nothing but
    its arguments (`read_script_arguments`). -/

namespace ScriptDeps
namespace CommandLine

namespace Reading

variable {r r' : Reading} {fallback : Option Path}

/-! ## Section 1: The script -/

/-- In a ready reading a word names the script. -/
theorem Ready.take_script (h : r.Ready) (hrun : r.level = .run) {a : Argument}
    (ha : IsScriptWord a) (htake : r.take a = .ok r') :
    ∃ r₀ : Reading, r₀.Ready ∧ r₀.held = none ∧ r₀.level = .run ∧
      r' = { r₀ with held := some (.operand .script [a]), begun := 1 } := by
  have hend := ha.ne (b := endOfOptions) rfl (by decide)
  have hword : r.take a = r.takeWord a := by
    unfold take
    rw [if_neg (by simp [h.ended]), if_neg hend]
    split
    · exact absurd rfl (ha.ne rfl (by simp))
    · exact absurd rfl (ha.ne rfl (by simp))
    · rcases h.held with hheld | ⟨s, v, hheld⟩ <;> rw [hheld]
  have hoperand : r.takeWord a = takeWord.beginOperand r a .script := by
    have hdue : r.level.operand? r.begun = some .script := by rw [h.begun, hrun]; rfl
    unfold takeWord
    rw [hdue]
    rcases h.held with hheld | ⟨s, v, hheld⟩ <;> rw [hheld]
  rw [hword, hoperand, takeWord.beginOperand] at htake
  obtain ⟨r₁, hsettle, hdone⟩ := exists_of_bind_ok htake
  obtain ⟨hready, hheld⟩ := h.settle hsettle
  refine ⟨r₁, hready, hheld, (level_settle hsettle).trans hrun, ?_⟩
  cases hdone
  rw [hready.begun]
  rfl

/-! ## Section 2: Its arguments -/

theorem mapM_operandText (ts : List Text) : (ts.map Utf8.encode).mapM operandText = .ok ts := by
  induction ts with
  | nil => rfl
  | cons t ts ih =>
    rw [List.map_cons, List.mapM_cons, ih, operandText, Utf8.decode_encode]
    rfl

/-- After `--` every word is one more argument. -/
theorem takeAll_arguments (hended : r.ended = true) (hrun : r.level = .run) (hbegun : r.begun = 1)
    (vs ws : List Argument) :
    ({ r with held := some (.operand .arguments vs) } : Reading).takeAll ws =
      .ok { r with held := some (.operand .arguments (vs ++ ws)) } := by
  induction ws generalizing vs with
  | nil =>
    rw [List.append_nil]
    rfl
  | cons w ws ih =>
    have hdue : r.level.operand? r.begun = some .arguments := by rw [hbegun, hrun]; rfl
    have hword : ({ r with held := some (.operand .arguments vs) } : Reading).take w =
        .ok { r with held := some (.operand .arguments (vs ++ [w])) } := by
      unfold take takeWord
      dsimp only
      rw [if_pos hended, hdue]
      rfl
    rw [takeAll_cons, hword]
    refine (ih (vs ++ [w])).trans ?_
    rw [List.append_assoc]
    rfl

theorem finish_run (hsettle : r.settle = .ok r') (hrun : r'.level = .run) :
    r.finish fallback false =
      if r'.lacksSettings fallback then .error (.misuse .badValue) else .ok r' := by
  unfold finish
  rw [hsettle]
  show (if r'.lacksSettings fallback then _ else _) = _
  cases r'.lacksSettings fallback with
  | true => rfl
  | false => simp [hrun]; rfl

/-- The words that follow the script in the normal form. -/
def afterScript (args : List Text) : List Argument :=
  if args = [] then [] else endOfOptions :: args.map Utf8.encode

/-- A script that is held becomes the script when the reading goes on. -/
theorem settle_script (hheld : r.held = none) (t : Text) (ended : Bool) :
    ({ r with held := some (.operand .script [Utf8.encode t]), begun := 1, ended := ended } :
        Reading).settle = .ok { r with script := some t, begun := 1, ended := ended } := by
  unfold settle takeOperand
  dsimp only
  rw [show [Utf8.encode t].mapM operandText = .ok [t] from mapM_operandText [t], hheld]
  rfl

theorem settle_arguments (hready : r.Ready) (hheld : r.held = none) (t : Text) (ts : List Text) :
    ({ r with script := some t, begun := 1, ended := true,
              held := some (.operand .arguments (ts.map Utf8.encode)) } : Reading).settle =
      .ok { r with script := some t, begun := 1, rest := ts, ended := true } := by
  unfold settle takeOperand
  dsimp only
  rw [mapM_operandText, hheld, hready.rest]
  rfl

/-- The words after a script are held as its arguments. -/
theorem takeAll_afterScript (hready : r.Ready) (hheld : r.held = none) (hrun : r.level = .run)
    (t b : Text) (bs : List Text) :
    ({ r with held := some (.operand .script [Utf8.encode t]), begun := 1 } :
        Reading).takeAll (afterScript (b :: bs)) =
      .ok { r with script := some t, begun := 1, ended := true,
                   held := some (.operand .arguments ((b :: bs).map Utf8.encode)) } := by
  have hend : ({ r with held := some (.operand .script [Utf8.encode t]), begun := 1 } :
      Reading).take endOfOptions =
      .ok { r with held := some (.operand .script [Utf8.encode t]), begun := 1,
                   ended := true } := by
    unfold take
    rw [if_neg (by simp [hready.ended]), if_pos rfl]
    rfl
  have hfirst : ({ r with
      held := some (.operand .script [Utf8.encode t]), begun := 1, ended := true } :
        Reading).take (Utf8.encode b) =
      .ok { r with script := some t, begun := 1, ended := true,
                   held := some (.operand .arguments [Utf8.encode b]) } := by
    -- The first argument settles the script.
    have hdue : r.level.operand? 1 = some .arguments := by rw [hrun]; rfl
    unfold take takeWord
    dsimp only
    rw [if_pos rfl, hdue]
    dsimp only
    rw [if_neg (by decide), takeWord.beginOperand, settle_script hheld]
    rfl
  have hwords : afterScript (b :: bs) = endOfOptions :: Utf8.encode b :: bs.map Utf8.encode := rfl
  rw [hwords, takeAll_cons, hend]
  show takeAll _ (Utf8.encode b :: _) = _
  rw [takeAll_cons, hfirst]
  exact takeAll_arguments (r := { r with script := some t, begun := 1, ended := true }) rfl hrun rfl
    [Utf8.encode b] (bs.map Utf8.encode)

/-- Whatever follows the script becomes its arguments, and whether the reading
    ends well does not depend on it. -/
theorem finish_after_script (hready : r.Ready) (hheld : r.held = none) (hrun : r.level = .run)
    (t : Text) (args : List Text) (fallback : Option Path) :
    ∃ ended, (({ r with held := some (.operand .script [Utf8.encode t]), begun := 1 } :
        Reading).takeAll (afterScript args) >>= fun r => r.finish fallback false) =
      if r.lacksSettings fallback then .error (.misuse .badValue)
      else .ok { r with script := some t, begun := 1, rest := args, ended := ended } := by
  cases args with
  | nil =>
    refine ⟨r.ended, ?_⟩
    refine (finish_run (settle_script hheld t r.ended) hrun).trans ?_
    rw [← hready.rest]
    rfl
  | cons b bs =>
    refine ⟨true, ?_⟩
    rw [takeAll_afterScript hready hheld hrun]
    exact finish_run (settle_arguments hready hheld t (b :: bs)) hrun

end Reading

open Reading

variable {fallback : Option Path} {r : Reading} {gs common options : List (List Argument)}

/-! ## Section 3: Words that name no command -/

theorem command?_eq_none {a : Argument} (h : a.head? = some 0x2D) (l : Level) :
    l.command? a = none := by
  have hall : ∀ l : Level, ∀ e ∈ l.below, e.1.head? ≠ some 0x2D := by
    intro l
    cases l <;> decide
  refine List.lookup_eq_none_iff.2 fun e he => ?_
  rw [bne_iff_ne]
  rintro rfl
  exact hall l e he h

theorem readFrom_word {a : Argument} (h : r.naming? a = none) (ws : List Argument) :
    readFrom fallback r (a :: ws) = r.take a >>= fun r => readFrom fallback r ws := by
  rw [readFrom, h]

theorem naming?_option {a : Argument} (h : a.head? = some 0x2D) (r : Reading) :
    r.naming? a = none := by
  unfold Reading.naming?
  split
  · rfl
  · exact command?_eq_none h r.level

theorem naming?_value (h : r.Awaits) (a : Argument) : r.naming? a = none := by
  obtain ⟨s, hheld⟩ := h.held
  have hwaiting : r.isWaiting = true := by unfold isWaiting; rw [hheld]
  unfold Reading.naming?
  rw [hwaiting, Bool.or_true, if_pos rfl]

/-- Where no commands stand below, every word is taken. -/
theorem readFrom_leaf (h : r.level.below = []) (ws : List Argument) :
    readFrom fallback r ws =
      (r.takeAll ws >>= fun r => r.finish fallback false) >>= fun r => pure [r] := by
  induction ws generalizing r with
  | nil => rfl
  | cons a ws ih =>
    have hnone : r.naming? a = none := by
      unfold Reading.naming? Level.command?
      rw [h]
      exact ite_self _
    rw [readFrom_word hnone, takeAll_cons]
    cases htake : r.take a with
    | error e => rfl
    | ok r' => exact ih ((level_take htake).symm ▸ h)

/-! ## Section 4: Options that go with every command -/

theorem readFrom_global_option (h : r.Ready) {g : List Argument} (hg : IsGlobalOption g)
    (ws : List Argument) :
    readFrom fallback r (g ++ ws) = r.takeAll g >>= fun r => readFrom fallback r ws := by
  cases hg with
  | @verbose a hverbose =>
    have hhead : a.head? = some 0x2D := by
      obtain rfl | ⟨n, rfl⟩ := exists_of_isVerbose hverbose <;> rfl
    rw [takeAll_single]
    exact readFrom_word (naming?_option hhead r) ws
  | settingsWith v =>
    rw [takeAll_single]
    exact readFrom_word (naming?_option rfl r) ws
  | settings v =>
    rw [takeAll_cons, List.cons_append, readFrom_word (naming?_option rfl r)]
    cases htake : r.take settingsOption with
    | error e => rfl
    | ok r' =>
      -- The next word is the value, even if it is the name of a command.
      have hawaits : r'.Awaits := by
        have hlong : r.take settingsOption = r.takeLong (word "config") :=
          take_long h.ended (by decide)
        have hname : (Utf8.decode (word "config")).bind r.level.long? =
            some (.setting .settings) := by
          rw [word, Utf8.decode_encode, Option.bind_some, (long?_common r.level).2]
        rw [takeLong_choice rfl hname] at hlong
        exact h.takeChoice_setting (hlong.symm.trans htake)
      show readFrom fallback r' (v :: ws) = takeAll r' [v] >>= _
      rw [takeAll_single]
      exact readFrom_word (naming?_value hawaits _) ws

/-- Once nothing can follow, the next word is a fault. -/
theorem readFrom_doomed (h : r.Doomed) (fallback : Option Path) (a : Argument) :
    ∃ e, r.take a = .error e ∧ ∀ ws, readFrom fallback r (a :: ws) = .error e := by
  cases htake : r.take a with
  | ok r' => exact absurd htake h.take_ne_ok
  | error e =>
    have hnone : r.naming? a = none := by
      unfold Reading.naming?
      rw [h.ended, Bool.true_or, if_pos rfl]
    refine ⟨e, rfl, fun ws => ?_⟩
    rw [readFrom_word hnone, htake]
    rfl

theorem readFrom_global (h : r.Ready) (hgs : ∀ g ∈ gs, IsGlobalOption g) (fallback : Option Path)
    (ws : List Argument) :
    readFrom fallback r (gs.flatten ++ ws) =
      r.takeAll gs.flatten >>= fun r => readFrom fallback r ws := by
  induction gs generalizing r with
  | nil => rfl
  | cons g gs ih =>
    rw [List.flatten_cons, List.append_assoc, takeAll_append,
      readFrom_global_option h (hgs g (List.mem_cons_self ..))]
    cases htake : r.takeAll g with
    | error e => rfl
    | ok r' =>
      rcases h.global_option (hgs g (List.mem_cons_self ..)) htake with hready | hdoomed
      · exact ih hready fun g hg => hgs g (List.mem_cons_of_mem _ hg)
      · show readFrom fallback r' (gs.flatten ++ ws) = r'.takeAll gs.flatten >>= _
        cases hwords : gs.flatten with
        | nil => rfl
        | cons a words =>
          obtain ⟨e, hfault, hread⟩ := readFrom_doomed hdoomed fallback a
          rw [List.cons_append, hread, takeAll_cons, hfault]
          rfl

/-! ## Section 5: The whole -/

theorem ready_begin (l : Level) : ({ level := l } : Reading).Ready := ⟨rfl, rfl, rfl, .inl rfl⟩

/-- In a ready reading of the program itself, a word that names a command does
    so. -/
theorem Reading.Ready.naming? (h : r.Ready) (htop : r.level = .top) (a : Argument) :
    r.naming? a = Level.top.command? a := by
  have hwaiting : r.isWaiting = false := by
    unfold isWaiting
    rcases h.held with hheld | ⟨s, v, hheld⟩ <;> rw [hheld]
  unfold Reading.naming?
  rw [h.ended, hwaiting, htop]
  rfl

/-- What stands in front of the name of a command is read without looking at
    what follows. -/
theorem readFrom_lead (hgs : ∀ g ∈ gs, IsGlobalOption g) {a : Argument} {l : Level}
    (ha : Level.top.command? a = some (.level l)) (fallback : Option Path) :
    (∃ e, ∀ ws, readFrom fallback { level := .top } (gs.flatten ++ a :: ws) = .error e) ∨
      ∃ r : Reading, ∀ ws,
        readFrom fallback { level := .top } (gs.flatten ++ a :: ws) =
          readFrom fallback { level := l } ws >>= fun inner =>
            r.finish fallback true >>= fun r => pure (r :: inner) := by
  have hread := readFrom_global (ready_begin .top) hgs fallback
  cases htake : ({ level := .top } : Reading).takeAll gs.flatten with
  | error e =>
    refine .inl ⟨e, fun ws => ?_⟩
    rw [hread, htake]
    rfl
  | ok r =>
    have hlevel : r.level = .top := level_takeAll htake
    rcases (ready_begin .top).global_options hgs htake with hready | hdoomed
    · refine .inr ⟨r, fun ws => ?_⟩
      rw [hread, htake]
      show readFrom fallback r (a :: ws) = _
      rw [readFrom, hready.naming? hlevel, ha]
    · obtain ⟨e, _, hfault⟩ := readFrom_doomed hdoomed fallback a
      refine .inl ⟨e, fun ws => ?_⟩
      rw [hread, htake]
      exact hfault ws

/-- After `run`, what follows the script changes nothing but its arguments. -/
theorem readFrom_script (hoptions : ∀ g ∈ options, IsRunOption g) {script : Text}
    (hscript : IsScriptWord (Utf8.encode script)) (fallback : Option Path) :
    (∃ e, ∀ args, readFrom fallback { level := .run }
        (options.flatten ++ Utf8.encode script :: afterScript args) = .error e) ∨
      ∃ r : Reading, r.level = .run ∧ r.script = some script ∧ ∀ args, ∃ ended,
        readFrom fallback { level := .run }
          (options.flatten ++ Utf8.encode script :: afterScript args) =
            .ok [{ r with rest := args, ended := ended }] := by
  have hread : ∀ args, readFrom fallback { level := .run }
      (options.flatten ++ Utf8.encode script :: afterScript args) =
      ((({ level := .run } : Reading).takeAll (options.flatten ++ [Utf8.encode script]) >>=
        fun r => r.takeAll (afterScript args) >>= fun r => r.finish fallback false) >>=
          fun r => pure [r]) := by
    intro args
    rw [readFrom_leaf rfl, List.append_cons, takeAll_append]
    cases ({ level := .run } : Reading).takeAll (options.flatten ++ [Utf8.encode script]) <;> rfl
  cases htake : ({ level := .run } : Reading).takeAll
      (options.flatten ++ [Utf8.encode script]) with
  | error e =>
    refine .inl ⟨e, fun args => ?_⟩
    rw [hread, htake]
    rfl
  | ok r =>
    have hsplit := htake
    rw [takeAll_append] at hsplit
    obtain ⟨r₁, hfirst, hlast⟩ := exists_of_bind_ok hsplit
    rw [takeAll_single] at hlast
    -- A missing value would have made the script a fault.
    have hready : r₁.Ready :=
      ((ready_begin .run).run_options rfl hoptions hfirst).resolve_right fun hdoomed =>
        hdoomed.take_ne_ok hlast
    obtain ⟨r₀, hready₀, hheld, hrun, rfl⟩ :=
      hready.take_script (level_takeAll hfirst) hscript hlast
    have hfinish := fun args => finish_after_script hready₀ hheld hrun script args fallback
    by_cases hlacks : r₀.lacksSettings fallback = true
    · refine .inl ⟨.misuse .badValue, fun args => ?_⟩
      obtain ⟨ended, hend⟩ := hfinish args
      rw [if_pos hlacks] at hend
      rw [hread, htake]
      show (Reading.takeAll _ (afterScript args) >>= _) >>= _ = _
      rw [hend]
      rfl
    · refine .inr ⟨{ r₀ with script := some script, begun := 1 }, hrun, rfl, fun args => ?_⟩
      obtain ⟨ended, hend⟩ := hfinish args
      rw [if_neg hlacks] at hend
      refine ⟨ended, ?_⟩
      rw [hread, htake]
      show (Reading.takeAll _ (afterScript args) >>= _) >>= _ = _
      rw [hend]
      rfl

/-- Both together: a fault in front of the arguments, or readings that differ in
    them alone. -/
theorem readFrom_lead_script (hcommon : ∀ g ∈ common, IsCommonOption g)
    (hoptions : ∀ g ∈ options, IsRunOption g) {script : Text}
    (hscript : IsScriptWord (Utf8.encode script)) (fallback : Option Path) :
    (∃ e, ∀ args, readFrom fallback { level := .top } (common.flatten ++ runWord ::
        (options.flatten ++ Utf8.encode script :: afterScript args)) = .error e) ∨
      ∃ top r : Reading, r.level = .run ∧ r.script = some script ∧ ∀ args, ∃ ended,
        readFrom fallback { level := .top } (common.flatten ++ runWord ::
          (options.flatten ++ Utf8.encode script :: afterScript args)) =
            .ok [top, { r with rest := args, ended := ended }] := by
  obtain ⟨e, hlead⟩ | ⟨top, hlead⟩ :=
    readFrom_lead (fun g hg => (hcommon g hg).isGlobal) (a := runWord) (l := .run) rfl fallback
  · exact .inl ⟨e, fun args => hlead _⟩
  obtain ⟨e, hinner⟩ | ⟨r, hrun, hr, hinner⟩ := readFrom_script hoptions hscript fallback
  · refine .inl ⟨e, fun args => ?_⟩
    rw [hlead, hinner]
    rfl
  -- What `top` still holds is looked at last.
  cases hfinish : top.finish fallback true with
  | error e =>
    refine .inl ⟨e, fun args => ?_⟩
    obtain ⟨ended, hread⟩ := hinner args
    rw [hlead, hread, hfinish]
    rfl
  | ok top' =>
    refine .inr ⟨top', r, hrun, hr, fun args => ?_⟩
    obtain ⟨ended, hread⟩ := hinner args
    refine ⟨ended, ?_⟩
    rw [hlead, hread, hfinish]
    rfl

/-- Of an order to run a script only the arguments depend on those read. -/
theorem exists_order (hrun : r.level = .run) {script : Text} (hr : r.script = some script)
    (top : Reading) (fallback : Option Path) :
    ∃ verbose settings, ∀ args ended,
      Order.ofReadings? fallback [top, { r with rest := args, ended := ended }] =
        some ⟨verbose, settings, .run r.preparation script args⟩ := by
  refine ⟨([r.verbose, top.verbose].find? (· != 0)).getD 0,
    ([r, top].findSome? (·.settings)).orElse fun _ => fallback, fun args ended => ?_⟩
  have hcommand : ({ r with rest := args, ended := ended } : Reading).command? =
      some (.run r.preparation script args) := by
    unfold command? scriptText
    dsimp only
    rw [hrun, hr]
    rfl
  unfold Order.ofReadings?
  simp only [List.getLast?_cons_cons, List.getLast?_singleton, Option.bind_eq_bind,
    Option.bind_some, hcommand]
  rfl

theorem read_of_error {program : Argument} {ws : List Argument} {e : Stop}
    (h : readFrom fallback { level := .top } ws = .error e) :
    read fallback (program :: ws) = .error e := by
  rw [read, List.tail_cons, h]
  rfl

theorem read_of_ok {program : Argument} {ws : List Argument} {rs : List Reading} {o : Order}
    (h : readFrom fallback { level := .top } ws = .ok rs)
    (ho : Order.ofReadings? fallback rs = some o) : read fallback (program :: ws) = .ok o := by
  rw [read, List.tail_cons, h]
  dsimp only [bind, Except.bind]
  rw [ho]
  rfl

/-- An order is made of readings. -/
theorem exists_readings {program : Argument} {ws : List Argument} {o : Order}
    (h : read fallback (program :: ws) = .ok o) :
    ∃ rs, readFrom fallback { level := .top } ws = .ok rs ∧
      Order.ofReadings? fallback rs = some o := by
  obtain ⟨rs, hread, horder⟩ := exists_of_bind_ok h
  refine ⟨rs, hread, ?_⟩
  split at horder
  · next o' ho' =>
    cases horder
    exact ho'
  · cases horder

/-- The command of an order is that of the last reading. -/
theorem exists_command? {rs : List Reading} {o : Order}
    (h : Order.ofReadings? fallback rs = some o) :
    ∃ last, rs.getLast? = some last ∧ last.command? = some o.command := by
  obtain ⟨last, hlast, h⟩ := Option.bind_eq_some_iff.1 h
  obtain ⟨c, hcommand, h⟩ := Option.bind_eq_some_iff.1 h
  cases h
  exact ⟨last, hlast, hcommand⟩

/-- Reading ends with the same order, or the same fault, whatever follows the
    script: the words after it are its arguments, as they are and in order. -/
theorem read_script_arguments (fallback : Option Path) (program : Argument) {named : Bool}
    (hcommon : ∀ g ∈ common, IsCommonOption g) (hoptions : ∀ g ∈ options, IsRunOption g)
    {script : Text} (hscript : IsScriptWord (Utf8.encode script))
    (hcommand : named = true ∨ (∃ g ∈ options, ¬ IsCommonOption g) ∨
      Utf8.encode script ∉ commandWords) (args : List Text) :
    (∃ stop,
      readNormal fallback (program :: lead common named options ++ [Utf8.encode script]) =
        .error stop ∧
      readNormal fallback (program :: lead common named options ++
        Utf8.encode script :: args.map Utf8.encode) = .error stop) ∨
    ∃ verbose settings preparation,
      readNormal fallback (program :: lead common named options ++ [Utf8.encode script]) =
        .ok ⟨verbose, settings, .run preparation script []⟩ ∧
      readNormal fallback (program :: lead common named options ++
        Utf8.encode script :: args.map Utf8.encode) =
        .ok ⟨verbose, settings, .run preparation script args⟩ := by
  obtain ⟨common', options', hcommon', hoptions', hnormal⟩ :=
    exists_normal hcommon hoptions hscript hcommand
  -- Both command lines have one normal form up to what follows the script.
  have hread : ∀ args : List Text, readNormal fallback (program :: lead common named options ++
      Utf8.encode script :: args.map Utf8.encode) =
      read fallback (program :: (common'.flatten ++ runWord ::
        (options'.flatten ++ Utf8.encode script :: afterScript args))) := by
    intro args
    have hmark : markScript (Utf8.encode script :: args.map Utf8.encode) =
        Utf8.encode script :: afterScript args := by
      rw [hscript.markScript]
      cases args <;> rfl
    rw [readNormal, hnormal, hmark]
    rfl
  have hnone := hread []
  rw [List.map_nil] at hnone
  rw [hnone, hread args]
  obtain ⟨e, hfault⟩ | ⟨top, r, hrun, hr, hreadings⟩ :=
    readFrom_lead_script hcommon' hoptions' hscript fallback
  · exact .inl ⟨e, read_of_error (hfault []), read_of_error (hfault args)⟩
  · obtain ⟨verbose, settings, horder⟩ := exists_order hrun hr top fallback
    have hok : ∀ args, read fallback (program :: (common'.flatten ++ runWord ::
        (options'.flatten ++ Utf8.encode script :: afterScript args))) =
        .ok ⟨verbose, settings, .run r.preparation script args⟩ := by
      intro args
      obtain ⟨ended, hread⟩ := hreadings args
      exact read_of_ok hread (horder args ended)
    exact .inr ⟨verbose, settings, r.preparation, hok [], hok args⟩

/-- Options, `--` and the names of commands are arguments after a script. -/
theorem read_script_arguments_help :
    readNormal none (["swift-sh", "-v", "--swift-path=/s", "a.swift", "--help", "--", "clean"].map
        word) =
      .ok ⟨1, none, .run { swift := some "/s" } "a.swift".toList
        ["--help".toList, "--".toList, "clean".toList]⟩ := by
  have hcommon : ∀ g ∈ [[word "-v"]], IsCommonOption g := by
    intro g hg
    rw [List.mem_singleton.1 hg]
    exact .verbose (by decide)
  have hoptions : ∀ g ∈ [[word "--swift-path=" ++ Utf8.encode "/s".toList]], IsRunOption g := by
    intro g hg
    rw [List.mem_singleton.1 hg]
    exact .swiftWith _
  have hscript : IsScriptWord (Utf8.encode "a.swift".toList) := by decide
  have hcommand : false = true ∨
      (∃ g ∈ [[word "--swift-path=" ++ Utf8.encode "/s".toList]], ¬ IsCommonOption g) ∨
      Utf8.encode "a.swift".toList ∉ commandWords := .inr (.inr (by decide))
  have halone : (readNormal none (["swift-sh", "-v", "--swift-path=/s", "a.swift"].map
      word)).toOption = some ⟨1, none, .run { swift := some "/s" } "a.swift".toList []⟩ := by
    decide +kernel
  obtain ⟨stop, hread, _⟩ | ⟨verbose, settings, preparation, hread, hargs⟩ :=
    read_script_arguments none (word "swift-sh") hcommon hoptions hscript hcommand
      ["--help".toList, "--".toList, "clean".toList]
  · have hfault := congrArg Except.toOption hread
    cases halone.symm.trans hfault
  · have hvalue := congrArg Except.toOption hread
    cases halone.symm.trans hvalue
    exact hargs

end CommandLine
end ScriptDeps
