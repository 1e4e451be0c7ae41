import ScriptDeps.Proofs.Text.Number
import ScriptDeps.Toml.Quoted

/-! # TOML strings there and back

    Whatever text is written as a string, in whichever of the four ways, the
    string is read back as that text, and nothing in it closes it early
    (`read?_write`).  In a block up to two quotes may stand in a row, and even
    before the closing ones; so a reader that has seen some quotes does not yet
    know what they are, and the inductions keep them in front of the text. -/

namespace ScriptDeps
namespace Toml
namespace Quoted

variable {q c : Char} {t s rest : Text} {n : Nat}

/-! ## Section 1: Quotes -/

theorem closing_replicate (hn : n ≤ 2) (hrest : rest.head? ≠ some q) :
    closing q (List.replicate n q ++ rest) = (List.replicate n q, rest) := by
  have hhead : ∀ a r, rest = a :: r → a ≠ q := by
    rintro a r rfl rfl
    exact hrest rfl
  have hnone : closing q rest = ([], rest) := by
    match rest, hhead with
    | [], _ => rfl
    | [a], hhead => simp [closing, hhead a [] rfl]
    | a :: b :: r, hhead => simp [closing, hhead a _ rfl]
  have hone : closing q (q :: rest) = ([q], rest) := by
    match rest, hhead with
    | [], _ => simp [closing]
    | a :: r, hhead => simp [closing, hhead a r rfl]
  match n, hn with
  | 0, _ => exact hnone
  | 1, _ => exact hone
  | 2, _ => simp [closing, List.replicate]

/-- A run is as long as what stands before the text. -/
theorem le_longestRun (q : Char) (n : Nat) (t : Text) : n ≤ longestRun q n t := by
  induction t generalizing n with
  | nil => exact Nat.le_refl n
  | cons c t ih =>
    rw [longestRun]
    split
    · exact Nat.le_trans (Nat.le_succ n) (ih (n + 1))
    · exact Nat.le_max_left ..

theorem notMem_of_longestRun (h : longestRun q 0 t = 0) : q ∉ t := by
  induction t with
  | nil => exact List.not_mem_nil
  | cons c t ih =>
    rw [longestRun] at h
    split at h
    · have hle := le_longestRun q (0 + 1) t
      omega
    · next hc =>
      have hrest := ih (by omega)
      intro hq
      rcases List.mem_cons.1 hq with rfl | hq
      · exact hc rfl
      · exact hrest hq

/-! ## Section 2: Escapes -/

theorem value?_upperDigit {d : Nat} (h : d < 16) : Hex.value? (upperDigit d) = some d := by
  have hall : ∀ d < 16, Hex.value? (upperDigit d) = some d := by decide
  exact hall d h

theorem isForbidden_lt (h : isForbidden c = true) : c.toNat < 0x80 := by
  simp only [isForbidden, Bool.or_eq_true, Bool.and_eq_true, decide_eq_true_eq] at h
  omega

/-- The ways in which a character is written among escapes. -/
inductive Escaped (block : Bool) (c : Char) : Text → Prop
  | asItIs (hquote : c ≠ '"') (hslash : c ≠ '\\') (hplain : takePlain block c = .emit c) :
      Escaped block c [c]
  | simple (e : Char) (h : simpleEscape? e = some c) : Escaped block c ['\\', e]
  | code (high low : Char) (x y : Nat) (hhigh : Hex.value? high = some x)
      (hlow : Hex.value? low = some y) (hvalue : 16 * x + y = c.toNat) :
      Escaped block c ['\\', 'u', '0', '0', high, low]

theorem escaped_escapeChar (block : Bool) (hc : c ≠ '"') :
    Escaped block c (escapeChar block c) := by
  unfold escapeChar
  by_cases h₁ : c = '\\'
  · rw [if_pos h₁, h₁]
    exact .simple '\\' rfl
  rw [if_neg h₁]
  by_cases h₂ : c = '\x08'
  · rw [if_pos h₂, h₂]
    exact .simple 'b' rfl
  rw [if_neg h₂]
  by_cases h₃ : c = '\t'
  · rw [if_pos h₃, h₃]
    exact .simple 't' rfl
  rw [if_neg h₃]
  by_cases h₄ : c = '\n'
  · rw [if_pos h₄, h₄]
    cases block with
    | true => exact .asItIs (by decide) (by decide) (by decide)
    | false => exact .simple 'n' rfl
  rw [if_neg h₄]
  by_cases h₅ : c = '\x0c'
  · rw [if_pos h₅, h₅]
    exact .simple 'f' rfl
  rw [if_neg h₅]
  by_cases h₆ : c = '\r'
  · rw [if_pos h₆, h₆]
    exact .simple 'r' rfl
  rw [if_neg h₆]
  by_cases h₇ : isForbidden c = true
  · rw [if_pos h₇]
    have hlt := isForbidden_lt h₇
    exact .code _ _ _ _ (value?_upperDigit (by omega)) (value?_upperDigit (by omega)) (by omega)
  · rw [if_neg h₇]
    refine .asItIs hc h₁ ?_
    rw [takePlain, if_neg]
    simp [h₄, h₇]

/-- What a character is written as does not start with a quote. -/
theorem Escaped.head?_ne {block : Bool} (h : Escaped block c s) (rest : Text) :
    (s ++ rest).head? ≠ some '"' := by
  cases h with
  | asItIs hquote => simpa using hquote
  | simple | code => simp

/-- What a code point of two more digits stands for. -/
theorem inCode_emit {high low : Char} {x y : Nat} (hhigh : Hex.value? high = some x)
    (hlow : Hex.value? low = some y) (hvalue : 16 * x + y = c.toNat) :
    Spot.inCode 1 0 high = .move (.code 0 x) ∧ Spot.inCode 0 x low = .emit c := by
  have hsum : x * 16 + y = c.toNat := by omega
  constructor
  · simp [Spot.inCode, hhigh]
  · have hvalid : c.toNat.isValidChar := c.valid
    simp only [Spot.inCode, hlow, hsum, if_pos hvalid, Char.ofNat_toNat, if_true]

/-! ## Section 3: Strings on one line -/

theorem basic?_plain (hq : c ≠ '"') (hb : c ≠ '\\') (h : takePlain false c = .emit c) (s : Text) :
    basic? .plain (c :: s) = push c (basic? .plain s) := by
  rw [basic?]
  · rw [h]
  · exact hq
  · exact hb

theorem basic?_escaped (h : Escaped false c t) (s : Text) :
    basic? .plain (t ++ s) = push c (basic? .plain s) := by
  cases h with
  | asItIs hquote hslash hplain => exact basic?_plain hquote hslash hplain s
  | simple e he => simp [basic?, Spot.afterBackslash, he]
  | code high low x y hhigh hlow hvalue =>
    obtain ⟨hmove, hemit⟩ := inCode_emit hhigh hlow hvalue
    have hu : Spot.afterBackslash false 'u' = .move (.code 3 0) := rfl
    have hzero : ∀ left, Spot.inCode (left + 1) 0 '0' = .move (.code left 0) := fun left => rfl
    simp [basic?, hu, hzero, hmove, hemit]

/-- A text with all its quotes escaped is read up to the closing quote. -/
theorem basic?_escape (t : Text) (n : Nat) (rest : Text) :
    basic? .plain (escape false 0 n t ++ '"' :: rest) = some (t, rest) := by
  induction t generalizing n with
  | nil => rfl
  | cons c t ih =>
    have hchar : ∀ {s : Text}, Escaped false c s →
        basic? .plain (s ++ (escape false 0 0 t ++ '"' :: rest)) = some (c :: t, rest) := by
      intro s hesc
      rw [basic?_escaped hesc, ih]
      rfl
    rw [escape]
    by_cases hc : c = '"'
    · subst hc
      rw [if_pos rfl, if_neg (Nat.not_lt_zero n)]
      exact hchar (.simple '"' rfl)
    · rw [if_neg hc, List.append_assoc]
      exact hchar (escaped_escapeChar false hc)

theorem literal?_append (hquote : '\'' ∉ t) (hplain : ∀ c ∈ t, takePlain false c = .emit c)
    (rest : Text) : literal? (t ++ '\'' :: rest) = some (t, rest) := by
  induction t with
  | nil => rfl
  | cons c t ih =>
    have hc : c ≠ '\'' := fun h => hquote (h ▸ List.mem_cons_self ..)
    rw [List.cons_append, literal?]
    · rw [hplain c (List.mem_cons_self ..),
        ih (fun h => hquote (List.mem_cons_of_mem c h))
          fun d hd => hplain d (List.mem_cons_of_mem c hd)]
      rfl
    · exact hc

/-! ## Section 4: Blocks -/

/-- Of quotes that close a block at most two stand in front of the text. -/
theorem head?_of_replicate (hn : n + 1 ≤ 2) (h : List.replicate n q ++ s = q :: q :: t) :
    s.head? = some q := by
  match n, hn with
  | 0, _ =>
    have hs : s = q :: q :: t := h
    rw [hs]
    rfl
  | 1, _ =>
    have hs : s = q :: t := (List.cons.inj h).2
    rw [hs]
    rfl

/-- A reader that takes a quote in unless two more follow has up to two quotes
    before something else in its text. -/
theorem block?_replicate (read : Text → Option (Text × Text))
    (hread : ∀ s, (∀ r, s ≠ q :: q :: r) → read (q :: s) = push q (read s)) (hn : n ≤ 2)
    (hs : s.head? ≠ some q) {r : Text × Text} (h : read s = some r) :
    read (List.replicate n q ++ s) = some (List.replicate n q ++ r.1, r.2) := by
  induction n with
  | zero => exact h
  | succ n ih =>
    have hfollow : ∀ rest, List.replicate n q ++ s ≠ q :: q :: rest := fun rest heq =>
      hs (head?_of_replicate hn heq)
    rw [List.replicate_succ, List.cons_append, hread _ hfollow, ih (by omega)]
    rfl

/-- The first three of the quotes close the block, and the others belong to it. -/
theorem replicate_triple (q : Char) (n : Nat) (rest : Text) :
    List.replicate n q ++ (triple q ++ rest) = triple q ++ (List.replicate n q ++ rest) := by
  induction n with
  | zero => rfl
  | succ n ih =>
    rw [List.replicate_succ, List.cons_append, ih]
    rfl

theorem basicBlock?_plain (hq : ∀ r, c = '"' → s ≠ '"' :: '"' :: r) (hb : c ≠ '\\')
    (h : takePlain true c = .emit c) :
    basicBlock? .plain (c :: s) = push c (basicBlock? .plain s) := by
  rw [basicBlock?]
  · rw [h]
  · exact hq
  · exact hb

theorem basicBlock?_escaped (h : Escaped true c t) (s : Text) :
    basicBlock? .plain (t ++ s) = push c (basicBlock? .plain s) := by
  cases h with
  | asItIs hquote hslash hplain =>
    exact basicBlock?_plain (fun _ hc => absurd hc hquote) hslash hplain
  | simple e he => simp [basicBlock?, Spot.afterBackslash, he]
  | code high low x y hhigh hlow hvalue =>
    obtain ⟨hmove, hemit⟩ := inCode_emit hhigh hlow hvalue
    have hu : Spot.afterBackslash true 'u' = .move (.code 3 0) := rfl
    have hzero : ∀ left, Spot.inCode (left + 1) 0 '0' = .move (.code left 0) := fun left => rfl
    simp [basicBlock?, hu, hzero, hmove, hemit]

/-- A text is read up to the closing quotes.  So are the quotes that stand
    before it, of which no more than two are left without an escape. -/
theorem basicBlock?_escape (t : Text) (hn : n ≤ 2) (hrest : rest.head? ≠ some '"') :
    basicBlock? .plain (List.replicate n '"' ++ (escape true 2 n t ++ (triple '"' ++ rest))) =
      some (List.replicate n '"' ++ t, rest) := by
  have hquote : ∀ s, (∀ r, s ≠ '"' :: '"' :: r) →
      basicBlock? .plain ('"' :: s) = push '"' (basicBlock? .plain s) := fun s hs =>
    basicBlock?_plain (fun r _ => hs r) (by decide) (by decide)
  induction t generalizing n with
  | nil =>
    have hnone : escape true 2 n [] = [] := rfl
    rw [hnone, List.nil_append, replicate_triple, List.append_nil]
    show some (closing '"' (List.replicate n '"' ++ rest)) = _
    rw [closing_replicate hn hrest]
  | cons c t ih =>
    -- After an escape nothing stands in front of the rest.
    have hchar : ∀ {s : Text}, Escaped true c s →
        basicBlock? .plain (s ++ (escape true 2 0 t ++ (triple '"' ++ rest))) =
          some (c :: t, rest) := by
      intro s hesc
      have hnext := ih (n := 0) (Nat.zero_le _)
      rw [List.replicate_zero, List.nil_append, List.nil_append] at hnext
      rw [basicBlock?_escaped hesc, hnext]
      rfl
    rw [escape]
    by_cases hc : c = '"'
    · subst hc
      rw [if_pos rfl]
      by_cases hrun : n < 2
      · have hnext := ih (n := n + 1) (by omega)
        rw [List.replicate_succ', List.append_assoc, List.append_assoc] at hnext
        rw [if_pos hrun]
        exact hnext
      · have hesc : Escaped true '"' ['\\', '"'] := .simple '"' rfl
        rw [if_neg hrun]
        exact block?_replicate (basicBlock? .plain) hquote hn (hesc.head?_ne _) (hchar hesc)
    · have hesc := escaped_escapeChar true hc
      rw [if_neg hc, List.append_assoc]
      exact block?_replicate (basicBlock? .plain) hquote hn (hesc.head?_ne _) (hchar hesc)

theorem literalBlock?_plain (hq : ∀ r, c = '\'' → s ≠ '\'' :: '\'' :: r)
    (h : takePlain true c = .emit c) :
    literalBlock? (c :: s) = push c (literalBlock? s) := by
  rw [literalBlock?]
  · rw [h]
  · exact hq

theorem literalBlock?_append (hruns : longestRun '\'' n t ≤ 2)
    (hplain : ∀ c ∈ t, takePlain true c = .emit c) (hrest : rest.head? ≠ some '\'') :
    literalBlock? (List.replicate n '\'' ++ (t ++ (triple '\'' ++ rest))) =
      some (List.replicate n '\'' ++ t, rest) := by
  -- By induction on the text, with the quotes that have just been passed; three in a row
  -- would end the block, and no run in the text is as long.
  have hn : n ≤ 2 := Nat.le_trans (le_longestRun _ _ _) hruns
  have hquote : ∀ s, (∀ r, s ≠ '\'' :: '\'' :: r) →
      literalBlock? ('\'' :: s) = push '\'' (literalBlock? s) := fun s hs =>
    literalBlock?_plain (fun r _ => hs r) (by decide)
  induction t generalizing n with
  | nil =>
    rw [List.nil_append, replicate_triple, List.append_nil]
    show some (closing '\'' (List.replicate n '\'' ++ rest)) = _
    rw [closing_replicate hn hrest]
  | cons c t ih =>
    rw [longestRun] at hruns
    have hplain' : ∀ d ∈ t, takePlain true d = .emit d :=
      fun d hd => hplain d (List.mem_cons_of_mem c hd)
    by_cases hc : c = '\''
    · subst hc
      rw [if_pos rfl] at hruns
      have hnext := ih hruns hplain' (Nat.le_trans (le_longestRun _ _ _) hruns)
      rw [List.replicate_succ', List.append_assoc, List.append_assoc] at hnext
      exact hnext
    · rw [if_neg hc] at hruns
      have hnext : literalBlock? (c :: (t ++ (triple '\'' ++ rest))) = some (c :: t, rest) := by
        rw [literalBlock?_plain (fun _ h => absurd h hc) (hplain c (List.mem_cons_self ..)),
          show literalBlock? (t ++ (triple '\'' ++ rest)) = _ from
            ih (n := 0) (by omega) hplain' (by omega)]
        rfl
      exact block?_replicate literalBlock? hquote hn (by simpa using hc) hnext

/-! ## Section 5: Any string -/

/-- What does not start with three quotes is a string on one line. -/
theorem read?_line (hdouble : ¬ triple '"' <+: s) (hsingle : ¬ triple '\'' <+: s) :
    read? s = readLine? s := by
  rw [read?]
  · intro r heq
    exact hdouble ⟨r, heq.symm⟩
  · intro r heq
    exact hsingle ⟨r, heq.symm⟩

theorem dropOpening_opening (hs : s.head? = some '\n' → '\n' ∈ t) :
    dropOpening (opening t ++ s) = s := by
  unfold opening
  split
  · rfl
  · next hnone =>
    rw [List.nil_append, dropOpening]
    rintro r rfl
    exact hnone (List.any_eq_true.2 ⟨_, hs rfl, by decide⟩)

/-- Only the empty text is written as the closing quote alone. -/
theorem head?_escape (t : Text) (rest : Text)
    (h : (escape false 0 0 t ++ '"' :: rest).head? = some '"') : t = [] := by
  cases t with
  | nil => rfl
  | cons c t =>
    rw [escape] at h
    by_cases hc : c = '"'
    · rw [if_pos hc, if_neg (Nat.lt_irrefl 0)] at h
      cases h
    · rw [if_neg hc, List.append_assoc] at h
      exact absurd h ((escaped_escapeChar false hc).head?_ne _)

theorem read?_basic (t : Text) (hrest : rest.head? ≠ some '"') :
    read? (writeAs .basic t ++ rest) = some (t, rest) := by
  have htext : writeAs .basic t ++ rest = '"' :: (escape false 0 0 t ++ '"' :: rest) := by
    simp [writeAs]
  rw [htext, read?_line]
  · exact basic?_escape t 0 rest
  · rintro ⟨r, heq⟩
    have hinner := (List.cons.inj heq).2
    obtain rfl := head?_escape t rest (by rw [← hinner]; rfl)
    exact hrest (by rw [← (List.cons.inj hinner).2]; rfl)
  · rintro ⟨r, heq⟩
    exact absurd (List.cons.inj heq).1 (by decide)

theorem read?_literal (hquote : '\'' ∉ t) (hplain : ∀ c ∈ t, takePlain false c = .emit c)
    (hrest : rest.head? ≠ some '\'') : read? (writeAs .literal t ++ rest) = some (t, rest) := by
  have htext : writeAs .literal t ++ rest = '\'' :: (t ++ '\'' :: rest) := by simp [writeAs]
  rw [htext, read?_line]
  · exact literal?_append hquote hplain rest
  · rintro ⟨r, heq⟩
    exact absurd (List.cons.inj heq).1 (by decide)
  · rintro ⟨r, heq⟩
    have hinner := (List.cons.inj heq).2
    cases t with
    | nil => exact hrest (by rw [← (List.cons.inj hinner).2]; rfl)
    | cons c t => exact hquote (by rw [(List.cons.inj hinner).1]; exact List.mem_cons_self ..)

theorem read?_basicBlock (t : Text) (hrest : rest.head? ≠ some '"') :
    read? (writeAs .basicBlock t ++ rest) = some (t, rest) := by
  have htext : writeAs .basicBlock t ++ rest =
      triple '"' ++ (opening t ++ (escape true 2 0 t ++ (triple '"' ++ rest))) := by
    simp [writeAs]
  have hhead : (escape true 2 0 t ++ (triple '"' ++ rest)).head? = some '\n' → '\n' ∈ t := by
    intro h
    cases t with
    | nil => cases h
    | cons c t =>
      rw [escape] at h
      by_cases hc : c = '"'
      · rw [if_pos hc, if_pos (by decide)] at h
        cases h
      · rw [if_neg hc, List.append_assoc] at h
        -- A character that is not a line feed is not written with one in front.
        have hesc := escaped_escapeChar true hc
        generalize escapeChar true c = w at h hesc
        cases hesc with
        | asItIs => exact List.mem_cons.2 (.inl (Option.some.inj h).symm)
        | simple => cases h
        | code => cases h
  rw [htext]
  exact (congrArg (basicBlock? .plain) (dropOpening_opening hhead)).trans
    (basicBlock?_escape t (Nat.zero_le 2) hrest)

theorem read?_literalBlock (hruns : longestRun '\'' 0 t ≤ 2)
    (hplain : ∀ c ∈ t, takePlain true c = .emit c) (hrest : rest.head? ≠ some '\'') :
    read? (writeAs .literalBlock t ++ rest) = some (t, rest) := by
  have htext : writeAs .literalBlock t ++ rest =
      triple '\'' ++ (opening t ++ (t ++ (triple '\'' ++ rest))) := by
    simp [writeAs]
  have hhead : (t ++ (triple '\'' ++ rest)).head? = some '\n' → '\n' ∈ t := by
    intro h
    cases t with
    | nil => cases h
    | cons c t => exact List.mem_cons.2 (.inl (Option.some.inj h).symm)
  rw [htext]
  exact (congrArg literalBlock? (dropOpening_opening hhead)).trans
    (literalBlock?_append hruns hplain hrest)

theorem takePlain_eq_emit {block : Bool} (h : isForbidden c = false)
    (hbreak : c = '\n' → block = true) : takePlain block c = .emit c := by
  rw [takePlain, if_neg]
  simpa [h] using hbreak

/-- The ways in which a text can be written. -/
inductive Suits : Style → Text → Prop
  | basic (t : Text) : Suits .basic t
  | basicBlock (t : Text) : Suits .basicBlock t
  | literal {t : Text} (hplain : ∀ c ∈ t, isForbidden c = false) (hquote : '\'' ∉ t)
      (hbreak : '\n' ∉ t) : Suits .literal t
  | literalBlock {t : Text} (hplain : ∀ c ∈ t, isForbidden c = false)
      (hruns : longestRun '\'' 0 t ≤ 2) : Suits .literalBlock t

theorem suits_style (t : Text) : Suits (style t) t := by
  have hallowed : t.any isForbidden = false → ∀ c ∈ t, isForbidden c = false := by
    intro h c hc
    simpa using List.any_eq_false.1 h c hc
  unfold style
  dsimp only
  split
  · exact .basic t
  · split
    · next hform =>
      simp only [Bool.and_eq_true, Bool.not_eq_true', decide_eq_true_eq] at hform
      refine .literal (hallowed hform.1.1) (notMem_of_longestRun hform.1.2) ?_
      intro hbreak
      exact List.any_eq_false.1 hform.2 _ hbreak (by decide)
    · split
      · exact .basicBlock t
      · split
        · next hform =>
          simp only [Bool.and_eq_true, Bool.not_eq_true', decide_eq_true_eq] at hform
          exact .literalBlock (hallowed hform.1) hform.2
        · split
          · exact .basicBlock t
          · exact .basic t

/-- A text is read back from the string that it is written as. -/
theorem read?_write (t : Text) (hdouble : rest.head? ≠ some '"')
    (hsingle : rest.head? ≠ some '\'') : read? (write t ++ rest) = some (t, rest) := by
  have hsuits := suits_style t
  unfold write
  generalize style t = w at hsuits
  cases hsuits with
  | basic => exact read?_basic t hdouble
  | basicBlock => exact read?_basicBlock t hdouble
  | literal hplain hquote hbreak =>
    refine read?_literal hquote ?_ hsingle
    intro c hc
    apply takePlain_eq_emit (hplain c hc)
    rintro rfl
    exact absurd hc hbreak
  | literalBlock hplain hruns =>
    refine read?_literalBlock hruns ?_ hsingle
    intro c hc
    exact takePlain_eq_emit (hplain c hc) fun _ => rfl

/-! ## Section 6: Line ends -/

theorem Escaped.return_notMem {block : Bool} (h : Escaped block c s) : '\r' ∉ s := by
  intro hmem
  cases h with
  | asItIs hquote hslash hplain =>
    obtain rfl := List.mem_singleton.1 hmem
    exact absurd hplain (by cases block <;> decide)
  | simple e he =>
    simp only [List.mem_cons, List.not_mem_nil, or_false] at hmem
    rcases hmem with hmem | rfl
    · exact absurd hmem (by decide)
    · cases he
  | code high low x y hhigh hlow =>
    simp only [List.mem_cons, List.not_mem_nil, or_false] at hmem
    rcases hmem with hmem | hmem | hmem | hmem | rfl | rfl
    · exact absurd hmem (by decide)
    · exact absurd hmem (by decide)
    · exact absurd hmem (by decide)
    · exact absurd hmem (by decide)
    · cases hhigh
    · cases hlow

theorem return_notMem_escape (block : Bool) (allowed n : Nat) (t : Text) :
    '\r' ∉ escape block allowed n t := by
  induction t generalizing n with
  | nil => exact List.not_mem_nil
  | cons c t ih =>
    rw [escape]
    split
    · split
      · simp [ih]
      · simp [ih]
    · next hc =>
      rw [List.mem_append, not_or]
      exact ⟨(escaped_escapeChar block hc).return_notMem, ih 0⟩

/-- A string has no carriage return in it. -/
theorem return_notMem_write (t : Text) : '\r' ∉ write t := by
  have hopening : '\r' ∉ opening t := by
    unfold opening
    split <;> decide
  have hallowed : (∀ c ∈ t, isForbidden c = false) → '\r' ∉ t := by
    intro hplain hmem
    exact absurd (hplain _ hmem) (by decide)
  have hsuits := suits_style t
  unfold write
  generalize style t = w at hsuits
  cases hsuits with
  | basic => simp [writeAs, return_notMem_escape]
  | basicBlock => simp [writeAs, triple, hopening, return_notMem_escape]
  | literal hplain => simp [writeAs, hallowed hplain]
  | literalBlock hplain => simp [writeAs, triple, hopening, hallowed hplain]

end Quoted
end Toml
end ScriptDeps
