import ScriptDeps.CommandLine.Reader
import ScriptDeps.Proofs.CommandLine.Options

/-! # Reading options

    Between two options a reading is ready for the next one (`Ready`); after an
    option without its value it awaits the value (`Awaits`).  Each whole option
    leaves a ready reading, or one in which nothing can follow any more
    (`Doomed`): so does every sequence of them (`Ready.sequence`).  No
    argument leaves the command that is read (`level_take`). -/

namespace ScriptDeps
namespace CommandLine

/-- What a computation that succeeds has gone through. -/
theorem exists_of_bind_ok {ε α β : Type} {x : Except ε α} {f : α → Except ε β} {b : β}
    (h : x >>= f = .ok b) : ∃ a, x = .ok a ∧ f a = .ok b := by
  cases x with
  | error e => cases h
  | ok a => exact ⟨a, rfl, h⟩

theorem eq_ok_of_toOption {ε α : Type} {x : Except ε α} {a : α} (hx : x.toOption = some a) :
    x = .ok a := by
  cases x with
  | error e => cases hx
  | ok b => exact congrArg Except.ok (Option.some.inj hx)

namespace Reading

/-! ## Section 1: Model -/

/-- Takes arguments in order. -/
def takeAll (r : Reading) (ws : List Argument) : Except Stop Reading := ws.foldlM take r

/-- No operand has been read, and no value is due. -/
structure Ready (r : Reading) : Prop where
  ended : r.ended = false
  begun : r.begun = 0
  rest  : r.rest = []
  held  : r.held = none ∨ ∃ s v, r.held = some (.setting s (some v))

/-- The next argument is the value of an option. -/
structure Awaits (r : Reading) : Prop where
  ended : r.ended = false
  begun : r.begun = 0
  rest  : r.rest = []
  held  : ∃ s, r.held = some (.setting s none)

/-- The options have ended in front of a value. -/
structure Doomed (r : Reading) : Prop where
  ended : r.ended = true
  held  : ∃ s, r.held = some (.setting s none)

variable {r r' : Reading} {a : Argument} {gs : List (List Argument)}

theorem takeAll_cons (r : Reading) (a : Argument) (ws : List Argument) :
    r.takeAll (a :: ws) = r.take a >>= fun r => r.takeAll ws := List.foldlM_cons

theorem takeAll_single (r : Reading) (a : Argument) : r.takeAll [a] = r.take a := by
  rw [takeAll_cons]
  cases r.take a <;> rfl

theorem takeAll_append (r : Reading) (xs ys : List Argument) :
    r.takeAll (xs ++ ys) = r.takeAll xs >>= fun r => r.takeAll ys := List.foldlM_append

/-! ## Section 2: The command that is read -/

theorem takeSetting_ok {v : Option Argument} {s : Setting} (h : r.takeSetting v s = .ok r') :
    ∃ settings swift, r' = { r with settings := settings, swift := swift } := by
  cases s with
  | settings =>
    obtain ⟨p, _, hp⟩ := exists_of_bind_ok h
    exact ⟨p, r.swift, (Except.ok.inj hp).symm⟩
  | swift =>
    obtain ⟨p, _, hp⟩ := exists_of_bind_ok h
    exact ⟨r.settings, p, (Except.ok.inj hp).symm⟩

theorem level_takeSetting {v : Option Argument} {s : Setting} (h : r.takeSetting v s = .ok r') :
    r'.level = r.level := by
  obtain ⟨settings, swift, rfl⟩ := takeSetting_ok h
  rfl

theorem level_takeOperand {vs : List Argument} {o : Operand} (h : r.takeOperand vs o = .ok r') :
    r'.level = r.level := by
  cases o with
  | script | arguments | targets =>
    obtain ⟨ts, _, hts⟩ := exists_of_bind_ok h
    cases hts
    rfl
  | shell =>
    unfold takeOperand at h
    dsimp only at h
    split at h <;> cases h
    rfl

theorem level_settle (h : r.settle = .ok r') : r'.level = r.level := by
  unfold settle at h
  split at h
  · cases h
    rfl
  · have hlevel := level_takeSetting h
    exact hlevel
  · have hlevel := level_takeOperand h
    exact hlevel

theorem level_takeFlag {f : Flag} (h : r.takeFlag f = .ok r') : r'.level = r.level := by
  unfold takeFlag at h
  split at h <;> cases h
  rfl

theorem level_takeChoice {c : Choice} (h : r.takeChoice c = .ok r') : r'.level = r.level := by
  obtain ⟨r₁, hsettle, hrest⟩ := exists_of_bind_ok h
  rw [← level_settle hsettle]
  cases c with
  | help | version => cases hrest
  | verbose | setting s =>
    cases hrest
    rfl
  | flag f => exact level_takeFlag hrest

theorem level_takeShort {cs : Text} (h : r.takeShort cs = .ok r') : r'.level = r.level := by
  induction cs generalizing r with
  | nil =>
    cases h
    rfl
  | cons c cs ih =>
    rw [takeShort] at h
    split at h
    · cases h
    · obtain ⟨r₁, hchoice, hrest⟩ := exists_of_bind_ok h
      exact (ih hrest).trans (level_takeChoice hchoice)

/-- The ways in which a long option is taken: by its name alone, or with its
    value. -/
theorem takeLong_cases {body : Argument} (h : r.takeLong body = .ok r') :
    (∃ t c, body = Utf8.encode t ∧ r.level.long? t = some c ∧ r.takeChoice c = .ok r') ∨
      ∃ t v s r₁, body = Utf8.encode t ++ 0x3D :: v ∧ r.level.long? t = some (.setting s) ∧
        r.settle = .ok r₁ ∧ r₁.takeSetting (some v) s = .ok r' := by
  have hname : ∀ {name : Argument} {c : Choice}, (Utf8.decode name).bind r.level.long? = some c →
      ∃ t, name = Utf8.encode t ∧ r.level.long? t = some c := by
    intro name c hfound
    obtain ⟨t, hdecode, hlong⟩ := Option.bind_eq_some_iff.1 hfound
    exact ⟨t, Utf8.decode_eq_some_iff.1 hdecode, hlong⟩
  -- A value stands after the first `=`, and only a setting takes one.
  unfold takeLong at h
  cases hsplit : Cut.splitFirst (· = 0x3D) body with
  | none =>
    rw [hsplit] at h
    dsimp only at h
    split at h
    · cases h
    · next hfound hvalue =>
      obtain ⟨t, ht, hlong⟩ := hname hfound
      exact .inl ⟨t, _, ht, hlong, h⟩
    · next hvalue => cases hvalue
    · cases h
  | some parts =>
    obtain ⟨x, hbody, hx, _⟩ := Cut.splitFirst_eq_some hsplit
    rw [hsplit] at h
    dsimp only at h
    split at h
    · cases h
    · next hvalue => cases hvalue
    · next hfound hvalue =>
      cases hvalue
      obtain ⟨t, ht, hlong⟩ := hname hfound
      obtain ⟨r₁, hsettle, hset⟩ := exists_of_bind_ok h
      rw [ht, of_decide_eq_true hx] at hbody
      exact .inr ⟨t, _, _, r₁, hbody, hlong, hsettle, hset⟩
    · cases h

theorem level_takeLong {body : Argument} (h : r.takeLong body = .ok r') :
    r'.level = r.level := by
  obtain ⟨_, c, _, _, hchoice⟩ | ⟨_, v, s, r₁, _, _, hsettle, hset⟩ := takeLong_cases h
  · exact level_takeChoice hchoice
  · exact (level_takeSetting hset).trans (level_settle hsettle)

theorem level_takeWord (h : r.takeWord a = .ok r') : r'.level = r.level := by
  have hbegin : ∀ o, takeWord.beginOperand r a o = .ok r' → r'.level = r.level := by
    intro o hbegin
    obtain ⟨r₁, hsettle, hdone⟩ := exists_of_bind_ok hbegin
    have hlevel := level_settle hsettle
    cases hdone
    exact hlevel
  unfold takeWord at h
  split at h
  · cases h
  · split at h
    · split at h
      · cases h
        rfl
      · exact hbegin _ h
    · exact hbegin _ h

/-- No argument leaves the command that is read. -/
theorem level_take (h : r.take a = .ok r') : r'.level = r.level := by
  unfold take at h
  split at h
  · exact level_takeWord h
  · split at h
    · cases h
      rfl
    · split at h
      · exact level_takeLong h
      · exact level_takeShort h
      · split at h
        · cases h
          rfl
        · exact level_takeWord h

theorem level_takeAll {ws : List Argument} (h : r.takeAll ws = .ok r') : r'.level = r.level := by
  induction ws generalizing r with
  | nil =>
    cases h
    rfl
  | cons a ws ih =>
    rw [takeAll_cons] at h
    obtain ⟨r₁, hfirst, hrest⟩ := exists_of_bind_ok h
    exact (ih hrest).trans (level_take hfirst)

/-! ## Section 3: Options -/

theorem Ready.settle (h : r.Ready) (hsettle : r.settle = .ok r') : r'.Ready ∧ r'.held = none := by
  unfold Reading.settle at hsettle
  rcases h.held with hheld | ⟨s, v, hheld⟩
  · rw [hheld] at hsettle
    cases hsettle
    exact ⟨h, hheld⟩
  · rw [hheld] at hsettle
    obtain ⟨settings, swift, rfl⟩ := takeSetting_ok hsettle
    exact ⟨⟨h.ended, h.begun, h.rest, .inl rfl⟩, rfl⟩

/-- An option without its value is a fault. -/
theorem settle_of_missing {s : Setting} (h : r.held = some (.setting s none)) :
    r.settle = .error (.misuse .badValue) := by
  unfold Reading.settle
  rw [h]
  cases s <;> rfl

theorem Ready.takeFlag (h : r.Ready) {f : Flag} (hflag : r.takeFlag f = .ok r') : r'.Ready := by
  unfold Reading.takeFlag at hflag
  split at hflag <;> cases hflag
  exact ⟨h.ended, h.begun, h.rest, h.held⟩

theorem Ready.takeChoice (h : r.Ready) {c : Choice} (hc : ∀ s, c ≠ .setting s)
    (hchoice : r.takeChoice c = .ok r') : r'.Ready := by
  obtain ⟨r₁, hsettle, hrest⟩ := exists_of_bind_ok hchoice
  obtain ⟨hready, _⟩ := h.settle hsettle
  cases c with
  | help | version => cases hrest
  | verbose =>
    cases hrest
    exact ⟨hready.ended, hready.begun, hready.rest, hready.held⟩
  | flag f => exact hready.takeFlag hrest
  | setting s => exact absurd rfl (hc s)

theorem Ready.takeChoice_setting (h : r.Ready) {s : Setting}
    (hchoice : r.takeChoice (.setting s) = .ok r') : r'.Awaits := by
  obtain ⟨r₁, hsettle, hrest⟩ := exists_of_bind_ok hchoice
  obtain ⟨hready, _⟩ := h.settle hsettle
  cases hrest
  exact ⟨hready.ended, hready.begun, hready.rest, s, rfl⟩

/-- No short option takes a value. -/
theorem short?_ne_setting (l : Level) (c : Char) (s : Setting) :
    l.short? c ≠ some (.setting s) := by
  unfold Level.short?
  intro h
  repeat' split at h
  all_goals cases h

theorem Ready.takeShort (h : r.Ready) {cs : Text} (hshort : r.takeShort cs = .ok r') :
    r'.Ready := by
  induction cs generalizing r with
  | nil =>
    cases hshort
    exact h
  | cons c cs ih =>
    rw [Reading.takeShort] at hshort
    split at hshort
    · cases hshort
    · next choice hc =>
      obtain ⟨r₁, hchoice, hrest⟩ := exists_of_bind_ok hshort
      have hnone : ∀ s, choice ≠ .setting s := fun s hs =>
        short?_ne_setting r.level c s (hs ▸ hc)
      exact ih (h.takeChoice hnone hchoice) hrest

/-- A long option by itself. -/
theorem takeLong_choice {body : Argument} {c : Choice}
    (hsplit : Cut.splitFirst (· = 0x3D) body = none)
    (hname : (Utf8.decode body).bind r.level.long? = some c) :
    r.takeLong body = r.takeChoice c := by
  unfold takeLong
  rw [hsplit]
  dsimp only
  rw [hname]

/-- A long option with its value. -/
theorem takeLong_setting {body name v : Argument} {s : Setting}
    (hsplit : Cut.splitFirst (· = 0x3D) body = some (name, v))
    (hname : (Utf8.decode name).bind r.level.long? = some (.setting s)) :
    r.takeLong body = r.settle >>= fun r => r.takeSetting (some v) s := by
  unfold takeLong
  rw [hsplit]
  dsimp only
  rw [hname]

theorem take_long (h : r.ended = false) {body : Argument} (hbody : body ≠ []) :
    r.take (0x2D :: 0x2D :: body) = r.takeLong body := by
  obtain ⟨b, body, rfl⟩ := List.exists_cons_of_ne_nil hbody
  have hne : (0x2D :: 0x2D :: b :: body : Argument) ≠ endOfOptions := by
    intro heq
    cases heq
  unfold take
  rw [if_neg (by simp [h]), if_neg hne]
  rfl

theorem take_short (h : r.ended = false) {c : UInt8} (hc : c ≠ 0x2D) (cs : Argument) :
    r.take (0x2D :: c :: cs) = r.takeShort (Utf8.decodeLossy (c :: cs)) := by
  have hne : (0x2D :: c :: cs : Argument) ≠ endOfOptions := by
    intro heq
    exact hc (List.cons.inj (List.cons.inj heq).2).1
  unfold take
  rw [if_neg (by simp [h]), if_neg hne]
  split
  · next heq => exact absurd (List.cons.inj (List.cons.inj heq).2).1 hc
  · next heq =>
    cases heq
    rfl
  · next hlong hshort => exact absurd rfl (hshort c cs)

/-! ## Section 4: Values -/

/-- Where a value is missing, an option is a fault. -/
theorem takeChoice_ne_ok {s : Setting} (hheld : r.held = some (.setting s none)) (c : Choice) :
    r.takeChoice c ≠ .ok r' := by
  intro htake
  rw [takeChoice, settle_of_missing hheld] at htake
  cases htake

theorem takeLong_ne_ok {s : Setting} (hheld : r.held = some (.setting s none)) (body : Argument) :
    r.takeLong body ≠ .ok r' := by
  intro htake
  obtain ⟨_, c, _, _, hchoice⟩ | ⟨_, _, _, r₁, _, _, hsettle, _⟩ := takeLong_cases htake
  · exact takeChoice_ne_ok hheld c hchoice
  · rw [settle_of_missing hheld] at hsettle
    cases hsettle

theorem takeShort_ne_ok {s : Setting} (hheld : r.held = some (.setting s none)) {cs : Text}
    (hcs : cs ≠ []) : r.takeShort cs ≠ .ok r' := by
  obtain ⟨c, cs, rfl⟩ := List.exists_cons_of_ne_nil hcs
  intro htake
  rw [takeShort] at htake
  split at htake
  · cases htake
  · obtain ⟨r₁, hchoice, _⟩ := exists_of_bind_ok htake
    exact takeChoice_ne_ok hheld _ hchoice

theorem decodeLossy_ne_nil (b : UInt8) (bs : Bytes) : Utf8.decodeLossy (b :: bs) ≠ [] := by
  rw [Utf8.decodeLossy]
  split
  exact List.cons_ne_nil _ _

/-- The next word is the value, unless it ends the options. -/
theorem take_of_missing {s : Setting} (hended : r.ended = false)
    (hheld : r.held = some (.setting s none)) (htake : r.take a = .ok r') :
    r' = { r with held := some (.setting s (some a)) } ∨ r' = { r with ended := true } := by
  unfold Reading.take at htake
  rw [if_neg (by simp [hended])] at htake
  split at htake
  · cases htake
    exact .inr rfl
  · split at htake
    · exact absurd htake (takeLong_ne_ok hheld _)
    · exact absurd htake (takeShort_ne_ok hheld (decodeLossy_ne_nil _ _))
    · rw [hheld] at htake
      cases htake
      exact .inl rfl

/-- The word after an option is its value, or nothing can follow. -/
theorem Awaits.take (h : r.Awaits) (htake : r.take a = .ok r') : r'.Ready ∨ r'.Doomed := by
  obtain ⟨s, hheld⟩ := h.held
  obtain rfl | rfl := take_of_missing h.ended hheld htake
  · exact .inl ⟨h.ended, h.begun, h.rest, .inr ⟨s, a, rfl⟩⟩
  · exact .inr ⟨rfl, s, hheld⟩

/-- A value that is missing when the options have ended stays missing. -/
theorem Doomed.take_ne_ok (h : r.Doomed) : r.take a ≠ .ok r' := by
  obtain ⟨s, hheld⟩ := h.held
  intro htake
  unfold take takeWord at htake
  rw [if_pos h.ended, hheld] at htake
  split at htake
  · cases htake
  · rw [takeWord.beginOperand, settle_of_missing hheld] at htake
    cases htake

/-! ## Section 5: Whole options -/

/-- An option with its value in the next word. -/
theorem Ready.take_value (h : r.Ready) (body : Argument) (s : Setting) {v : Argument}
    (hbody : body ≠ [])
    (hsplit : Cut.splitFirst (· = 0x3D) body = none)
    (hname : (Utf8.decode body).bind r.level.long? = some (.setting s))
    (htake : r.takeAll [0x2D :: 0x2D :: body, v] = .ok r') : r'.Ready ∨ r'.Doomed := by
  rw [takeAll_cons, take_long h.ended hbody, takeLong_choice hsplit hname] at htake
  obtain ⟨r₁, hchoice, htake⟩ := exists_of_bind_ok htake
  rw [takeAll_single] at htake
  exact (h.takeChoice_setting hchoice).take htake

/-- An option that says its value itself. -/
theorem Ready.take_with (h : r.Ready) (body name : Argument) (s : Setting) {v : Argument}
    (hbody : body ≠ [])
    (hsplit : Cut.splitFirst (· = 0x3D) body = some (name, v))
    (hname : (Utf8.decode name).bind r.level.long? = some (.setting s))
    (htake : r.takeAll [0x2D :: 0x2D :: body] = .ok r') : r'.Ready := by
  rw [takeAll_single, take_long h.ended hbody, takeLong_setting hsplit hname] at htake
  obtain ⟨r₁, hsettle, hset⟩ := exists_of_bind_ok htake
  obtain ⟨hready, hheld⟩ := h.settle hsettle
  obtain ⟨settings, swift, rfl⟩ := takeSetting_ok hset
  exact ⟨hready.ended, hready.begun, hready.rest, .inl hheld⟩

/-- A long option without a value. -/
theorem Ready.take_choice (h : r.Ready) (body : Argument) (c : Choice) (hbody : body ≠ [])
    (hsplit : Cut.splitFirst (· = 0x3D) body = none)
    (hname : (Utf8.decode body).bind r.level.long? = some c) (hc : ∀ s, c ≠ .setting s)
    (htake : r.takeAll [0x2D :: 0x2D :: body] = .ok r') : r'.Ready := by
  rw [takeAll_single, take_long h.ended hbody, takeLong_choice hsplit hname] at htake
  exact h.takeChoice hc htake

theorem long?_common (l : Level) : l.long? "verbose".toList = some .verbose ∧
    l.long? "config".toList = some (.setting .settings) := ⟨rfl, rfl⟩

theorem long?_run : ∀ e ∈ preparationNames, Level.run.long? e.1 = some e.2 := by decide

theorem Ready.global_option (h : r.Ready) {g : List Argument} (hg : IsGlobalOption g)
    (htake : r.takeAll g = .ok r') : r'.Ready ∨ r'.Doomed := by
  obtain ⟨hverboseName, hsettingsName⟩ := long?_common r.level
  cases hg with
  | @verbose a hverbose =>
    left
    obtain rfl | ⟨n, rfl⟩ := exists_of_isVerbose hverbose
    · refine h.take_choice (word "verbose") .verbose (by decide) rfl ?_ nofun htake
      rw [word, Utf8.decode_encode, Option.bind_some, hverboseName]
    · rw [takeAll_single, List.replicate_succ, take_short h.ended (by decide)] at htake
      exact h.takeShort htake
  | settings v =>
    refine h.take_value (word "config") .settings (by decide) rfl ?_ htake
    rw [word, Utf8.decode_encode, Option.bind_some, hsettingsName]
  | settingsWith v =>
    left
    refine h.take_with (word "config=" ++ v) (word "config") .settings
      (List.cons_ne_nil _ _) rfl ?_ htake
    rw [word, Utf8.decode_encode, Option.bind_some, hsettingsName]

theorem Ready.run_option (h : r.Ready) (hrun : r.level = .run) {g : List Argument}
    (hg : IsRunOption g) (htake : r.takeAll g = .ok r') : r'.Ready ∨ r'.Doomed := by
  have hswift : Level.run.long? "swift-path".toList = some (.setting .swift) :=
    long?_run (_, .setting .swift) (by decide)
  cases hg with
  | common hg => exact h.global_option hg.isGlobal htake
  | content =>
    rw [takeAll_single] at htake
    exact .inl (h.takeShort ((take_short h.ended (by decide) []).symm.trans htake))
  | @flag name f hname =>
    have hall : ∀ e ∈ preparationNames, Utf8.encode e.1 ≠ [] ∧
        Cut.splitFirst (· = 0x3D) (Utf8.encode e.1) = none := by decide
    obtain ⟨hbody, hsplit⟩ := hall _ hname
    refine .inl (h.take_choice _ (.flag f) hbody hsplit ?_ nofun htake)
    rw [Utf8.decode_encode, Option.bind_some, hrun, long?_run _ hname]
  | swift v =>
    refine h.take_value (word "swift-path") .swift (by decide) rfl ?_ htake
    rw [word, Utf8.decode_encode, Option.bind_some, hrun, hswift]
  | swiftWith v =>
    refine .inl (h.take_with (word "swift-path=" ++ Utf8.encode v) (word "swift-path") .swift
      (List.cons_ne_nil _ _) rfl ?_ htake)
    rw [word, Utf8.decode_encode, Option.bind_some, hrun, hswift]

/-! ## Section 6: Sequences of options -/

/-- Nothing follows where nothing can. -/
theorem Doomed.eq_nil (h : r.Doomed) (hgs : ∀ g ∈ gs, g ≠ [])
    (htake : r.takeAll gs.flatten = .ok r') : gs = [] := by
  cases gs with
  | nil => rfl
  | cons g gs =>
    obtain ⟨a, g, rfl⟩ := List.exists_cons_of_ne_nil (hgs _ (List.mem_cons_self ..))
    rw [List.flatten_cons, List.cons_append, takeAll_cons] at htake
    obtain ⟨r₁, hfirst, _⟩ := exists_of_bind_ok htake
    exact absurd hfirst h.take_ne_ok

/-- If each option leaves a ready reading, or one in which nothing can follow,
    then so do all of them. -/
theorem Ready.sequence {l : Level} (h : r.Ready) (hlevel : r.level = l) (hgs : ∀ g ∈ gs, g ≠ [])
    (hstep : ∀ g ∈ gs, ∀ r₁ r₂ : Reading, r₁.Ready → r₁.level = l → r₁.takeAll g = .ok r₂ →
      r₂.Ready ∨ r₂.Doomed)
    (htake : r.takeAll gs.flatten = .ok r') : r'.Ready ∨ r'.Doomed := by
  induction gs generalizing r with
  | nil =>
    cases htake
    exact .inl h
  | cons g gs ih =>
    have hrest : ∀ g ∈ gs, g ≠ [] := fun g hg => hgs g (List.mem_cons_of_mem _ hg)
    rw [List.flatten_cons, takeAll_append] at htake
    obtain ⟨r₁, hfirst, htake⟩ := exists_of_bind_ok htake
    rcases hstep g (List.mem_cons_self ..) r r₁ h hlevel hfirst with hready | hdoomed
    · exact ih hready ((level_takeAll hfirst).trans hlevel) hrest
        (fun g hg => hstep g (List.mem_cons_of_mem _ hg)) htake
    · obtain rfl := hdoomed.eq_nil hrest htake
      cases htake
      exact .inr hdoomed

theorem Ready.global_options (h : r.Ready) (hgs : ∀ g ∈ gs, IsGlobalOption g)
    (htake : r.takeAll gs.flatten = .ok r') : r'.Ready ∨ r'.Doomed :=
  h.sequence rfl (fun g hg => (hgs g hg).ne_nil)
    (fun g hg _ _ hready _ hg' => hready.global_option (hgs g hg) hg') htake

theorem Ready.run_options (h : r.Ready) (hrun : r.level = .run) (hgs : ∀ g ∈ gs, IsRunOption g)
    (htake : r.takeAll gs.flatten = .ok r') : r'.Ready ∨ r'.Doomed :=
  h.sequence hrun (fun g hg => (hgs g hg).ne_nil)
    (fun g hg _ _ hready hlevel hg' => hready.run_option hlevel (hgs g hg) hg') htake

end Reading
end CommandLine
end ScriptDeps
