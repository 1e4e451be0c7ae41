import ScriptDeps.Proofs.CommandLine.GivenOptions

/-! # What a reading has been told

    Of two opposite options the last one counts, the path of the toolchain can
    be given once, and no option changes the choice that another one makes.  A
    reading keeps just that of the options it has taken (`Records`): each word
    keeps the record of those before it, and adds what the word itself says
    (`Records.takeAll`). -/

namespace ScriptDeps
namespace CommandLine

/-! ## Section 1: Model -/

/-- The choices that are made by two opposite options. -/
inductive Switch where
  | skipPackage | noSandbox | release
deriving DecidableEq, Repr

namespace Switch

def name : Switch → Text
  | skipPackage => "skip-package-on-no-remote-modules".toList
  | noSandbox => "disable-sandbox-for-package-resolution".toList
  | release => "build-dependencies-in-release-mode".toList

/-- The long name of the option that turns it on, or off. -/
def optionName (k : Switch) (yes : Bool) : Text :=
  if yes then k.name else "no-".toList ++ k.name

def option (k : Switch) (yes : Bool) : Argument := word "--" ++ Utf8.encode (k.optionName yes)

def flag : Switch → Bool → Flag
  | skipPackage => .skipPackage
  | noSandbox => .noSandbox
  | release => .release

/-- What an option says of it. -/
def value? (k : Switch) (g : List Argument) : Option Bool :=
  if g = [k.option true] then some true
  else if g = [k.option false] then some false
  else none

/-- What options say of it, in order. -/
def said (k : Switch) (gs : List (List Argument)) : List Bool := gs.filterMap k.value?

/-- What a preparation says of it. -/
def chosen? (p : Preparation) : Switch → Option Bool
  | skipPackage => p.skipPackage
  | noSandbox => p.noSandbox
  | release => p.release

end Switch

def sshName : Text := "use-ssh-for-github-dependencies".toList

def sshOption : Argument := word "--" ++ Utf8.encode sshName

/-- The path of the toolchain that an option gives. -/
def swiftValue? : List Argument → Option Argument
  | [a] => Cut.after? (word "--swift-path=") a
  | [a, v] => if a = swiftOption then some v else none
  | _ => none

/-- The paths of the toolchain that options give, in order. -/
def swiftSaid (gs : List (List Argument)) : List Argument := gs.filterMap swiftValue?

def Choice.flag? : Choice → Option Flag
  | .flag f => some f
  | _ => none

/-- Of the choices, an option makes the one that the flag `f?` stands for. -/
structure Names (g : List Argument) (f? : Option Flag) : Prop where
  switch : ∀ (k : Switch) b, k.value? g = some b ↔ f? = some (k.flag b)
  ssh : g = [sshOption] ↔ f? = some .ssh

/-- The option whose value is the next word. -/
def Setting.option : Setting → Argument
  | settings => settingsOption
  | swift => swiftOption

namespace Reading

/-- The path of the toolchain that is still to be looked at. -/
def heldSwift : Option Held → List Argument
  | some (.setting .swift (some v)) => [v]
  | _ => []

/-- The paths of the toolchain that have been read. -/
def swiftRead (r : Reading) : List Argument := r.swift.toList.map (·.bytes) ++ heldSwift r.held

/-- What has been read of the choices is what the options say. -/
structure Records (r : Reading) (gs : List (List Argument)) : Prop where
  switch : ∀ (k : Switch) b, k.flag b ∈ r.flags ↔ (k.said gs).getLast? = some b
  ssh : Flag.ssh ∈ r.flags ↔ [sshOption] ∈ gs
  swift : r.swiftRead = swiftSaid gs

/-- Options can follow: they have not ended, and no value is missing. -/
structure IsOpen (r : Reading) : Prop where
  level : r.level = .run ∨ r.level = .build
  ended : r.ended = false
  held : ∀ s, r.held ≠ some (.setting s none)

end Reading

/-! ## Section 2: What options say -/

theorem Switch.said_concat (k : Switch) (gs : List (List Argument)) (g : List Argument) :
    k.said (gs ++ [g]) = k.said gs ++ (k.value? g).toList := by
  rw [said, List.filterMap_append]
  cases hvalue : k.value? g <;> simp [said, hvalue]

theorem swiftSaid_concat (gs : List (List Argument)) (g : List Argument) :
    swiftSaid (gs ++ [g]) = swiftSaid gs ++ (swiftValue? g).toList := by
  rw [swiftSaid, List.filterMap_append]
  cases hvalue : swiftValue? g <;> simp [swiftSaid, hvalue]

theorem Switch.flag_inj {k k' : Switch} {b b' : Bool} (h : k.flag b = k'.flag b') :
    k = k' ∧ b = b' := by
  cases k <;> cases k' <;> cases h <;> exact ⟨rfl, rfl⟩

/-- A choice takes back its opposite, and nothing else does. -/
theorem Switch.opposite?_eq_iff (k : Switch) (b : Bool) (f : Flag) :
    f.opposite? = some (k.flag b) ↔ f = k.flag !b := by
  cases k <;> cases b <;> cases f <;> simp [flag, Flag.opposite?]

theorem Flag.opposite?_ne_ssh (f : Flag) : f.opposite? ≠ some .ssh := by
  cases f <;> simp [Flag.opposite?]

variable {a : Argument} {g ws : List Argument} {gs : List (List Argument)}

/-- An option names nothing if it is none of those that do. -/
theorem names_none (hswitch : ∀ (k : Switch) b, g ≠ [k.option b]) (hssh : g ≠ [sshOption]) :
    Names g none := by
  refine ⟨fun k b => ?_, by simp [hssh]⟩
  rw [Switch.value?, if_neg (hswitch k true), if_neg (hswitch k false)]
  simp

/-- An option in two words names nothing. -/
theorem names_pair (a v : Argument) : Names [a, v] none :=
  names_none (fun _ _ => by simp) (by simp)

/-- Neither does one that begins with what no such option begins with. -/
theorem names_append {p : Argument} (hswitch : ∀ (k : Switch) b, p.isPrefixOf (k.option b) = false)
    (hssh : p.isPrefixOf sshOption = false) (v : Argument) : Names [p ++ v] none := by
  refine names_none (fun k b heq => ?_) fun heq => ?_
  · exact append_ne (hswitch k b) v (List.cons.inj heq).1
  · exact append_ne hssh v (List.cons.inj heq).1

/-- Nor one with one dash only. -/
theorem names_short {c : UInt8} (hc : c ≠ 0x2D) (cs : Argument) :
    Names [0x2D :: c :: cs] none ∧ swiftValue? [0x2D :: c :: cs] = none := by
  have hdashes : ∀ b : Argument, 0x2D :: c :: cs ≠ 0x2D :: 0x2D :: b := by
    intro b heq
    exact hc (List.cons.inj (List.cons.inj heq).2).1
  have hnames : ∀ t, [0x2D :: c :: cs] ≠ [word "--" ++ Utf8.encode t] := fun t heq =>
    hdashes (Utf8.encode t) (List.cons.inj heq).1
  refine ⟨names_none (fun k b => hnames _) (hnames sshName), ?_⟩
  · cases hvalue : swiftValue? [0x2D :: c :: cs] with
    | none => rfl
    | some v => exact absurd (Cut.eq_append_of_after? hvalue) (hdashes _)

theorem long_eq_iff {s t : Text} :
    [word "--" ++ Utf8.encode s] = [word "--" ++ Utf8.encode t] ↔ s = t := by
  rw [List.singleton_inj, List.append_cancel_left_eq]
  exact ⟨Utf8.encode_injective, congrArg Utf8.encode⟩

/-- A long option names what the table of options says. -/
theorem names_long {t : Text} {c : Choice} (h : (t, c) ∈ commonNames ++ preparationNames) :
    Names [word "--" ++ Utf8.encode t] c.flag? ∧
      swiftValue? [word "--" ++ Utf8.encode t] = none := by
  have hswitch : ∀ k ∈ [Switch.skipPackage, .noSandbox, .release], ∀ b ∈ [true, false],
      ∀ e ∈ commonNames ++ preparationNames,
        ((if e.1 = k.optionName true then some true
          else if e.1 = k.optionName false then some false else none) = some b ↔
            e.2.flag? = some (k.flag b)) := by decide
  have hssh : ∀ e ∈ commonNames ++ preparationNames, (e.1 = sshName ↔ e.2.flag? = some .ssh) := by
    decide
  have hvalue : ∀ e ∈ commonNames ++ preparationNames,
      swiftValue? [word "--" ++ Utf8.encode e.1] = none := by decide
  refine ⟨⟨fun k b => ?_, ?_⟩, hvalue _ h⟩
  · rw [Switch.value?, Switch.option, Switch.option]
    simp only [long_eq_iff]
    exact hswitch k (by cases k <;> simp) b (by cases b <;> simp) _ h
  · rw [sshOption, long_eq_iff]
    exact hssh _ h

/-- The options with values of their own, by their names. -/
theorem setting_of_mem {t : Text} {s : Setting}
    (h : (t, .setting s) ∈ commonNames ++ preparationNames) :
    word "--" ++ Utf8.encode t = s.option := by
  have hall : ∀ e ∈ commonNames ++ preparationNames, ∀ s ∈ [Setting.settings, Setting.swift],
      e.2 = .setting s → word "--" ++ Utf8.encode e.1 = s.option := by decide
  exact hall _ h s (by cases s <;> simp) rfl

/-- A short option names as much as no words do. -/
theorem names_of_short? {l : Level} {ch : Char} {c : Choice} (h : l.short? ch = some c) :
    Names [] c.flag? := by
  unfold Level.short? at h
  refine ⟨fun k b => ?_, ?_⟩
  · repeat' split at h
    all_goals cases h
    all_goals cases k <;> cases b <;> decide
  · repeat' split at h
    all_goals cases h
    all_goals decide

/-- A path of the toolchain is given by `--swift-path=` and no other option that says its value
    itself. -/
theorem names_with (s : Setting) (v : Argument) :
    Names [s.option ++ 0x3D :: v] none ∧
      (swiftValue? [s.option ++ 0x3D :: v]).toList =
        Reading.heldSwift (some (.setting s (some v))) := by
  have hfirst : s.option ++ 0x3D :: v = (s.option ++ [0x3D]) ++ v := by simp
  rw [hfirst]
  constructor
  · apply names_append
    · intro k b
      cases s <;> cases k <;> cases b <;> decide
    · cases s <;> decide
  · cases s with
    | settings =>
      have hnone : Cut.after? (word "--swift-path=") (settingsOption ++ [0x3D] ++ v) = none :=
        Cut.after?_eq_none rfl
      exact congrArg Option.toList hnone
    | swift => exact congrArg Option.toList (Cut.after?_append (word "--swift-path=") v)

theorem mem_names_of_long? {l : Level} (hl : l = .run ∨ l = .build) {t : Text} {c : Choice}
    (h : l.long? t = some c) : (t, c) ∈ commonNames ++ preparationNames := by
  have hnames : l.ownNames = preparationNames := by
    obtain rfl | rfl := hl <;> rfl
  rw [Level.long?, hnames] at h
  obtain ⟨front, back, hsplit, _⟩ := List.lookup_eq_some_iff.1 h
  rw [hsplit]
  simp

namespace Reading

variable {r r' : Reading} {fallback : Option Path}

/-! ## Section 3: Steps of the record -/

/-- What changes neither flags nor the path keeps the record. -/
theorem Records.same (h : r.Records gs) (hflags : r'.flags = r.flags)
    (hswift : r'.swiftRead = r.swiftRead) : r'.Records gs :=
  ⟨hflags ▸ h.switch, hflags ▸ h.ssh, hswift.trans h.swift⟩

/-- An option that names nothing may give the path. -/
theorem Records.concat (h : r.Records gs) (hg : Names g none) (hflags : r'.flags = r.flags)
    (hswift : r'.swiftRead = r.swiftRead ++ (swiftValue? g).toList) : r'.Records (gs ++ [g]) := by
  constructor
  · intro k b
    have hnone : k.value? g = none := by
      cases hvalue : k.value? g with
      | none => rfl
      | some b => cases (hg.switch k b).1 hvalue
    rw [Switch.said_concat, hnone, hflags]
    simpa using h.switch k b
  · have hne : [sshOption] ≠ g := fun heq => nomatch hg.ssh.1 heq.symm
    rw [hflags, h.ssh]
    simp [hne]
  · rw [hswift, h.swift, swiftSaid_concat]

theorem takeFlag_ok {f : Flag} (h : r.takeFlag f = .ok r') :
    ∃ flags, r' = { r with flags := flags } := by
  unfold takeFlag at h
  split at h <;> cases h
  exact ⟨_, rfl⟩

theorem mem_takeFlag {f : Flag} (h : r.takeFlag f = .ok r') (f' : Flag) :
    f' ∈ r'.flags ↔ f' = f ∨ f' ∈ r.flags ∧ ¬ f.opposite? = some f' := by
  unfold takeFlag at h
  split at h <;> cases h
  simp [or_comm]

/-- An option that is a flag says the last of what it names. -/
theorem Records.takeFlag (h : r.Records gs) {f : Flag} (hg : Names g (some f))
    (hvalue : swiftValue? g = none) (htake : r.takeFlag f = .ok r') :
    r'.Records (gs ++ [g]) := by
  have hmem := mem_takeFlag htake
  constructor
  · intro k b
    rw [hmem, Switch.said_concat, h.switch, Switch.opposite?_eq_iff]
    cases hnamed : k.value? g with
    | some c =>
      -- It names this choice: `c` stands now, and its opposite does not.
      have hf : f = k.flag c := Option.some.inj ((hg.switch k c).1 hnamed)
      have heq : k.flag b = f ↔ c = b := by
        rw [hf]
        exact ⟨fun h => (Switch.flag_inj h).2.symm, fun h => by rw [h]⟩
      have hopposite : f = k.flag !b ↔ c ≠ b := by
        rw [hf]
        refine ⟨fun h => ?_, fun h => ?_⟩
        · rw [(Switch.flag_inj h).2]
          cases b <;> decide
        · cases b <;> cases c <;> simp_all
      rw [heq, hopposite]
      simp only [Option.toList_some, List.getLast?_append, List.getLast?_singleton, Option.some_or,
        Option.some.injEq]
      exact ⟨fun h => h.elim id fun h => Decidable.not_not.1 h.2, .inl⟩
    | none =>
      have hne : ∀ c, k.flag c ≠ f := by
        intro c heq
        have hsome := (hg.switch k c).2 (congrArg some heq.symm)
        rw [hnamed] at hsome
        cases hsome
      have hother : f ≠ k.flag !b := (hne _).symm
      simp [hne b, hother]
  · have hiff : [sshOption] = g ↔ Flag.ssh = f := by
      rw [eq_comm, hg.ssh, Option.some.injEq, eq_comm]
    rw [hmem, h.ssh]
    simp [Flag.opposite?_ne_ssh, hiff, or_comm]
  · obtain ⟨flags, rfl⟩ := takeFlag_ok htake
    rw [swiftSaid_concat, hvalue, ← h.swift]
    exact (List.append_nil _).symm

/-! ## Section 4: Looking at what is held -/

/-- A path that is accepted is the first. -/
theorem value?_eq_ok {old p : Option Path} {value : Option Argument}
    (h : value? old value = .ok p) : ∃ v, value = some v ∧ old = none ∧ p = some ⟨v⟩ := by
  cases value with
  | none => cases h
  | some v =>
    unfold value? at h
    dsimp only at h
    split at h
    · cases h
    · next hnew =>
      split at h
      · cases h
      · cases h
        exact ⟨v, rfl, by simpa using hnew, rfl⟩

/-- A path that is looked at has been read before. -/
theorem takeSetting_spec {v : Argument} {s : Setting} (hheld : r.held = none)
    (h : r.takeSetting (some v) s = .ok r') :
    r'.flags = r.flags ∧ r'.held = none ∧ r'.ended = r.ended ∧
      r'.swiftRead = r.swiftRead ++ heldSwift (some (.setting s (some v))) := by
  cases s with
  | settings =>
    obtain ⟨p, _, hdone⟩ := exists_of_bind_ok h
    cases hdone
    exact ⟨rfl, hheld, rfl, (List.append_nil _).symm⟩
  | swift =>
    obtain ⟨p, hvalue, hdone⟩ := exists_of_bind_ok h
    obtain ⟨_, hsome, hnone, rfl⟩ := value?_eq_ok hvalue
    cases hsome
    cases hdone
    refine ⟨rfl, hheld, rfl, ?_⟩
    unfold swiftRead
    rw [hheld, hnone]
    rfl

theorem takeOperand_spec {vs : List Argument} {o : Operand} (h : r.takeOperand vs o = .ok r') :
    r'.flags = r.flags ∧ r'.held = r.held ∧ r'.ended = r.ended ∧ r'.swift = r.swift := by
  cases o with
  | script | arguments | targets =>
    obtain ⟨ts, _, hts⟩ := exists_of_bind_ok h
    cases hts
    exact ⟨rfl, rfl, rfl, rfl⟩
  | shell =>
    unfold takeOperand at h
    dsimp only at h
    split at h <;> cases h
    exact ⟨rfl, rfl, rfl, rfl⟩

/-- Looking at what is held changes nothing of what has been read. -/
theorem settle_spec (h : r.settle = .ok r') :
    r'.flags = r.flags ∧ r'.held = none ∧ r'.ended = r.ended ∧ r'.swiftRead = r.swiftRead := by
  -- What is held moves to where it is kept, and `swiftRead` counts it in either place.
  cases hheld : r.held with
  | none =>
    rw [Reading.settle, hheld] at h
    cases h
    exact ⟨rfl, hheld, rfl, rfl⟩
  | some held =>
    cases held with
    | setting s value =>
      cases value with
      | none =>
        rw [settle_of_missing hheld] at h
        cases h
      | some v =>
        rw [Reading.settle, hheld] at h
        obtain ⟨hflags, hnone, hended, hswift⟩ := takeSetting_spec rfl h
        refine ⟨hflags, hnone, hended, hswift.trans ?_⟩
        unfold swiftRead
        rw [hheld]
        simp [heldSwift]
    | operand o vs =>
      rw [Reading.settle, hheld] at h
      obtain ⟨hflags, hnone, hended, hswift⟩ := takeOperand_spec h
      refine ⟨hflags, hnone, hended, ?_⟩
      unfold swiftRead
      rw [hnone, hswift, hheld]
      rfl

theorem Records.settle (h : r.Records gs) (hsettle : r.settle = .ok r') :
    r'.Records gs ∧ r'.held = none ∧ r'.ended = r.ended := by
  obtain ⟨hflags, hnone, hended, hswift⟩ := settle_spec hsettle
  exact ⟨h.same hflags hswift, hnone, hended⟩

/-! ## Section 5: Words -/

theorem IsOpen.of_held_none (hlevel : r.level = .run ∨ r.level = .build) (hended : r.ended = false)
    (hheld : r.held = none) : r.IsOpen := by
  refine ⟨hlevel, hended, fun s heq => ?_⟩
  rw [hheld] at heq
  cases heq

theorem IsOpen.level_take (h : r.IsOpen) (htake : r.take a = .ok r') :
    r'.level = .run ∨ r'.level = .build := by
  rw [Reading.level_take htake]
  exact h.level

/-- An option without a value adds what it names. -/
theorem Records.takeChoice (h : r.Records gs) {c : Choice} (hc : ∀ s, c ≠ .setting s)
    (hg : Names g c.flag?) (hvalue : swiftValue? g = none) (htake : r.takeChoice c = .ok r') :
    r'.Records (gs ++ [g]) ∧ r'.held = none ∧ r'.ended = r.ended := by
  obtain ⟨r₁, hsettle, hrest⟩ := exists_of_bind_ok htake
  obtain ⟨h₁, hheld, hended⟩ := h.settle hsettle
  cases c with
  | help | version => cases hrest
  | verbose =>
    cases hrest
    refine ⟨h₁.concat hg rfl ?_, hheld, hended⟩
    rw [hvalue]
    exact (List.append_nil _).symm
  | flag f =>
    refine ⟨h₁.takeFlag hg hvalue hrest, ?_⟩
    obtain ⟨flags, rfl⟩ := takeFlag_ok hrest
    exact ⟨hheld, hended⟩
  | setting s => exact absurd rfl (hc s)

/-- No words say nothing. -/
theorem Records.of_concat_nil (h : r.Records (gs ++ [[]])) : r.Records gs := by
  refine ⟨fun k b => ?_, ?_, ?_⟩
  · have hnone : k.value? [] = none := by cases k <;> decide
    rw [h.switch, Switch.said_concat, hnone, Option.toList_none, List.append_nil]
  · rw [h.ssh]
    simp
  · rw [h.swift, swiftSaid_concat]
    exact List.append_nil _

theorem Records.takeShort (h : r.Records gs) (hopen : r.IsOpen) {cs : Text}
    (htake : r.takeShort cs = .ok r') : r'.Records gs ∧ r'.IsOpen := by
  induction cs generalizing r with
  | nil =>
    cases htake
    exact ⟨h, hopen⟩
  | cons c cs ih =>
    rw [Reading.takeShort] at htake
    split at htake
    · cases htake
    · next choice hc =>
      obtain ⟨r₁, hchoice, hrest⟩ := exists_of_bind_ok htake
      have hnone : ∀ s, choice ≠ .setting s := by
        intro s hs
        exact short?_ne_setting r.level c s (hs ▸ hc)
      obtain ⟨h₁, hheld, hended⟩ := h.takeChoice hnone (names_of_short? hc) rfl hchoice
      have hlevel : r₁.level = .run ∨ r₁.level = .build := by
        rw [level_takeChoice hchoice]
        exact hopen.level
      exact ih h₁.of_concat_nil (.of_held_none hlevel (hended.trans hopen.ended) hheld) hrest

/-- A long option adds what it says. -/
theorem Records.takeLong (h : r.Records gs) (hopen : r.IsOpen) {body : Argument}
    (hvalue : takesValue (0x2D :: 0x2D :: body) = false) (htake : r.takeLong body = .ok r') :
    r'.Records (gs ++ [[0x2D :: 0x2D :: body]]) ∧ r'.IsOpen := by
  have hlevel : r'.level = .run ∨ r'.level = .build := by
    rw [level_takeLong htake]
    exact hopen.level
  obtain ⟨t, c, rfl, hlong, hchoice⟩ | ⟨t, v, s, r₁, rfl, hlong, hsettle, hset⟩ :=
    takeLong_cases htake
  · -- By its name alone: not a setting, since that would wait for the next word.
    have hmem := mem_names_of_long? hopen.level hlong
    have hnone : ∀ s, c ≠ .setting s := by
      rintro s rfl
      have heq : 0x2D :: 0x2D :: Utf8.encode t = s.option := setting_of_mem hmem
      rw [heq] at hvalue
      cases s <;> exact absurd hvalue (by decide)
    obtain ⟨hnames, hswift⟩ := names_long hmem
    obtain ⟨h', hheld, hended⟩ := h.takeChoice hnone hnames hswift hchoice
    exact ⟨h', .of_held_none hlevel (hended.trans hopen.ended) hheld⟩
  · have heq : 0x2D :: 0x2D :: (Utf8.encode t ++ 0x3D :: v) = s.option ++ 0x3D :: v :=
      congrArg (· ++ 0x3D :: v) (setting_of_mem (mem_names_of_long? hopen.level hlong))
    obtain ⟨h₁, hheld, hended⟩ := h.settle hsettle
    obtain ⟨hflags, hheld', hended', hswift⟩ := takeSetting_spec hheld hset
    obtain ⟨hnames, hnamed⟩ := names_with s v
    rw [heq]
    exact ⟨h₁.concat hnames hflags (hnamed ▸ hswift),
      .of_held_none hlevel ((hended'.trans hended).trans hopen.ended) hheld'⟩

/-- So does every option that is one word. -/
theorem Records.take_option (h : r.Records gs) (hopen : r.IsOpen) (hoption : isOption a = true)
    (hend : a ≠ endOfOptions) (hvalue : takesValue a = false) (htake : r.take a = .ok r') :
    r'.Records (gs ++ [[a]]) ∧ r'.IsOpen := by
  obtain ⟨c, cs, rfl⟩ : ∃ c cs, a = 0x2D :: c :: cs := by
    obtain ⟨hhead, hlength⟩ := Bool.and_eq_true_iff.1 hoption
    match a, of_decide_eq_true hhead, of_decide_eq_true hlength with
    | _ :: c :: cs, hhead, _ =>
      cases hhead
      exact ⟨c, cs, rfl⟩
  by_cases hc : c = 0x2D
  · subst hc
    have hbody : cs ≠ [] := by
      rintro rfl
      exact hend rfl
    rw [take_long hopen.ended hbody] at htake
    exact h.takeLong hopen hvalue htake
  · rw [take_short hopen.ended hc] at htake
    obtain ⟨h', hopen'⟩ := h.takeShort hopen htake
    obtain ⟨hnames, hswift⟩ := names_short hc cs
    refine ⟨h'.concat hnames rfl ?_, hopen'⟩
    rw [hswift]
    exact (List.append_nil _).symm

theorem exists_option_of_takesValue (h : takesValue a = true) : ∃ s : Setting, a = s.option := by
  obtain h | h := Bool.or_eq_true_iff.1 h
  · exact ⟨.settings, of_decide_eq_true h⟩
  · exact ⟨.swift, of_decide_eq_true h⟩

/-- An option without its value waits for it. -/
theorem IsOpen.take_setting (hopen : r.IsOpen) (s : Setting) (htake : r.take s.option = .ok r') :
    ∃ r₁, r.settle = .ok r₁ ∧ r' = { r₁ with held := some (.setting s none) } := by
  obtain ⟨t, hoption, hne, hwhole, hname⟩ : ∃ t, s.option = 0x2D :: 0x2D :: Utf8.encode t ∧
      Utf8.encode t ≠ [] ∧ Cut.splitFirst (· = 0x3D) (Utf8.encode t) = none ∧
      r.level.long? t = some (.setting s) := by
    cases s with
    | settings => exact ⟨"config".toList, rfl, by decide, rfl, (long?_common r.level).2⟩
    | swift =>
      have hlong : r.level.long? "swift-path".toList = some (.setting .swift) := by
        obtain hlevel | hlevel := hopen.level <;> rw [hlevel] <;> decide
      exact ⟨"swift-path".toList, rfl, by decide, rfl, hlong⟩
  have hchoice : r.takeChoice (.setting s) = .ok r' := by
    rw [← htake, hoption, take_long hopen.ended hne, takeLong_choice hwhole]
    rw [Utf8.decode_encode, Option.bind_some, hname]
  obtain ⟨r₁, hsettle, hdone⟩ := exists_of_bind_ok hchoice
  cases hdone
  exact ⟨r₁, hsettle, rfl⟩

/-- With its value it says what the value is, unless nothing can follow. -/
theorem Records.take_value (h : r.Records gs) (hopen : r.IsOpen) (ha : takesValue a = true)
    {v : Argument} (htake : r.takeAll [a, v] = .ok r') :
    (r'.Records (gs ++ [[a, v]]) ∧ r'.IsOpen) ∨ r'.Doomed := by
  obtain ⟨s, rfl⟩ := exists_option_of_takesValue ha
  rw [takeAll_cons] at htake
  obtain ⟨r₁, hfirst, hnext⟩ := exists_of_bind_ok htake
  rw [takeAll_single] at hnext
  have hlevel := hopen.level_take hfirst
  obtain ⟨r₀, hsettle, hr₁⟩ := hopen.take_setting s hfirst
  obtain ⟨h₀, hheld, hended⟩ := h.settle hsettle
  have hmissing : r₁.held = some (.setting s none) := by rw [hr₁]
  have hended₁ : r₁.ended = false := by
    rw [hr₁]
    exact hended.trans hopen.ended
  -- The second word is the value, or a word that leaves the option without one.
  obtain rfl | rfl := take_of_missing hended₁ hmissing hnext
  · subst hr₁
    refine .inl ⟨h₀.concat (names_pair _ _) rfl ?_, hlevel, hended₁, nofun⟩
    have hvalue : heldSwift (some (.setting s (some v))) =
        (swiftValue? [s.option, v]).toList := by
      cases s with
      | settings => rfl
      | swift => rfl
    unfold swiftRead
    rw [hheld, ← hvalue]
    exact (congrArg (· ++ heldSwift (some (.setting s (some v)))) (List.append_nil _)).symm
  · exact .inr ⟨rfl, s, hmissing⟩

/-- An operand keeps the record. -/
theorem Records.takeWord (h : r.Records gs) (htake : r.takeWord a = .ok r') :
    r'.Records gs ∧ r'.ended = r.ended ∧ ∃ o vs, r'.held = some (.operand o vs) := by
  have hbegin : ∀ o, takeWord.beginOperand r a o = .ok r' →
      r'.Records gs ∧ r'.ended = r.ended ∧ ∃ o vs, r'.held = some (.operand o vs) := by
    intro o hbegin
    obtain ⟨r₁, hsettle, hdone⟩ := exists_of_bind_ok hbegin
    obtain ⟨h₁, hheld, hended⟩ := h.settle hsettle
    cases hdone
    refine ⟨h₁.same rfl ?_, hended, o, [a], rfl⟩
    unfold swiftRead
    rw [hheld]
    rfl
  -- The word joins the operand that is held, if that takes more; otherwise it begins one.
  unfold Reading.takeWord at htake
  split at htake
  · cases htake
  · split at htake
    · next hheld =>
      split at htake
      · cases htake
        refine ⟨h.same rfl ?_, rfl, _, _, rfl⟩
        unfold swiftRead
        rw [hheld]
        rfl
      · exact hbegin _ htake
    · exact hbegin _ htake

theorem Records.take_operand (h : r.Records gs) (hopen : r.IsOpen) (ha : isOption a = false)
    (htake : r.take a = .ok r') : r'.Records gs ∧ r'.IsOpen := by
  have hdashes : ∀ c cs, a ≠ 0x2D :: c :: cs := by
    rintro c cs rfl
    exact absurd ha (by simp [isOption])
  have hend : a ≠ endOfOptions := hdashes _ _
  have hword : r.take a = r.takeWord a := by
    unfold Reading.take
    rw [if_neg (by simp [hopen.ended]), if_neg hend]
    split
    · exact absurd rfl (hdashes _ _)
    · exact absurd rfl (hdashes _ _)
    · split
      · next s hheld => exact absurd hheld (hopen.held s)
      · rfl
  have hlevel := hopen.level_take htake
  obtain ⟨h', hended, o, vs, hheld⟩ := h.takeWord (hword.symm.trans htake)
  refine ⟨h', hlevel, hended.trans hopen.ended, fun s heq => ?_⟩
  rw [hheld] at heq
  cases heq

/-- After `--` all words are operands. -/
theorem Records.takeAll_ended (h : r.Records gs) (hended : r.ended = true)
    (htake : r.takeAll ws = .ok r') : r'.Records gs := by
  induction ws generalizing r with
  | nil =>
    cases htake
    exact h
  | cons a ws ih =>
    rw [takeAll_cons] at htake
    obtain ⟨r₁, hfirst, hrest⟩ := exists_of_bind_ok htake
    unfold Reading.take at hfirst
    rw [if_pos hended] at hfirst
    obtain ⟨h₁, hended₁, _⟩ := h.takeWord hfirst
    exact ih h₁ (hended₁.trans hended) hrest

/-! ## Section 6: The whole -/

/-- A reading that cannot go on does not end well. -/
theorem Doomed.settle_takeAll_ne_ok (h : r.Doomed) (htake : r.takeAll ws = .ok r')
    {r'' : Reading} : r'.settle ≠ .ok r'' := by
  obtain ⟨s, hheld⟩ := h.held
  cases ws with
  | nil =>
    cases htake
    rw [settle_of_missing hheld]
    exact nofun
  | cons a ws =>
    rw [takeAll_cons] at htake
    obtain ⟨r₁, hfirst, _⟩ := exists_of_bind_ok htake
    exact absurd hfirst h.take_ne_ok

/-- `--` says nothing itself. -/
theorem Records.take_end (h : r.Records gs) (hopen : r.IsOpen)
    (htake : r.take endOfOptions = .ok r') : r'.Records gs ∧ r'.ended = true := by
  unfold Reading.take at htake
  rw [if_neg (by simp [hopen.ended]), if_pos rfl] at htake
  cases htake
  exact ⟨h.same rfl rfl, rfl⟩

/-- A reading that ends well has kept the options among the words it took, in
    order, and only them. -/
theorem Records.takeAll (h : r.Records gs) (hopen : r.IsOpen) (htake : r.takeAll ws = .ok r')
    {r'' : Reading} (hsettle : r'.settle = .ok r'') : r''.Records (gs ++ optionsIn true ws) := by
  -- The induction follows the way in which options are found among the words.
  fun_induction optionsIn true ws generalizing r gs with
  | case1 =>
    cases htake
    rw [List.append_nil]
    exact (h.settle hsettle).1
  | case2 a ha =>
    rw [takeAll_single] at htake
    cases hvalue : takesValue a with
    | true =>
      obtain ⟨s, rfl⟩ := exists_option_of_takesValue hvalue
      obtain ⟨r₁, _, rfl⟩ := hopen.take_setting s htake
      rw [settle_of_missing rfl] at hsettle
      cases hsettle
    | false => exact ((h.take_option hopen ha.2 ha.1 hvalue htake).1.settle hsettle).1
  | case3 a ha =>
    rw [takeAll_single] at htake
    rw [List.append_nil]
    by_cases hend : a = endOfOptions
    · subst hend
      exact ((h.take_end hopen htake).1.settle hsettle).1
    · have hoperand : isOption a = false := by simpa [hend] using ha
      exact ((h.take_operand hopen hoperand htake).1.settle hsettle).1
  | case4 v rest =>
    rw [takeAll_cons] at htake
    obtain ⟨r₁, hfirst, hrest⟩ := exists_of_bind_ok htake
    obtain ⟨h₁, hended⟩ := h.take_end hopen hfirst
    rw [List.append_nil]
    exact ((h₁.takeAll_ended hended hrest).settle hsettle).1
  | case5 a v rest hend hvalue ih =>
    have hwords : a :: v :: rest = [a, v] ++ rest := rfl
    rw [hwords, takeAll_append] at htake
    obtain ⟨r₁, hfirst, hrest⟩ := exists_of_bind_ok htake
    obtain ⟨h₁, hopen₁⟩ | hdoomed := h.take_value hopen hvalue hfirst
    · rw [List.append_cons]
      exact ih h₁ hopen₁ hrest
    · exact absurd hsettle (hdoomed.settle_takeAll_ne_ok hrest)
  | case6 a v rest hend hvalue hoption ih =>
    rw [takeAll_cons] at htake
    obtain ⟨r₁, hfirst, hrest⟩ := exists_of_bind_ok htake
    obtain ⟨h₁, hopen₁⟩ := h.take_option hopen hoption hend (Bool.eq_false_iff.2 hvalue) hfirst
    rw [List.append_cons]
    exact ih h₁ hopen₁ hrest
  | case7 a v rest hend hvalue hoption _ ih =>
    rw [takeAll_cons] at htake
    obtain ⟨r₁, hfirst, hrest⟩ := exists_of_bind_ok htake
    obtain ⟨h₁, hopen₁⟩ := h.take_operand hopen (Bool.eq_false_iff.2 hoption) hfirst
    exact ih h₁ hopen₁ hrest
  | case8 a v rest hend hvalue hoption hpast => exact absurd rfl hpast

/-! ## Section 7: What is made of it -/

/-- Of two opposite options the last one counts. -/
theorem Records.chosen?_preparation (h : r.Records gs) (k : Switch) :
    k.chosen? r.preparation = (k.said gs).getLast? := by
  have hpair : k.chosen? r.preparation = r.pair k.flag := by cases k <;> rfl
  have htrue := h.switch k true
  have hfalse := h.switch k false
  rw [hpair, pair]
  cases hlast : (k.said gs).getLast? with
  | none => simp_all
  | some b => cases b <;> simp_all

theorem Records.ssh_preparation (h : r.Records gs) :
    r.preparation.ssh = decide ([sshOption] ∈ gs) := by
  rw [← decide_eq_decide.2 h.ssh]
  exact List.contains_eq_mem ..

/-- The path can be given once. -/
theorem Records.swift_preparation (h : r.Records gs) (hheld : r.held = none) :
    (swiftSaid gs).length ≤ 1 ∧ r.preparation.swift = (swiftSaid gs).getLast?.map Path.mk := by
  have hsaid : swiftSaid gs = r.swift.toList.map (·.bytes) := by
    rw [← h.swift, swiftRead, hheld]
    exact List.append_nil _
  rw [hsaid]
  cases hswift : r.swift with
  | none => exact ⟨Nat.zero_le 1, hswift⟩
  | some p => exact ⟨Nat.le_refl 1, hswift⟩

end Reading
end CommandLine
end ScriptDeps
