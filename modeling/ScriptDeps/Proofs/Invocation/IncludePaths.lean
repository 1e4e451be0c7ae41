import ScriptDeps.Proofs.Prepare.Resolve

/-! # Include paths that are preferred

    The words of an invocation are gone through from left to right, one or two
    at a time.  Read word by word (`Prefers`): a word is the path of a bare
    `-I` if that stands before it and is itself no path (`IsOperand`); such a
    path, and one attached to its `-I`, gives way to its `Modules` directory,
    and no other word changes. -/

namespace ScriptDeps
namespace Invocation

/-! ## Section 1: Model -/

/-- The word at a place is the path of the bare `-I` before it. -/
def IsOperand (args : List Text) : Nat → Prop
  | 0 => False
  | i + 1 => args[i]? = some "-I".toList ∧ ¬ IsOperand args i

instance decidableIsOperand (args : List Text) : (i : Nat) → Decidable (IsOperand args i)
  | 0 => inferInstanceAs (Decidable False)
  | i + 1 =>
    have := decidableIsOperand args i
    inferInstanceAs (Decidable (args[i]? = some "-I".toList ∧ ¬ IsOperand args i))

/-- The `Modules` directory of `path` if there is one, and else `path`. -/
def preferred (fs : FileSystem) (cwd : Location) (path : Text) : Text :=
  if fs.isDirectory cwd (Path.ofText (modulesPath path)) then modulesPath path else path

/-- `patched` is `args` word by word, with the include paths that are preferred. -/
structure Prefers (fs : FileSystem) (cwd : Location) (args patched : List Text) : Prop where
  length : patched.length = args.length
  /-- The word after a bare `-I`. -/
  operand : ∀ i path, args[i]? = some path → IsOperand args i →
    patched[i]? = some (preferred fs cwd path)
  /-- The rest of a word that starts with `-I`. -/
  attached : ∀ i path, args[i]? = some ("-I".toList ++ path) → path ≠ [] → ¬ IsOperand args i →
    patched[i]? = some ("-I".toList ++ preferred fs cwd path)
  other : ∀ i word, args[i]? = some word → ¬ IsOperand args i →
    (∀ path, path ≠ [] → word ≠ "-I".toList ++ path) → patched[i]? = some word

variable {fs : FileSystem} {cwd : Location} {args patched rest : List Text} {word path : Text}

/-! ## Section 2: One word more -/

/-- After a word that is no bare `-I`, the others are read as without it. -/
theorem isOperand_cons (hword : word ≠ "-I".toList) (i : Nat) :
    IsOperand (word :: rest) (i + 1) ↔ IsOperand rest i := by
  induction i with
  | zero =>
    refine ⟨fun hop => absurd ?_ hword, False.elim⟩
    exact Option.some.inj hop.1
  | succ i ih => rw [IsOperand, ih, IsOperand, List.getElem?_cons_succ]

/-- So they are after a bare `-I` with its path. -/
theorem isOperand_pair (path : Text) (i : Nat) :
    IsOperand ("-I".toList :: path :: rest) (i + 2) ↔ IsOperand rest i := by
  induction i with
  | zero => simp [IsOperand]
  | succ i ih =>
    rw [IsOperand, ih, IsOperand, List.getElem?_cons_succ, List.getElem?_cons_succ]

/-- The first word is never a path. -/
theorem not_isOperand_zero (args : List Text) : ¬ IsOperand args 0 := id

theorem Prefers.nil (fs : FileSystem) (cwd : Location) : Prefers fs cwd [] [] := by
  refine ⟨rfl, ?_, ?_, ?_⟩
  · intro i path hpath
    cases hpath
  · intro i path hpath
    cases hpath
  · intro i word hword
    cases hword

/-- A word in front that is no bare `-I` with a path after it. -/
theorem Prefers.cons (h : Prefers fs cwd rest patched) {word' : Text}
    (hword : word ≠ "-I".toList ∨ rest = [])
    (hattached : ∀ path, path ≠ [] → word = "-I".toList ++ path →
      word' = "-I".toList ++ preferred fs cwd path)
    (hother : (∀ path, path ≠ [] → word ≠ "-I".toList ++ path) → word' = word) :
    Prefers fs cwd (word :: rest) (word' :: patched) := by
  -- The words behind it stay what they were, and only their positions change.
  have hlater : ∀ i, i < rest.length →
      (IsOperand (word :: rest) (i + 1) ↔ IsOperand rest i) := by
    intro i hi
    rcases hword with hword | rfl
    · exact isOperand_cons hword i
    · cases hi
  have hinside : ∀ {i w}, rest[i]? = some w → i < rest.length := fun hw =>
    (List.getElem?_eq_some_iff.1 hw).1
  refine ⟨congrArg Nat.succ h.length, ?_, ?_, ?_⟩
  · intro i path hpath hop
    cases i with
    | zero => exact absurd hop (not_isOperand_zero _)
    | succ i => exact h.operand i path hpath ((hlater i (hinside hpath)).1 hop)
  · intro i path hpath hne hop
    cases i with
    | zero => exact congrArg some (hattached path hne (Option.some.inj hpath))
    | succ i => exact h.attached i path hpath hne (mt (hlater i (hinside hpath)).2 hop)
  · intro i w hw hop hno
    cases i with
    | zero =>
      obtain rfl : word = w := Option.some.inj hw
      exact congrArg some (hother hno)
    | succ i => exact h.other i w hw (mt (hlater i (hinside hw)).2 hop) hno

/-- A bare `-I` in front, with its path. -/
theorem Prefers.pair (h : Prefers fs cwd rest patched) (path : Text) :
    Prefers fs cwd ("-I".toList :: path :: rest)
      ("-I".toList :: preferred fs cwd path :: patched) := by
  have hbare : ∀ path, path ≠ [] → "-I".toList ≠ "-I".toList ++ path := by
    intro path hne heq
    exact hne (List.append_right_eq_self.1 heq.symm)
  have hsecond : IsOperand ("-I".toList :: path :: rest) 1 := ⟨rfl, not_isOperand_zero _⟩
  -- The first position is the option, the second its operand, and then the rest begins.
  refine ⟨congrArg (· + 2) h.length, ?_, ?_, ?_⟩
  · intro i w hw hop
    match i with
    | 0 => exact absurd hop (not_isOperand_zero _)
    | 1 =>
      obtain rfl : path = w := Option.some.inj hw
      rfl
    | i + 2 => exact h.operand i w hw ((isOperand_pair path i).1 hop)
  · intro i w hw hne hop
    match i with
    | 0 => exact absurd (Option.some.inj hw) (hbare w hne)
    | 1 => exact absurd hsecond hop
    | i + 2 => exact h.attached i w hw hne (mt (isOperand_pair path i).2 hop)
  · intro i w hw hop hno
    match i with
    | 0 =>
      obtain rfl : "-I".toList = w := Option.some.inj hw
      rfl
    | 1 => exact absurd hsecond hop
    | i + 2 => exact h.other i w hw (mt (isOperand_pair path i).2 hop) hno

/-! ## Section 3: All words -/

theorem run_preferModules (path : Text) (h : Host) (m : Machine) :
    (preferModules path).run h m = (preferred m.files h.cwd path, m) := by
  unfold preferModules preferred
  simp only [Program.bind_eq, Program.request, Program.ask_bind, Program.run_ask]
  show Program.run h (if m.files.isDirectory h.cwd _ = true then _ else _) m = _
  split
  · rfl
  · rfl

/-- To prefer other include paths is to do so word by word, and changes nothing. -/
theorem exists_run_preferModulesAll (args : List Text) (h : Host) (m : Machine) :
    ∃ patched, (preferModulesAll args).run h m = (patched, m) ∧
      Prefers m.files h.cwd args patched := by
  fun_induction preferModulesAll args with
  | case1 => exact ⟨[], rfl, .nil _ _⟩
  | case2 path rest ih =>
    obtain ⟨patched, hrun, hprefers⟩ := ih
    refine ⟨_, ?_, hprefers.pair path⟩
    simp only [Program.bind_eq, Program.run_bind, run_preferModules, hrun]
    rfl
  | case3 path rest hpair hempty ih =>
    -- A bare `-I` at the end.
    obtain ⟨patched, hrun, hprefers⟩ := ih
    obtain rfl : path = [] := List.isEmpty_iff.1 hempty
    have hlast : rest = [] := by
      cases rest with
      | nil => rfl
      | cons w rest => exact (hpair w rest rfl rfl).elim
    refine ⟨['-', 'I'] :: patched, ?_, hprefers.cons (.inr hlast) ?_ fun _ => rfl⟩
    · simp only [Program.bind_eq, Program.run_bind, hrun]
      rfl
    · intro path hne heq
      exact absurd (List.append_right_eq_self.1 heq.symm) hne
  | case4 path rest hpair hempty ih =>
    obtain ⟨patched, hrun, hprefers⟩ := ih
    have hne : path ≠ [] := fun hnil => hempty (List.isEmpty_iff.2 hnil)
    have hword : '-' :: 'I' :: path = "-I".toList ++ path := rfl
    have hbare : '-' :: 'I' :: path ≠ "-I".toList := by
      rw [hword]
      exact fun heq => hne (List.append_right_eq_self.1 heq)
    refine ⟨('-' :: 'I' :: preferred m.files h.cwd path) :: patched, ?_,
      hprefers.cons (.inl hbare) ?_ ?_⟩
    · simp only [Program.bind_eq, Program.run_bind, run_preferModules, hrun]
      rfl
    · intro path' _ heq
      rw [hword] at heq
      rw [← List.append_cancel_left heq]
      rfl
    · intro hno
      exact absurd rfl (hno path hne)
  | case5 word rest _ hattached ih =>
    obtain ⟨patched, hrun, hprefers⟩ := ih
    refine ⟨word :: patched, ?_, hprefers.cons (.inl ?_) ?_ fun _ => rfl⟩
    · simp only [Program.bind_eq, Program.run_bind, hrun]
      rfl
    · exact fun heq => hattached [] heq
    · exact fun path _ heq => (hattached path heq).elim

end Invocation
end ScriptDeps
