import Mathlib.Data.List.TakeDrop
import ScriptDeps.Annotation
import ScriptDeps.Proofs.Text.Trim

/-! # The layout of import lines

    A line that imports is a row of parts: spacing, `@testable`, `import`, a
    kind of declaration, the module, a member, and what is left.  `Layout`
    names the parts and says how far each of them goes; the reading finds
    exactly the lines that can be laid out (`ofText?_eq_some_iff`), so the
    dependency of a line depends on its module and its comment alone
    (`line_declares_by_layout`). -/

namespace ScriptDeps
namespace ImportLine

open Cut

/-! ## Section 1: Model -/

/-- Any number of spacing characters. -/
def IsSpace (s : Text) : Prop := ∀ c ∈ s, Text.isSpacing c = true

/-- One or more spacing characters. -/
def IsGap (s : Text) : Prop := s ≠ [] ∧ IsSpace s

/-- A word with the gap after it. -/
def IsWordWithGap (word s : Text) : Prop := ∃ gap, IsGap gap ∧ s = word ++ gap

/-- The name of a module: one or more characters that do not end it. -/
def IsModuleName (m : Text) : Prop :=
  m ≠ [] ∧ ∀ c ∈ m, c ≠ '.' ∧ c ≠ '/' ∧ Text.isSpacing c = false

/-- The parts of an import line, in the order in which they stand. -/
structure Layout where
  indent : Text
  lead   : Text
  gap    : Text
  kind   : Text
  module : Text
  member : Text
  space  : Text
  tail   : Text

namespace Layout

/-- What stands from the module on. -/
def fromModule (l : Layout) : Text := l.module ++ (l.member ++ (l.space ++ l.tail))

/-- The line that is laid out. -/
def text (l : Layout) : Text :=
  l.indent ++ (l.lead ++ ("import".toList ++ (l.gap ++ (l.kind ++ l.fromModule))))

/-- How far each part goes.  A kind is taken for one wherever it can be; the
    module and the member are as long as they can be. -/
structure IsWellFormed (l : Layout) : Prop where
  indent : IsSpace l.indent
  lead   : l.lead = [] ∨ IsWordWithGap "@testable".toList l.lead
  gap    : IsGap l.gap
  kind   : (∃ k ∈ kinds, IsWordWithGap k l.kind) ∨
    (l.kind = [] ∧ ∀ k ∈ kinds, ∀ c t, Text.isSpacing c = true → l.fromModule ≠ k ++ c :: t)
  module : IsModuleName l.module ∧
    ∀ c ∈ (l.member ++ (l.space ++ l.tail)).head?, c = '.' ∨ c = '/' ∨ Text.isSpacing c = true
  member : (∃ run, l.member = '.' :: run ∧ run ≠ [] ∧ (∀ c ∈ run, Text.isBlank c = false) ∧
      ∀ c ∈ (l.space ++ l.tail).head?, Text.isBlank c = true) ∨
    (l.member = [] ∧ ∀ c t, l.space ++ l.tail = '.' :: c :: t → Text.isBlank c = true)
  space  : IsSpace l.space
  tail   : ∀ c ∈ l.tail.head?, Text.isSpacing c = false

end Layout

/-- `tail` starts with a comment that has the text `body` in it.  A comment
    goes to the end of the line, or up to the first end mark. -/
inductive HoldsComment : Text → Text → Prop where
  | line (body : Text) : HoldsComment ('/' :: '/' :: body) body
  | block {inner body rest : Text} (h : IsFirst "*/".toList inner body rest) :
      HoldsComment ('/' :: '*' :: inner) body

/-- `tail` starts with a comment, and `comment` is what it says. -/
def Says (tail comment : Text) : Prop :=
  comment ≠ [] ∧ ∃ body, HoldsComment tail body ∧ TrimsTo Text.isSpacing body comment

/-- The line imports `module`, with the annotation `comment`. -/
def IsAnnotated (line module comment : Text) : Prop :=
  ∃ l : Layout, l.IsWellFormed ∧ l.text = line ∧ l.module = module ∧ Says l.tail comment

/-- The line imports `module`, without an annotation. -/
def IsBare (line module : Text) : Prop :=
  ∃ l : Layout, l.IsWellFormed ∧ l.text = line ∧ l.module = module ∧
    ∀ comment, ¬ Says l.tail comment

/-! ## Section 2: Comments -/

variable {t tail body comment word s : Text}

theorem commentBody?_eq_some_iff : commentBody? tail = some body ↔ HoldsComment tail body := by
  constructor
  · intro h
    unfold commentBody? at h
    split at h
    · obtain ⟨⟨found, rest⟩, hsplit, rfl⟩ := Option.map_eq_some_iff.1 h
      exact .block (splitAt?_eq_some_iff.1 hsplit)
    · cases h
      exact .line _
    · cases h
  · intro h
    cases h with
    | line => rfl
    | block h => exact congrArg (Option.map Prod.fst) (splitAt?_eq_some_iff.2 h)

theorem comment?_eq_some_iff : comment? tail = some comment ↔ Says tail comment := by
  unfold comment?
  cases hbody : commentBody? tail with
  | none =>
    refine iff_of_false nofun ?_
    rintro ⟨_, body, hholds, _⟩
    rw [commentBody?_eq_some_iff.2 hholds] at hbody
    cases hbody
  | some body =>
    dsimp only
    constructor
    · intro h
      split at h
      · cases h
      · next hne =>
        cases h
        exact ⟨by simpa using hne, body, commentBody?_eq_some_iff.1 hbody, trimsTo_trim _ body⟩
    · rintro ⟨hne, body', hholds, htrims⟩
      cases (commentBody?_eq_some_iff.2 hholds).symm.trans hbody
      rw [trimsTo_iff.1 htrims, if_neg (by simpa using hne)]

theorem comment?_eq_none_iff : comment? tail = none ↔ ∀ comment, ¬ Says tail comment := by
  rw [Option.eq_none_iff_forall_ne_some]
  exact forall_congr' fun comment => not_congr comment?_eq_some_iff

theorem comment?_congr {tail' : Text} (h : ∀ comment, Says tail comment ↔ Says tail' comment) :
    comment? tail = comment? tail' := by
  refine Option.ext fun comment => ?_
  rw [comment?_eq_some_iff, comment?_eq_some_iff]
  exact h comment

/-! ## Section 3: Words -/

theorem afterWord?_eq_some_iff :
    afterWord? word t = some tail ↔
      ∃ s, IsWordWithGap word s ∧ t = s ++ tail ∧ Stops Text.isSpacing tail := by
  unfold afterWord?
  constructor
  · intro h
    split at h
    · next c rest hafter =>
      split at h
      · next hc =>
        cases h
        obtain ⟨run, hrest, hrun⟩ := exists_run Text.isSpacing rest
        refine ⟨word ++ c :: run, ⟨c :: run, ⟨List.cons_ne_nil _ _, ?_⟩, rfl⟩, ?_,
          stops_dropWhile _ rest⟩
        · intro x hx
          rcases List.mem_cons.1 hx with rfl | hx
          · exact hc
          · exact hrun x hx
        · rw [after?_eq_some_iff.1 hafter, List.append_assoc, List.cons_append, ← hrest]
      · cases h
    · cases h
  · rintro ⟨_, ⟨gap, ⟨hne, hspace⟩, rfl⟩, rfl, hstops⟩
    cases gap with
    | nil => exact absurd rfl hne
    | cons c run =>
      rw [List.append_assoc, after?_append]
      dsimp only [List.cons_append]
      rw [if_pos (hspace c (List.mem_cons_self ..)),
        dropWhile_run (fun x hx => hspace x (List.mem_cons_of_mem _ hx)) hstops]

theorem afterWord?_eq_none_iff :
    afterWord? word t = none ↔ ∀ c u, Text.isSpacing c = true → t ≠ word ++ c :: u := by
  unfold afterWord?
  constructor
  · rintro h c u hc rfl
    rw [after?_append] at h
    dsimp only at h
    rw [if_pos hc] at h
    cases h
  · intro h
    split
    · next c u hafter =>
      rw [if_neg fun hc => h c u hc (after?_eq_some_iff.1 hafter)]
    · rfl

theorem afterWord?_append (hs : IsWordWithGap word s) (htail : Stops Text.isSpacing tail) :
    afterWord? word (s ++ tail) = some tail :=
  afterWord?_eq_some_iff.2 ⟨s, hs, rfl, htail⟩

/-- A kind is a word without spacing in it. -/
theorem isSpacing_of_mem_kind {k : Text} (hk : k ∈ kinds) : ∀ c ∈ k, Text.isSpacing c = false := by
  have hall : ∀ k ∈ kinds, k.all (fun c => !Text.isSpacing c) = true := by decide
  intro c hc
  simpa using List.all_eq_true.1 (hall k hk) c hc

/-- Of the kinds, at most one stands in front. -/
theorem kind_unique {k k' tail' : Text} (hk : k ∈ kinds) (hk' : k' ∈ kinds)
    (h : afterWord? k t = some tail) (h' : afterWord? k' t = some tail') : tail' = tail := by
  -- A kind has no spacing in it, so it is all that stands before the first spacing.
  have hfront : ∀ k ∈ kinds, ∀ u, afterWord? k t = some u →
      k = t.takeWhile fun c => !Text.isSpacing c := by
    intro k hk u hu
    obtain ⟨_, ⟨gap, ⟨hne, hspace⟩, rfl⟩, rfl, _⟩ := afterWord?_eq_some_iff.1 hu
    have hstops : Stops (fun c => !Text.isSpacing c) (gap ++ u) := by
      refine Stops.append (stops_of_forall fun c hc => ?_) hne u
      rw [hspace c hc]
      rfl
    have hrun : ∀ c ∈ k, (!Text.isSpacing c) = true := by
      intro c hc
      rw [isSpacing_of_mem_kind hk c hc]
      rfl
    rw [List.append_assoc, takeWhile_run hrun hstops]
  rw [hfront k hk _ h, ← hfront k' hk' _ h'] at h
  exact Option.some.inj (h'.symm.trans h)

theorem findSome?_kinds {k : Text} (hk : k ∈ kinds) (h : afterWord? k t = some tail) :
    (kinds.findSome? fun kind => afterWord? kind t) = some tail := by
  cases hfind : kinds.findSome? fun kind => afterWord? kind t with
  | none =>
    rw [List.findSome?_eq_none_iff] at hfind
    rw [hfind k hk] at h
    cases h
  | some tail' =>
    obtain ⟨k', hk', h'⟩ := List.exists_of_findSome?_eq_some hfind
    rw [kind_unique hk hk' h h']

/-! ## Section 4: Members -/

/-- What a member is not, and what is one. -/
theorem exists_member (t : Text) :
    ∃ member rest, t = member ++ rest ∧ dropMember t = rest ∧
      ((∃ run, member = '.' :: run ∧ run ≠ [] ∧ (∀ c ∈ run, Text.isBlank c = false) ∧
          ∀ c ∈ rest.head?, Text.isBlank c = true) ∨
        (member = [] ∧ ∀ c u, rest = '.' :: c :: u → Text.isBlank c = true)) := by
  unfold dropMember
  -- A dot alone or in front of a blank is no member, and neither is what has no dot.
  split
  · next t =>
    cases t with
    | nil => exact ⟨[], ['.'], rfl, rfl, .inr ⟨rfl, fun c u h => by cases h⟩⟩
    | cons c t =>
      dsimp only
      split
      · next hc =>
        refine ⟨[], '.' :: c :: t, rfl, rfl, .inr ⟨rfl, fun c' u h => ?_⟩⟩
        cases h
        exact hc
      · next hc =>
        obtain ⟨run, hrest, hrun⟩ := exists_run (fun c => !Text.isBlank c) (c :: t)
        have hstops := stops_dropWhile (fun c => !Text.isBlank c) (c :: t)
        refine ⟨'.' :: run, _, by rw [List.cons_append, ← hrest], rfl,
          .inl ⟨run, rfl, ?_, fun x hx => by simpa using hrun x hx,
            fun x hx => by simpa using hstops x hx⟩⟩
        rintro rfl
        rw [List.nil_append] at hrest
        rw [← hrest, stops_cons] at hstops
        exact hc (by simpa using hstops)
  · next hdot =>
    refine ⟨[], t, rfl, rfl, .inr ⟨rfl, fun c u h => absurd h (hdot _)⟩⟩

theorem dropMember_of_run {run rest : Text} (hne : run ≠ [])
    (hrun : ∀ c ∈ run, Text.isBlank c = false) (hrest : ∀ c ∈ rest.head?, Text.isBlank c = true) :
    dropMember ('.' :: run ++ rest) = rest := by
  cases run with
  | nil => exact absurd rfl hne
  | cons c run =>
    have hstops : Stops (fun c => !Text.isBlank c) rest := fun x hx => by simp [hrest x hx]
    have hrun' : ∀ x ∈ c :: run, (!Text.isBlank x) = true := fun x hx => by simp [hrun x hx]
    show (if Text.isBlank c then '.' :: (c :: run ++ rest)
      else (c :: run ++ rest).dropWhile fun c => !Text.isBlank c) = rest
    rw [if_neg (by simp [hrun c (List.mem_cons_self ..)]), dropWhile_run hrun' hstops]

theorem dropMember_of_none (h : ∀ c u, t = '.' :: c :: u → Text.isBlank c = true) :
    dropMember t = t := by
  unfold dropMember
  split
  · next t =>
    cases t with
    | nil => rfl
    | cons c t => exact if_pos (h c t rfl)
  · rfl

/-! ## Section 5: Whole lines -/

/-- The characters of a module name are those that do not end one. -/
theorem isModuleName_of_run {m : Text} (hne : m ≠ []) (hrun : ∀ c ∈ m, (!endsModule c) = true) :
    IsModuleName m :=
  ⟨hne, fun c hc => by simpa [endsModule, and_assoc] using hrun c hc⟩

namespace Layout.IsWellFormed

variable {l : Layout}

theorem stops_fromModule (h : l.IsWellFormed) : Stops Text.isSpacing l.fromModule :=
  (stops_of_forall fun c hc => (h.module.1.2 c hc).2.2).append h.module.1.1 _

theorem stops_kind (h : l.IsWellFormed) : Stops Text.isSpacing (l.kind ++ l.fromModule) := by
  rcases h.kind with ⟨k, hk, gap, _, hkind⟩ | ⟨hkind, _⟩
  · have hne : ∀ k ∈ kinds, k ≠ [] := by decide
    rw [hkind, List.append_assoc]
    exact (stops_of_forall (isSpacing_of_mem_kind hk)).append (hne k hk) _
  · rw [hkind]
    exact h.stops_fromModule

/-- The spacing in front ends at `@testable` or at `import`. -/
theorem dropWhile_text (h : l.IsWellFormed) : l.text.dropWhile Text.isSpacing =
    l.lead ++ ("import".toList ++ (l.gap ++ (l.kind ++ l.fromModule))) := by
  refine dropWhile_run h.indent ?_
  rcases h.lead with hlead | ⟨gap, _, hlead⟩
  · rw [hlead]
    exact stops_cons.2 rfl
  · rw [hlead]
    exact stops_cons.2 rfl

/-- Without `@testable` the line starts with `import`, which is not that word. -/
theorem getD_lead (h : l.IsWellFormed) {rest : Text} :
    (afterWord? "@testable".toList (l.lead ++ ("import".toList ++ rest))).getD
      (l.lead ++ ("import".toList ++ rest)) = "import".toList ++ rest := by
  rcases h.lead with hlead | hlead
  · rw [hlead, List.nil_append, afterWord?_eq_none_iff.2 fun c u _ heq => by cases heq]
    rfl
  · have hstops : Stops Text.isSpacing ("import".toList ++ rest) := stops_cons.2 rfl
    rw [afterWord?_append hlead hstops]
    rfl

theorem afterWord?_import (h : l.IsWellFormed) :
    afterWord? "import".toList ("import".toList ++ (l.gap ++ (l.kind ++ l.fromModule))) =
      some (l.kind ++ l.fromModule) := by
  have himport : IsWordWithGap "import".toList ("import".toList ++ l.gap) := ⟨l.gap, h.gap, rfl⟩
  rw [← List.append_assoc]
  exact afterWord?_append himport h.stops_kind

theorem getD_kind (h : l.IsWellFormed) :
    ((kinds.findSome? fun kind => afterWord? kind (l.kind ++ l.fromModule)).getD
      (l.kind ++ l.fromModule)) = l.fromModule := by
  rcases h.kind with ⟨k, hk, hs⟩ | ⟨hnil, hnone⟩
  · rw [findSome?_kinds hk (afterWord?_append hs h.stops_fromModule)]
    rfl
  · rw [hnil, List.nil_append, List.findSome?_eq_none_iff.2]
    · rfl
    · intro k hk
      exact afterWord?_eq_none_iff.2 (hnone k hk)

/-- The module is the run up to the first character that ends one. -/
theorem span_fromModule (h : l.IsWellFormed) : l.fromModule.span (fun c => !endsModule c) =
    (l.module, l.member ++ (l.space ++ l.tail)) := by
  have hrun : ∀ c ∈ l.module, (!endsModule c) = true := by
    intro c hc
    obtain ⟨hdot, hslash, hspace⟩ := h.module.1.2 c hc
    simp [endsModule, hdot, hslash, hspace]
  have hstops : Stops (fun c => !endsModule c) (l.member ++ (l.space ++ l.tail)) := by
    intro c hc
    rcases h.module.2 c hc with rfl | rfl | hspace
    · rfl
    · rfl
    · simp [endsModule, hspace]
  rw [List.span_eq_takeWhile_dropWhile]
  exact Prod.ext (takeWhile_run hrun hstops) (dropWhile_run hrun hstops)

theorem dropMember_member (h : l.IsWellFormed) :
    dropMember (l.member ++ (l.space ++ l.tail)) = l.space ++ l.tail := by
  rcases h.member with ⟨run, hmember, hne, hrun, hrest⟩ | ⟨hmember, hnone⟩
  · rw [hmember]
    exact dropMember_of_run hne hrun hrest
  · rw [hmember]
    exact dropMember_of_none hnone

/-- Reading a line that is laid out finds the module and looks for the comment
    in what is left. -/
theorem ofText?_eq (h : l.IsWellFormed) : ofText? l.text = some ⟨l.module, comment? l.tail⟩ := by
  have hspace : (l.space ++ l.tail).dropWhile Text.isSpacing = l.tail :=
    dropWhile_run h.space h.tail
  -- The reading takes off one part after the other.
  unfold ofText?
  dsimp only
  rw [h.dropWhile_text, h.getD_lead, h.afterWord?_import]
  show (if (_ : Prod Text Text).1.isEmpty = true then none else _) = _
  rw [h.getD_kind, h.span_fromModule]
  rw [if_neg (by simpa using h.module.1.1), h.dropMember_member, hspace]

end Layout.IsWellFormed

/-- What `@testable` leaves, if it is there. -/
theorem exists_lead (t : Text) :
    ∃ lead rest, t = lead ++ rest ∧ (afterWord? "@testable".toList t).getD t = rest ∧
      (lead = [] ∨ IsWordWithGap "@testable".toList lead) := by
  cases hafter : afterWord? "@testable".toList t with
  | none => exact ⟨[], t, rfl, rfl, .inl rfl⟩
  | some rest =>
    obtain ⟨lead, hlead, heq, _⟩ := afterWord?_eq_some_iff.1 hafter
    exact ⟨lead, rest, heq, rfl, .inr hlead⟩

/-- What a kind of declaration leaves, if one is there. -/
theorem exists_kind (t : Text) :
    ∃ kind rest, t = kind ++ rest ∧ (kinds.findSome? fun k => afterWord? k t).getD t = rest ∧
      ((∃ k ∈ kinds, IsWordWithGap k kind) ∨
        (kind = [] ∧ ∀ k ∈ kinds, ∀ c u, Text.isSpacing c = true → rest ≠ k ++ c :: u)) := by
  cases hfind : kinds.findSome? fun k => afterWord? k t with
  | none =>
    rw [List.findSome?_eq_none_iff] at hfind
    exact ⟨[], t, rfl, rfl, .inr ⟨rfl, fun k hk => afterWord?_eq_none_iff.1 (hfind k hk)⟩⟩
  | some rest =>
    obtain ⟨k, hk, hafter⟩ := List.exists_of_findSome?_eq_some hfind
    obtain ⟨kind, hkind, heq, _⟩ := afterWord?_eq_some_iff.1 hafter
    exact ⟨kind, rest, heq, rfl, .inl ⟨k, hk, hkind⟩⟩

/-- A line that is read as an import can be laid out. -/
theorem exists_layout {line : Text} {found : ImportLine} (h : ofText? line = some found) :
    ∃ l : Layout, l.IsWellFormed ∧ l.text = line ∧ found = ⟨l.module, comment? l.tail⟩ := by
  -- Each step of the reading takes one part off the front of the line.
  obtain ⟨indent, hline, hindent⟩ := exists_run Text.isSpacing line
  obtain ⟨lead, t, hlead, hgetLead, hleadForm⟩ := exists_lead (line.dropWhile Text.isSpacing)
  unfold ofText? at h
  dsimp only at h
  rw [hgetLead, Option.bind_eq_bind, Option.bind_eq_some_iff] at h
  obtain ⟨t', himport, h⟩ := h
  obtain ⟨_, ⟨gap, hgap, rfl⟩, ht, _⟩ := afterWord?_eq_some_iff.1 himport
  obtain ⟨kind, rest, hkind, hgetKind, hkindForm⟩ := exists_kind t'
  rw [hgetKind, List.span_eq_takeWhile_dropWhile] at h
  dsimp only at h
  split at h
  · cases h
  · next hmodule =>
    obtain ⟨member, after, hmember, hdrop, hmemberForm⟩ :=
      exists_member (rest.dropWhile fun c => !endsModule c)
    obtain ⟨space, htail, hspace⟩ := exists_run Text.isSpacing after
    rw [hdrop] at h
    cases h
    have hrest : rest = rest.takeWhile (fun c => !endsModule c) ++ (member ++
        (space ++ after.dropWhile Text.isSpacing)) := by
      rw [← htail, ← hmember, List.takeWhile_append_dropWhile]
    refine ⟨⟨indent, lead, gap, kind, rest.takeWhile fun c => !endsModule c, member, space,
      after.dropWhile Text.isSpacing⟩, ⟨hindent, hleadForm, hgap, ?_, ⟨?_, ?_⟩, ?_, hspace,
      stops_dropWhile _ after⟩, ?_, rfl⟩
    · simpa only [Layout.fromModule, ← hrest] using hkindForm
    · exact isModuleName_of_run (by simpa using hmodule) (List.all_eq_true.1 List.all_takeWhile)
    · intro c hc
      rw [← htail, ← hmember] at hc
      have hends : endsModule c = true := by simpa using stops_dropWhile _ rest c hc
      simpa [endsModule, or_assoc] using hends
    · rw [← htail]
      exact hmemberForm
    · show indent ++ (lead ++ ("import".toList ++ (gap ++ (kind ++ Layout.fromModule _)))) = line
      rw [Layout.fromModule, ← hrest, ← hkind, ← List.append_assoc "import".toList, ← ht, ← hlead,
        ← hline]

/-- The lines that are read as imports are those that can be laid out. -/
theorem ofText?_eq_some_iff {line module : Text} {comment : Option Text} :
    ofText? line = some ⟨module, comment⟩ ↔
      ∃ l : Layout, l.IsWellFormed ∧ l.text = line ∧ l.module = module ∧
        comment? l.tail = comment := by
  constructor
  · intro h
    obtain ⟨l, hl, htext, heq⟩ := exists_layout h
    cases heq
    exact ⟨l, hl, htext, rfl, rfl⟩
  · rintro ⟨l, hl, rfl, rfl, rfl⟩
    exact hl.ofText?_eq

theorem isAnnotated_iff {line module comment : Text} :
    IsAnnotated line module comment ↔ ofText? line = some ⟨module, some comment⟩ := by
  rw [ofText?_eq_some_iff]
  simp only [IsAnnotated, comment?_eq_some_iff]

/-- What is read as a module and a comment is a module name and a trimmed text. -/
theorem forms_of_annotated {line module comment : Text}
    (h : ofText? line = some ⟨module, some comment⟩) :
    IsModuleName module ∧ comment ≠ [] ∧ IsTrimmed Text.isSpacing comment := by
  obtain ⟨l, hl, _, rfl, hcomment⟩ := ofText?_eq_some_iff.1 h
  obtain ⟨hne, body, _, _, _, _, _, _, htrimmed⟩ := comment?_eq_some_iff.1 hcomment
  exact ⟨hl.module.1, hne, htrimmed⟩

/-- The shortest line that imports `module` with the annotation `comment`. -/
def plainLine (module comment : Text) : Text :=
  "import".toList ++ ' ' :: (module ++ '/' :: '/' :: comment)

/-- Every module and every comment can be put on a line.  A module that is
    called like a kind is not taken for one, since no spacing follows it. -/
theorem ofText?_plainLine {module comment : Text} (hmodule : IsModuleName module)
    (hne : comment ≠ []) (htrimmed : IsTrimmed Text.isSpacing comment) :
    ofText? (plainLine module comment) = some ⟨module, some comment⟩ := by
  -- Behind a kind comes spacing: that is no character of the module, and not the slash.
  have hkind : ∀ k ∈ kinds, ∀ c t, Text.isSpacing c = true →
      module ++ ('/' :: '/' :: comment) ≠ k ++ c :: t := by
    intro k hk c t hc heq
    have hslash : ∀ k ∈ kinds, '/' ∉ k := by decide
    rcases List.append_eq_append_iff.1 heq with ⟨rest, rfl, hrest⟩ | ⟨rest, rfl, hrest⟩
    · cases rest with
      | nil =>
        obtain rfl := (List.cons.inj hrest).1
        cases hc
      | cons d rest =>
        obtain rfl := (List.cons.inj hrest).1
        exact hslash _ hk (by simp)
    · cases rest with
      | nil =>
        obtain rfl := (List.cons.inj hrest).1
        cases hc
      | cons d rest =>
        obtain rfl := (List.cons.inj hrest).1
        rw [(hmodule.2 c (by simp)).2.2] at hc
        cases hc
  have hspace : IsSpace [' '] := by
    intro c hc
    rw [List.mem_singleton.1 hc]
    rfl
  refine ofText?_eq_some_iff.2 ⟨⟨[], [], [' '], [], module, [], [], '/' :: '/' :: comment⟩,
    ⟨by simp [IsSpace], .inl rfl, ⟨by simp, hspace⟩, .inr ⟨rfl, hkind⟩, ⟨hmodule, ?_⟩,
      .inr ⟨rfl, fun c t h => ?_⟩, by simp [IsSpace], ?_⟩, ?_, rfl, ?_⟩
  · intro c hc
    exact .inr (.inl (Option.some.inj hc).symm)
  · exact absurd (List.cons.inj h).1 (by decide)
  · exact stops_cons.2 rfl
  · rfl
  · exact comment?_eq_some_iff.2 ⟨hne, comment, .line comment, htrimmed.trimsTo⟩

theorem isBare_iff {line module : Text} :
    IsBare line module ↔ ofText? line = some ⟨module, none⟩ := by
  rw [ofText?_eq_some_iff]
  simp only [IsBare, comment?_eq_none_iff]

/-! ## Section 6: What lines declare -/

theorem ofLine_of_not_import {line : Text} (place : Origin.Place) (v : Version)
    (h : ofText? line = none) : LineReading.ofLine place v line = (.nothing, []) := by
  rw [LineReading.ofLine, h]

theorem ofLine_of_bare {line module : Text} (place : Origin.Place) (v : Version)
    (h : ofText? line = some ⟨module, none⟩) :
    LineReading.ofLine place v line =
      if module = companionModule then (.dependency (.companion (.exactly v)), [])
      else (.nothing, []) := by
  rw [LineReading.ofLine, h]

/-- An annotated line is a dependency, or it is rejected. -/
theorem ofLine_of_annotated {line module comment : Text} (place : Origin.Place) (v : Version)
    (h : ofText? line = some ⟨module, some comment⟩) :
    (LineReading.ofLine place v line).1 =
      match Annotation.dependency place module comment with
      | .ok (d, _) => .dependency d
      | .error why => .rejected why := by
  rw [LineReading.ofLine, h]
  dsimp only
  split
  · next heq => rw [heq]
  · next heq => rw [heq]
  · next heq => rw [heq]

/-- What a line declares depends on its module and its comment alone. -/
theorem ofLine_congr {line line' : Text} (place : Origin.Place) (v : Version)
    (h : ofText? line = ofText? line') :
    (LineReading.ofLine place v line).1 = (LineReading.ofLine place v line').1 := by
  cases hread : ofText? line' with
  | none => rw [ofLine_of_not_import place v (h.trans hread), ofLine_of_not_import place v hread]
  | some found =>
    obtain ⟨module, comment⟩ := found
    cases comment with
    | none => rw [ofLine_of_bare place v (h.trans hread), ofLine_of_bare place v hread]
    | some comment =>
      rw [ofLine_of_annotated place v (h.trans hread), ofLine_of_annotated place v hread]

/-- The lines that import a module with an annotation are told by their layout.
    Every other line declares nothing, unless it imports the companion library
    without an annotation; and of two lines with the same module and the same
    comment, both declare the same. -/
theorem line_declares_by_layout (place : Origin.Place) (v : Version) (line : Text) :
    (∀ module comment, ofText? line = some ⟨module, some comment⟩ ↔
      IsAnnotated line module comment) ∧
    (IsBare line companionModule →
      LineReading.ofLine place v line = (.dependency (.companion (.exactly v)), [])) ∧
    ((LineReading.ofLine place v line).1 = .nothing ↔
      (¬ ∃ module comment, IsAnnotated line module comment) ∧ ¬ IsBare line companionModule) ∧
    (∀ l l' : Layout, l.IsWellFormed → l'.IsWellFormed → l.module = l'.module →
      (∀ comment, Says l.tail comment ↔ Says l'.tail comment) →
      (LineReading.ofLine place v l.text).1 = (LineReading.ofLine place v l'.text).1) := by
  refine ⟨fun module comment => isAnnotated_iff.symm, fun hbare => ?_, ?_,
    fun l l' hl hl' hmodule hsays => ?_⟩
  · rw [ofLine_of_bare place v (isBare_iff.1 hbare), if_pos rfl]
  · simp only [isAnnotated_iff, isBare_iff]
    cases hread : ofText? line with
    | none => simp [ofLine_of_not_import place v hread]
    | some found =>
      obtain ⟨module, comment⟩ := found
      cases comment with
      | none =>
        rw [ofLine_of_bare place v hread]
        by_cases hmodule : module = companionModule <;> simp [hmodule]
      | some comment =>
        rw [ofLine_of_annotated place v hread]
        cases Annotation.dependency place module comment <;> simp
  · -- What is read is the module and the comment, and these are the same.
    refine ofLine_congr place v ?_
    rw [hl.ofText?_eq, hl'.ofText?_eq, hmodule, comment?_congr hsays]

/-- A place for lines that need no home directory. -/
def homelessPlace : Origin.Place := ⟨"/scripts", none, fun _ => none⟩

theorem line_declares_by_layout_twice :
    IsAnnotated "import Foo // @mxcl ~> 1.0".toList "Foo".toList "@mxcl ~> 1.0".toList ∧
    IsAnnotated "\t@testable import  struct Foo.Bar /* @mxcl ~> 1.0 */ let x = 1".toList
      "Foo".toList "@mxcl ~> 1.0".toList ∧
    (LineReading.ofLine homelessPlace default "import Foo // @mxcl ~> 1.0".toList).1 =
      (LineReading.ofLine homelessPlace default
        "\t@testable import  struct Foo.Bar /* @mxcl ~> 1.0 */ let x = 1".toList).1 ∧
    IsBare "import SwiftSH_Helpers //".toList companionModule ∧
    LineReading.ofLine homelessPlace default "import SwiftSH_Helpers //".toList =
      (.dependency (.companion (.exactly default)), []) := by
  have hplain := ((line_declares_by_layout homelessPlace default _).1 _ _).1
    (by decide : ofText? "import Foo // @mxcl ~> 1.0".toList =
      some ⟨"Foo".toList, some "@mxcl ~> 1.0".toList⟩)
  have hbusy := ((line_declares_by_layout homelessPlace default _).1 _ _).1
    (by decide : ofText? "\t@testable import  struct Foo.Bar /* @mxcl ~> 1.0 */ let x = 1".toList =
      some ⟨"Foo".toList, some "@mxcl ~> 1.0".toList⟩)
  have hbare : IsBare "import SwiftSH_Helpers //".toList companionModule :=
    isBare_iff.2 (by decide)
  obtain ⟨l, hl, htext, hmodule, hsays⟩ := hplain
  obtain ⟨l', hl', htext', hmodule', hsays'⟩ := hbusy
  have hsame : ∀ comment, Says l.tail comment ↔ Says l'.tail comment := by
    intro comment
    rw [← comment?_eq_some_iff, ← comment?_eq_some_iff, comment?_eq_some_iff.2 hsays,
      comment?_eq_some_iff.2 hsays']
  have hread := (line_declares_by_layout homelessPlace default l.text).2.2.2 l l' hl hl'
    (hmodule.trans hmodule'.symm) hsame
  rw [htext, htext'] at hread
  exact ⟨⟨l, hl, htext, hmodule, hsays⟩, ⟨l', hl', htext', hmodule', hsays'⟩, hread, hbare,
    (line_declares_by_layout homelessPlace default _).2.1 hbare⟩

end ImportLine
end ScriptDeps
