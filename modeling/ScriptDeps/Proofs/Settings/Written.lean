import ScriptDeps.Proofs.Text.Utf8
import ScriptDeps.Proofs.Toml.Document
import ScriptDeps.Settings.Written

/-! # Settings there and back

    Settings can be written exactly if their paths are texts and their number
    fits with a sign (`render_ok_iff`).  What is written is a document of four
    tables.  Whichever of the settings are left out of it, the others are read
    back, and those that are left out have their defaults
    (`ofText?_renderOnly`). -/

namespace ScriptDeps
namespace Settings

variable {s : Settings} {keep : Field → Bool} {f : Field} {g : Group}

/-! ## Section 1: What can be written -/

/-- The paths are texts, and the number has a sign bit to spare. -/
structure IsWritable (s : Settings) : Prop where
  swift : ∃ t, Utf8.decode s.swift.bytes = some t
  root  : ∀ p, s.root = some p → ∃ t, Utf8.decode p.bytes = some t
  hours : s.stalenessHours < Nat.pow 2 63

theorem isWritable_default : ({} : Settings).IsWritable :=
  ⟨⟨_, Utf8.decode_encode _⟩, nofun, by decide⟩

/-- The value that a document has for a setting, if it has one. -/
def value? (s : Settings) : Field → Option Toml.Value
  | .logFormat => some (.text s.logFormat)
  | .swift => (Utf8.decode s.swift.bytes).map .text
  | .release => some (.bool s.release)
  | .noSandbox => some (.bool s.noSandbox)
  | .ssh => some (.bool s.ssh)
  | .skipPackage => some (.bool s.skipPackage)
  | .root => s.root.bind fun p => (Utf8.decode p.bytes).map .text
  | .stalenessHours => some (.integer s.stalenessHours)
  | .reuse => some (.bool s.reuse)

/-- `s` where `keep` says so, and else the defaults. -/
def keeping (keep : Field → Bool) (s : Settings) : Settings where
  logFormat := if keep .logFormat then s.logFormat else ({} : Settings).logFormat
  swift := if keep .swift then s.swift else ({} : Settings).swift
  release := if keep .release then s.release else ({} : Settings).release
  noSandbox := if keep .noSandbox then s.noSandbox else ({} : Settings).noSandbox
  ssh := if keep .ssh then s.ssh else ({} : Settings).ssh
  skipPackage := if keep .skipPackage then s.skipPackage else ({} : Settings).skipPackage
  root := if keep .root then s.root else ({} : Settings).root
  stalenessHours :=
    if keep .stalenessHours then s.stalenessHours else ({} : Settings).stalenessHours
  reuse := if keep .reuse then s.reuse else ({} : Settings).reuse

theorem pathText_of_decode {p : Path} {t : Text} (h : Utf8.decode p.bytes = some t) :
    pathText p = .ok (Toml.Quoted.write t) := by
  rw [pathText, h]

theorem numberText_of_lt {n : Nat} (h : n < Nat.pow 2 63) :
    numberText n = .ok (Decimal.ofNat n) := by
  rw [numberText, if_pos h]

/-- A setting is written as its value is spelled. -/
theorem valueText_of_isWritable (hs : s.IsWritable) (f : Field) :
    (s.value? f = none ∧ s.valueText f = .ok none) ∨
      ∃ v t, s.value? f = some v ∧ s.valueText f = .ok (some t) ∧ Toml.Spells t v := by
  cases f with
  | logFormat => exact .inr ⟨_, _, rfl, rfl, Toml.spells_text _⟩
  | swift =>
    obtain ⟨t, ht⟩ := hs.swift
    refine .inr ⟨.text t, Toml.Quoted.write t, ?_, ?_, Toml.spells_text t⟩
    · rw [value?, ht]
      rfl
    · rw [valueText, pathText_of_decode ht]
      rfl
  | release | noSandbox | ssh | skipPackage | reuse =>
    exact .inr ⟨_, _, rfl, rfl, Toml.spells_bool _⟩
  | root =>
    cases hroot : s.root with
    | none => exact .inl ⟨by rw [value?, hroot]; rfl, by rw [valueText, hroot]⟩
    | some p =>
      obtain ⟨t, ht⟩ := hs.root p hroot
      refine .inr ⟨.text t, Toml.Quoted.write t, ?_, ?_, Toml.spells_text t⟩
      · rw [value?, hroot, Option.bind_some, ht]
        rfl
      · rw [valueText, hroot]
        show (pathText p).map some = _
        rw [pathText_of_decode ht]
        rfl
  | stalenessHours =>
    refine .inr ⟨_, Decimal.ofNat s.stalenessHours, rfl, ?_, Toml.spells_integer hs.hours⟩
    rw [valueText, numberText_of_lt hs.hours]
    rfl

/-- What cannot be written fails at one of the settings. -/
theorem exists_valueText_error (hs : ¬ s.IsWritable) : ∃ f e, s.valueText f = .error e := by
  by_contra hnone
  have hok : ∀ f e, s.valueText f ≠ .error e := fun f e h => hnone ⟨f, e, h⟩
  have htext : ∀ p : Path, pathText p ≠ .error .path → ∃ t, Utf8.decode p.bytes = some t := by
    intro p hp
    cases hdecode : Utf8.decode p.bytes with
    | none => exact absurd (by rw [pathText, hdecode]) hp
    | some t => exact ⟨t, rfl⟩
  apply hs
  refine ⟨htext _ ?_, ?_, ?_⟩
  · intro hp
    exact hok .swift .path (by rw [valueText, hp]; rfl)
  · intro p hroot
    apply htext
    intro hp
    exact hok .root .path (by rw [valueText, hroot]; show (pathText p).map some = _; rw [hp]; rfl)
  · by_contra hlong
    have hnumber : numberText s.stalenessHours = .error .number := by
      rw [numberText, if_neg hlong]
    exact hok .stalenessHours .number (by rw [valueText, hnumber]; rfl)

/-! ## Section 2: Documents -/

theorem mapM_of_forall {α β ε : Type} {f : α → Except ε β} {g : α → β} {xs : List α}
    (h : ∀ x ∈ xs, f x = .ok (g x)) : xs.mapM f = .ok (xs.map g) := by
  induction xs with
  | nil => rfl
  | cons x xs ih =>
    rw [List.mapM_cons, h x (List.mem_cons_self ..),
      ih fun y hy => h y (List.mem_cons_of_mem x hy)]
    rfl

theorem exists_mapM_error {α β ε : Type} {f : α → Except ε β} {xs : List α} {x : α} (hx : x ∈ xs)
    (h : ∃ e, f x = .error e) : ∃ e, xs.mapM f = .error e := by
  induction xs with
  | nil => cases hx
  | cons y xs ih =>
    rw [List.mapM_cons]
    cases hy : f y with
    | error e => exact ⟨e, rfl⟩
    | ok b =>
      rcases List.mem_cons.1 hx with rfl | hx
      · obtain ⟨e, he⟩ := h
        rw [hy] at he
        cases he
      · obtain ⟨e, he⟩ := ih hx
        rw [he]
        exact ⟨e, rfl⟩

/-- A setting as the row of a table, if it has one. -/
def row? (s : Settings) (f : Field) : Option Toml.Row :=
  match s.value? f, s.valueText f with
  | some v, .ok (some t) => some ⟨f.name, t, v⟩
  | _, _ => none

/-- A section with the settings that `keep` chooses. -/
def block (keep : Field → Bool) (s : Settings) (g : Group) : Toml.Block :=
  ⟨g.name, (g.fields.filter keep).filterMap s.row?⟩

theorem row?_eq_some (hs : s.IsWritable) {row : Toml.Row} (h : s.row? f = some row) :
    row.key = f.name ∧ s.value? f = some row.value ∧ Toml.Spells row.text row.value := by
  unfold row? at h
  rcases s.valueText_of_isWritable hs f with ⟨hvalue, _⟩ | ⟨v, t, hvalue, htext, hspells⟩
  · rw [hvalue] at h
    cases h
  · rw [hvalue, htext] at h
    cases h
    exact ⟨rfl, hvalue, hspells⟩

theorem value?_row? (hs : s.IsWritable) (f : Field) :
    (s.row? f).map Toml.Row.value = s.value? f := by
  unfold row?
  rcases s.valueText_of_isWritable hs f with ⟨hvalue, _⟩ | ⟨v, t, hvalue, htext, _⟩
  · rw [hvalue]
    rfl
  · rw [hvalue, htext]
    rfl

theorem line_of_isWritable (hs : s.IsWritable) (f : Field) :
    s.line f = .ok ((s.row? f).elim [] Toml.Row.line) := by
  rcases s.valueText_of_isWritable hs f with ⟨hvalue, htext⟩ | ⟨v, t, hvalue, htext, _⟩
  · rw [line, htext, row?, hvalue]
    rfl
  · rw [line, htext, row?, hvalue, htext]
    show Except.ok (f.name ++ " = ".toList ++ t ++ ['\n']) = Except.ok _
    rw [List.append_assoc, List.append_assoc]
    rfl

theorem groupText_of_isWritable (hs : s.IsWritable) (keep : Field → Bool) (g : Group) :
    s.groupText keep g = .ok (block keep s g).text := by
  have hflatten : ∀ fs : List Field,
      (fs.map fun f => (s.row? f).elim [] Toml.Row.line).flatten =
        ((fs.filterMap s.row?).map Toml.Row.line).flatten := by
    intro fs
    induction fs with
    | nil => rfl
    | cons f fs ih =>
      rw [List.map_cons, List.flatten_cons, ih]
      cases hrow : s.row? f with
      | none => rw [List.filterMap_cons_none hrow]; rfl
      | some row => rw [List.filterMap_cons_some hrow]; rfl
  rw [groupText, mapM_of_forall fun f _ => s.line_of_isWritable hs f]
  show Except.ok ('[' :: g.name ++ "]\n".toList ++ _) = _
  rw [hflatten, List.append_assoc]
  rfl

theorem renderOnly_of_isWritable (hs : s.IsWritable) (keep : Field → Bool) :
    s.renderOnly keep =
      .ok (Cut.join ['\n'] ((Group.all.map (block keep s)).map Toml.Block.text)) := by
  rw [renderOnly, mapM_of_forall fun g _ => s.groupText_of_isWritable hs keep g, List.map_map]
  rfl

/-- The document that has `lines` for the settings. -/
def document (lines : Field → Text) : Text :=
  Cut.join ['\n'] (Group.all.map fun g =>
    '[' :: g.name ++ "]\n".toList ++ (g.fields.map lines).flatten)

theorem flatten_filter_map (keep : Field → Bool) (lines : Field → Text) (fs : List Field) :
    ((fs.filter keep).map lines).flatten =
      (fs.map fun f => if keep f then lines f else []).flatten := by
  induction fs with
  | nil => rfl
  | cons f fs ih =>
    by_cases hkeep : keep f = true
    · rw [List.filter_cons_of_pos hkeep, List.map_cons, List.flatten_cons, ih, List.map_cons,
        List.flatten_cons, if_pos hkeep]
    · rw [List.filter_cons_of_neg hkeep, ih, List.map_cons, List.flatten_cons, if_neg hkeep,
        List.nil_append]

/-- A setting that is left out is one whose line is. -/
theorem renderOnly_eq_document {lines : Field → Text} (h : ∀ f, s.line f = .ok (lines f))
    (keep : Field → Bool) :
    s.renderOnly keep = .ok (document fun f => if keep f then lines f else []) := by
  have hgroup : ∀ g, s.groupText keep g = .ok ('[' :: g.name ++ "]\n".toList ++
      (g.fields.map fun f => if keep f then lines f else []).flatten) := by
    intro g
    rw [groupText, mapM_of_forall fun f _ => h f, ← flatten_filter_map]
    rfl
  rw [renderOnly, mapM_of_forall fun g _ => hgroup g]
  rfl

/-- Settings can be written exactly if each of them can. -/
theorem render_ok_iff : (∃ content, s.render = .ok content) ↔ s.IsWritable := by
  constructor
  · rintro ⟨content, hrender⟩
    by_contra hs
    obtain ⟨f, e, hvalue⟩ := s.exists_valueText_error hs
    have hline : ∃ e, s.line f = .error e := ⟨e, by rw [line, hvalue]; rfl⟩
    have hfield : f ∈ f.group.fields.filter fun _ => true := by
      rw [List.mem_filter]
      exact ⟨(Field.mem_fields_iff f _).2 rfl, rfl⟩
    obtain ⟨e', hlines⟩ := exists_mapM_error hfield hline
    have hgroup : ∃ e, s.groupText (fun _ => true) f.group = .error e :=
      ⟨e', by rw [groupText, hlines]; rfl⟩
    have hall : f.group ∈ Group.all := by cases f.group <;> decide
    obtain ⟨e'', hgroups⟩ := exists_mapM_error hall hgroup
    rw [render, renderOnly, hgroups] at hrender
    cases hrender
  · intro hs
    exact ⟨_, s.renderOnly_of_isWritable hs _⟩

/-! ## Section 3: Reading -/

theorem Field.name_injective {f f' : Field} (h : f.name = f'.name) : f = f' := by
  cases f <;> cases f' <;> first | rfl | exact absurd h (by decide)

theorem isBareKey_fieldName (f : Field) : Toml.IsBareKey f.name := by
  refine ⟨by cases f <;> decide, List.all_eq_true.1 ?_⟩
  cases f <;> decide

theorem isBareKey_groupName (g : Group) : Toml.IsBareKey g.name := by
  refine ⟨by cases g <;> decide, List.all_eq_true.1 ?_⟩
  cases g <;> decide

theorem isWellFormed_block (hs : s.IsWritable) (keep : Field → Bool) (g : Group) :
    (block keep s g).IsWellFormed := by
  have hnodup : (g.fields.filter keep).Nodup :=
    List.Pairwise.filter keep (show g.fields.Nodup by cases g <;> decide)
  refine ⟨isBareKey_groupName g, ?_, ?_⟩
  · intro row hrow
    obtain ⟨f, _, hf⟩ := List.mem_filterMap.1 hrow
    obtain ⟨hkey, _, hspells⟩ := row?_eq_some hs hf
    exact ⟨hkey ▸ isBareKey_fieldName f, hspells⟩
  · unfold block
    generalize g.fields.filter keep = fs at hnodup
    -- The keys are the names of fields, and those differ.
    induction fs with
    | nil => exact List.nodup_nil
    | cons f fs ih =>
      obtain ⟨hfresh, hrest⟩ := List.nodup_cons.1 hnodup
      cases hrow : s.row? f with
      | none =>
        rw [List.filterMap_cons_none hrow]
        exact ih hrest
      | some row =>
        rw [List.filterMap_cons_some hrow, List.map_cons, List.nodup_cons]
        refine ⟨?_, ih hrest⟩
        intro hmem
        obtain ⟨row', hrow', hkey⟩ := List.mem_map.1 hmem
        obtain ⟨f', hf', hrow'⟩ := List.mem_filterMap.1 hrow'
        rw [(row?_eq_some hs hrow).1, (row?_eq_some hs hrow').1] at hkey
        exact hfresh (Field.name_injective hkey ▸ hf')

/-- Under the name of a setting stands its value, if it is among those with a row. -/
theorem lookup_rows (hs : s.IsWritable) (f : Field) (fs : List Field) :
    List.lookup f.name ((fs.filterMap s.row?).map fun row => (row.key, row.value)) =
      if f ∈ fs then s.value? f else none := by
  induction fs with
  | nil => rfl
  | cons f' fs ih =>
    have hvalue := s.value?_row? hs f'
    cases hrow : s.row? f' with
    | none =>
      -- A setting without a row has no value.
      rw [List.filterMap_cons_none hrow, ih]
      rw [hrow] at hvalue
      by_cases hf : f = f'
      · subst hf
        simp [← hvalue]
      · simp [hf]
    | some row =>
      rw [List.filterMap_cons_some hrow, List.map_cons, List.lookup_cons,
        (row?_eq_some hs hrow).1, ih]
      rw [hrow] at hvalue
      by_cases hf : f = f'
      · subst hf
        simp [← hvalue]
      · have hname : (f.name == f'.name) = false :=
          beq_false_of_ne fun heq => hf (Field.name_injective heq)
        simp [hf, hname]

/-- The table of a section has the values of those of its settings that are kept. -/
theorem get?_table_block (hs : s.IsWritable) (keep : Field → Bool) (f : Field) :
    Toml.Rows.get? (block keep s f.group).table f.name = if keep f then s.value? f else none := by
  rw [Toml.Rows.get?, Toml.Block.table, block, lookup_rows hs]
  simp [List.mem_filter, Field.mem_fields_iff]

theorem orDefault_if {α : Type} {read : Toml.Value → Option α} {v : Toml.Value} {x : α}
    (h : read v = some x) (d : α) (b : Bool) :
    orDefault read d (if b then some v else none) = some (if b then x else d) := by
  cases b with
  | false => rfl
  | true => exact h

theorem path?_text {p : Path} {t : Text} (h : Utf8.decode p.bytes = some t) :
    path? (.text t) = some p := by
  show some (Path.ofText t) = some p
  rw [Path.ofText, Utf8.encode_of_decode h]

/-- The values that are kept make up the settings that are kept. -/
theorem ofValues?_value? (hs : s.IsWritable) (keep : Field → Bool) :
    ofValues? (fun f => if keep f then s.value? f else none) = some (s.keeping keep) := by
  obtain ⟨t, ht⟩ := hs.swift
  have hroot : orDefault (fun v => (path? v).map some) none
      (if keep .root then s.value? .root else none) =
        some (if keep .root then s.root else none) := by
    cases hp : s.root with
    | none =>
      rw [value?, hp]
      simp [orDefault]
    | some p =>
      obtain ⟨t, ht⟩ := hs.root p hp
      rw [value?, hp, Option.bind_some, ht]
      refine orDefault_if ?_ none _
      rw [path?_text ht]
      rfl
  have hswift : orDefault path? ({} : Settings).swift
      (if keep .swift then s.value? .swift else none) =
        some (if keep .swift then s.swift else ({} : Settings).swift) := by
    rw [value?, ht]
    exact orDefault_if (path?_text ht) _ _
  have hhours : nat? (.integer s.stalenessHours) = some s.stalenessHours := by simp [nat?]
  have htext : text? (.text s.logFormat) = some s.logFormat := rfl
  have hbool : ∀ b, bool? (.bool b) = some b := fun _ => rfl
  unfold ofValues?
  dsimp only
  rw [hswift, hroot, value?, value?, value?, value?, value?, value?, value?]
  rw [orDefault_if htext, orDefault_if (hbool s.release), orDefault_if (hbool s.noSandbox),
    orDefault_if (hbool s.ssh), orDefault_if (hbool s.skipPackage), orDefault_if hhours,
    orDefault_if (hbool s.reuse)]
  rfl

/-- What is left out of the document is read as its default, and the rest as it
    was written. -/
theorem ofText?_renderOnly (hs : s.IsWritable) (keep : Field → Bool) {content : Text}
    (h : s.renderOnly keep = .ok content) : ofText? content = some (s.keeping keep) := by
  rw [renderOnly_of_isWritable hs] at h
  cases h
  have hforms : ∀ b ∈ Group.all.map (block keep s), b.IsWellFormed := by
    intro b hb
    obtain ⟨g, _, rfl⟩ := List.mem_map.1 hb
    exact isWellFormed_block hs keep g
  have hnames : ((Group.all.map (block keep s)).map Toml.Block.name).Nodup := by
    rw [List.map_map]
    exact (by decide : (Group.all.map Group.name).Nodup)
  have hread := Toml.ofText?_join hforms hnames
  rw [ofText?, hread]
  -- Each section is found by its name, and its settings in it by theirs.
  have hfind : ∀ g, finder? g (Toml.Rows.get? ((Group.all.map (block keep s)).map fun b =>
      (b.name, Toml.Value.table .named b.table)) g.name) =
        some fun f => Toml.Rows.get? (block keep s g).table f.name := by
    intro g
    cases g <;> rfl
  show ofRows? _ = _
  rw [ofRows?, hfind, hfind, hfind, hfind]
  simp only [Option.bind_eq_bind, Option.bind_some]
  rw [← ofValues?_value? hs keep]
  congr 1
  funext f
  rw [← get?_table_block hs keep f]
  cases f <;> rfl

end Settings
end ScriptDeps
