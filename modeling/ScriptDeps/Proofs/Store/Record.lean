import ScriptDeps.Proofs.Json.Layout
import ScriptDeps.Proofs.Text.Cut
import ScriptDeps.Proofs.Text.Utf8
import ScriptDeps.Proofs.Time.Text
import ScriptDeps.Store.Record

/-! # Reading records back

    A record that can be written is read back as it was: its arguments may be
    any texts.  The directory has to be a text, and the time one that the
    calendar has. -/

namespace ScriptDeps

/-! ## Section 1: Lengths -/

namespace Json

theorem length_block (opening closing : Char) (level : Nat) {xs : List Text} (h : xs ≠ []) :
    (Cut.join ",\n".toList (xs.map fun t => indent (level + 1) ++ t)).length ≤
      (block opening closing level xs).length := by
  cases xs with
  | nil => exact absurd rfl h
  | cons x xs =>
    have hblock := congrArg List.length (block_cons_append opening closing level x xs [])
    rw [List.append_nil, List.length_cons, List.length_cons, List.length_append] at hblock
    rw [hblock]
    omega

/-- A block is longer than each of its items. -/
theorem length_le_block (opening closing : Char) (level : Nat) {x : Text} {xs : List Text}
    (h : x ∈ xs) : x.length ≤ (block opening closing level xs).length := by
  have hmem : indent (level + 1) ++ x ∈ xs.map fun t => indent (level + 1) ++ t :=
    List.mem_map_of_mem h
  calc x.length ≤ (indent (level + 1) ++ x).length := by rw [List.length_append]; omega
    _ ≤ _ := Cut.length_le_join hmem
    _ ≤ _ := length_block opening closing level (List.ne_nil_of_mem h)

/-- A block is longer than the number of its items. -/
theorem count_le_length_block (opening closing : Char) (level : Nat) (xs : List Text) :
    xs.length ≤ (block opening closing level xs).length := by
  cases xs with
  | nil => exact Nat.zero_le _
  | cons x xs =>
    have hle := Cut.count_le_length_join ",\n".toList
      ((x :: xs).map fun t => indent (level + 1) ++ t) (by simp [indent])
    rw [List.length_map] at hle
    exact Nat.le_trans hle (length_block opening closing level (List.cons_ne_nil x xs))

end Json

namespace Record

/-! ## Section 2: Members -/

/-- A member of the written form: its name, how its value is written, and the
    value. -/
structure Member where
  name    : Text
  written : Text
  value   : Json

def textMember (name : String) (t : Text) : Member := ⟨name.toList, Json.quote t, Json.ofText t⟩

/-- The members of a record whose directory is spelled `directory`, after the
    first one. -/
def laterMembers (r : Record) (directory : Text) : List Member :=
  [textMember "directory" directory,
   ⟨"invocation_args".toList, Json.block '[' ']' 1 (r.args.map Json.quote),
    .array (r.args.map Json.ofText)⟩,
   ⟨"release_mode".toList, boolText r.releaseMode, .bool r.releaseMode⟩,
   textMember "resolved_at" r.resolvedAt.text]

theorem members_eq (r : Record) (directory : Text) :
    r.members directory =
      (textMember "hash" r.hash :: r.laterMembers directory).map fun m =>
        Json.member m.name m.written := rfl

theorem reads_boolText (b : Bool) : Json.Reads 1 (boolText b) (.bool b) := by
  cases b with
  | true => exact Json.reads_true
  | false => exact Json.reads_false

/-- Every member is read back in as many steps as there are arguments, and
    two more. -/
theorem reads_member (r : Record) (directory : Text) :
    ∀ m ∈ textMember "hash" r.hash :: r.laterMembers directory,
      Json.Reads (1 + r.args.length + 1) m.written m.value := by
  have htext : ∀ name t, Json.Reads (1 + r.args.length + 1) (textMember name t).written
      (textMember name t).value :=
    fun _ t => (Json.reads_quote t).mono (by omega)
  intro m hm
  simp only [laterMembers, List.mem_cons, List.not_mem_nil, or_false] at hm
  rcases hm with rfl | rfl | rfl | rfl | rfl
  · exact htext _ _
  · exact htext _ _
  · exact Json.reads_array 1 r.args fun a _ => Json.reads_quote a
  · exact (reads_boolText r.releaseMode).mono (by omega)
  · exact htext _ _

/-! ## Section 3: Whole records -/

/-- The written form is long enough for a reader that counts its steps. -/
theorem length_written (r : Record) (directory : Text) :
    1 + r.args.length + 1 + 4 + 2 ≤ (Json.block '{' '}' 0 (r.members directory)).length + 1 := by
  have hmem : Json.member "invocation_args" (Json.block '[' ']' 1 (r.args.map Json.quote)) ∈
      r.members directory := by
    simp [members]
  have hmember := Json.length_le_block '{' '}' 0 hmem
  have hargs := Json.count_le_length_block '[' ']' 1 (r.args.map Json.quote)
  have hname : (Json.quote "invocation_args".toList).length = 17 := by decide
  rw [List.length_map] at hargs
  simp only [Json.member, List.length_append, hname] at hmember
  omega

theorem ofText?_written (r : Record) (directory : Text) :
    Json.ofText? (Json.block '{' '}' 0 (r.members directory)) =
      some (.object ((textMember "hash" r.hash :: r.laterMembers directory).map fun m =>
        (some m.name, m.value))) := by
  have hreads := Json.reads_object 0 Member.name _ _ (reads_member r directory)
  rw [← members_eq] at hreads
  exact Json.ofText?_of_reads hreads (length_written r directory)

theorem texts?_ofText (ts : List Text) : (Json.array (ts.map Json.ofText)).texts? = some ts := by
  show (ts.map Json.ofText).mapM Json.text? = some ts
  induction ts with
  | nil => rfl
  | cons t ts ih =>
    rw [List.map_cons, List.mapM_cons, ih]
    rfl

/-- But for its time, which has to be read as well, a record is read back as
    it was written. -/
theorem ofText?_of_render {r : Record} {t : Text} (h : r.render? = some t) :
    ofText? t = (Timestamp.ofText? r.resolvedAt.text).map fun resolvedAt =>
      { r with resolvedAt } := by
  unfold render? at h
  cases hd : Utf8.decode r.directory.bytes with
  | none => rw [hd] at h; simp at h
  | some d =>
    rw [hd, Option.map_some, Option.some.injEq] at h
    have hdir : Path.ofText d = r.directory := by
      rw [Path.ofText, ← Utf8.decode_eq_some_iff.1 hd]
    rw [ofText?, ← h, ofText?_written, Option.bind_some]
    show ofValues? (some (Json.ofText r.hash)) (some (Json.ofText d))
      (some (.array (r.args.map Json.ofText))) (some (.bool r.releaseMode))
      (some (Json.ofText r.resolvedAt.text)) = _
    simp only [ofValues?, Json.ofText, Json.text?, Json.bool?, Option.bind_eq_bind,
      Option.bind_some, hdir, texts?_ofText]
    cases Timestamp.ofText? r.resolvedAt.text <;> rfl

theorem ofText?_render {r : Record} {t : Text} (hdated : r.resolvedAt.IsDated)
    (h : r.render? = some t) : ofText? t = some r := by
  rw [ofText?_of_render h, Timestamp.ofText?_text hdated]
  rfl

end Record
end ScriptDeps
