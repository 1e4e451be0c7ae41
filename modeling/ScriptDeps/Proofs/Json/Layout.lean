import ScriptDeps.Proofs.Json.Quote
import ScriptDeps.Proofs.Text.Cut

/-! # Reading indented JSON back

    A value is written with its items one a line, and white space before a
    value means nothing.  `Reads k w j` says that a reader with at least `k`
    steps takes exactly `w` up and finds `j`, whatever follows.  Blocks of
    written items are read item by item. -/

namespace ScriptDeps
namespace Json

/-! ## Section 1: White space -/

theorem dropSpace_cons_of_isSpace {c : Char} (h : isSpace c = true) (t : Text) :
    dropSpace (c :: t) = dropSpace t := by
  rw [dropSpace, List.dropWhile_cons_of_pos h]
  rfl

theorem dropSpace_cons_of_not {c : Char} (h : isSpace c = false) (t : Text) :
    dropSpace (c :: t) = c :: t := by
  rw [dropSpace, List.dropWhile_cons_of_neg (by simp [h])]

theorem dropSpace_indent (level : Nat) (t : Text) :
    dropSpace (indent level ++ t) = dropSpace t := by
  unfold indent
  induction 2 * level with
  | zero => rfl
  | succ n ih =>
    rw [List.replicate_succ, List.cons_append, dropSpace_cons_of_isSpace (by decide), ih]

/-- A reader of values sees nothing of the white space before a value. -/
theorem value?_congr {fuel : Nat} {t t' : Text} (h : dropSpace t = dropSpace t') :
    value? fuel t = value? fuel t' := by
  cases fuel with
  | zero => rw [value?, value?]
  | succ fuel => rw [value?, value?, h]

/-! ## Section 2: Values that are read back -/

/-- Whatever follows, `w` is read as `j` in `k` steps or more. -/
def Reads (k : Nat) (w : Text) (j : Json) : Prop :=
  ∀ fuel rest, k ≤ fuel → value? fuel (w ++ rest) = some (j, rest)

theorem value?_quoted (fuel : Nat) (rest : Text) :
    value? (fuel + 1) ('"' :: rest) = (string? rest).map fun (s, r) => (.string s, r) := rfl

theorem reads_quote (t : Text) : Reads 1 (quote t) (ofText t) := by
  intro fuel rest hfuel
  obtain ⟨fuel, rfl⟩ : ∃ n, fuel = n + 1 := ⟨fuel - 1, by omega⟩
  have hquote : quote t ++ rest = '"' :: (t.flatMap escapeChar ++ '"' :: rest) := by
    simp [quote]
  rw [hquote, value?_quoted, string?_escaped]
  rfl

theorem reads_true : Reads 1 "true".toList (.bool true) := by
  intro fuel rest hfuel
  obtain ⟨fuel, rfl⟩ : ∃ n, fuel = n + 1 := ⟨fuel - 1, by omega⟩
  rfl

theorem reads_false : Reads 1 "false".toList (.bool false) := by
  intro fuel rest hfuel
  obtain ⟨fuel, rfl⟩ : ∃ n, fuel = n + 1 := ⟨fuel - 1, by omega⟩
  rfl

/-- No value starts with the bracket that ends an array. -/
theorem value?_eq_none_of_bracket {fuel : Nat} {t r : Text} (h : dropSpace t = ']' :: r) :
    value? fuel t = none := by
  have hdrop : dropSpace t = dropSpace (']' :: r) := by
    rw [h, dropSpace_cons_of_not (by decide)]
  rw [value?_congr hdrop]
  cases fuel with
  | zero => rw [value?]
  | succ fuel => rfl

theorem Reads.mono {k k' : Nat} {w : Text} {j : Json} (h : Reads k w j) (hk : k ≤ k') :
    Reads k' w j :=
  fun fuel rest hfuel => h fuel rest (Nat.le_trans hk hfuel)

/-! ## Section 3: Arrays -/

variable {α : Type}

/-- The end of a block. -/
theorem dropSpace_ending (level : Nat) {c : Char} (hc : isSpace c = false) (rest : Text) :
    dropSpace ('\n' :: (indent level ++ c :: rest)) = c :: rest := by
  rw [dropSpace_cons_of_isSpace (by decide), dropSpace_indent, dropSpace_cons_of_not hc]

/-- The start of an item. -/
theorem dropSpace_item (level : Nat) (t : Text) :
    dropSpace ('\n' :: (indent level ++ t)) = dropSpace t := by
  rw [dropSpace_cons_of_isSpace (by decide), dropSpace_indent]

theorem join_lines_cons (x y : Text) (rest : List Text) :
    Cut.join ",\n".toList (x :: y :: rest) =
      x ++ ',' :: '\n' :: Cut.join ",\n".toList (y :: rest) := by
  rw [Cut.join_cons _ _ (List.cons_ne_nil y rest), List.append_assoc]
  rfl

theorem items?_last {fuel : Nat} {t rest r : Text} {x : Json}
    (hx : value? fuel t = some (x, rest)) (hr : dropSpace rest = ']' :: r) :
    items? (fuel + 1) t = some ([x], r) := by
  rw [items?, hx]
  dsimp only
  rw [hr]
  rfl

theorem items?_more {fuel : Nat} {t rest r : Text} {x : Json}
    (hx : value? fuel t = some (x, rest)) (hr : dropSpace rest = ',' :: r) :
    items? (fuel + 1) t = (items? fuel r).map fun (xs, r) => (x :: xs, r) := by
  rw [items?, hx]
  dsimp only
  rw [hr]
  rfl

/-- Items one a line are read up to the bracket. -/
theorem items?_lines {k : Nat} {written : α → Text} {value : α → Json} (level : Nat)
    (rest : Text) (x : α) (xs : List α) (h : ∀ y ∈ x :: xs, Reads k (written y) (value y))
    (fuel : Nat) (hfuel : k + (xs.length + 1) ≤ fuel) :
    items? fuel ('\n' :: (Cut.join ",\n".toList
        ((x :: xs).map fun y => indent (level + 1) ++ written y) ++
          '\n' :: (indent level ++ ']' :: rest))) =
      some ((x :: xs).map value, rest) := by
  -- Each item takes one step of the fuel, and leaves the rest of the lines to the next.
  induction xs generalizing x fuel with
  | nil =>
    obtain ⟨fuel, rfl⟩ : ∃ n, fuel = n + 1 := ⟨fuel - 1, by omega⟩
    have hx := h x (List.mem_cons_self ..) fuel ('\n' :: (indent level ++ ']' :: rest))
      (by simp at hfuel; omega)
    rw [List.map_cons, List.map_nil, Cut.join, List.append_assoc]
    rw [← value?_congr (dropSpace_item (level + 1) _)] at hx
    exact items?_last hx (dropSpace_ending level (by decide) rest)
  | cons y ys ih =>
    obtain ⟨fuel, rfl⟩ : ∃ n, fuel = n + 1 := ⟨fuel - 1, by omega⟩
    have hlater := ih y (fun z hz => h z (List.mem_cons_of_mem _ hz)) fuel
      (by simp at hfuel; omega)
    have hx := fun tail => h x (List.mem_cons_self ..) fuel tail (by simp at hfuel; omega)
    rw [List.map_cons] at hlater
    rw [List.map_cons, List.map_cons, join_lines_cons, List.append_assoc, List.append_assoc,
      List.cons_append, List.cons_append,
      items?_more ((value?_congr (dropSpace_item _ _)).trans (hx _))
        (dropSpace_cons_of_not (by decide) _), hlater]
    rfl

theorem value?_bracket (fuel : Nat) (rest : Text) :
    value? (fuel + 1) ('[' :: rest) =
      match dropSpace rest with
      | ']' :: r => some (Json.array [], r)
      | _ => (items? fuel rest).map fun (xs, r) => (Json.array xs, r) := rfl

theorem value?_array (fuel : Nat) {rest : Text} (h : ∀ r, dropSpace rest ≠ ']' :: r) :
    value? (fuel + 1) ('[' :: rest) = (items? fuel rest).map fun (xs, r) => (Json.array xs, r) := by
  rw [value?_bracket]
  split
  · next r hr => exact absurd hr (h r)
  · rfl

/-- A block of one item or more, with what follows it. -/
theorem block_cons_append (opening closing : Char) (level : Nat) (x : Text) (xs : List Text)
    (rest : Text) :
    block opening closing level (x :: xs) ++ rest =
      opening :: '\n' :: (Cut.join ",\n".toList ((x :: xs).map fun t => indent (level + 1) ++ t) ++
        '\n' :: (indent level ++ closing :: rest)) := by
  simp [block]

/-- An array written one item a line is read back. -/
theorem reads_array {k : Nat} (level : Nat) {written : α → Text} {value : α → Json} (xs : List α)
    (h : ∀ x ∈ xs, Reads k (written x) (value x)) :
    Reads (k + xs.length + 1) (block '[' ']' level (xs.map written)) (.array (xs.map value)) := by
  intro fuel rest hfuel
  obtain ⟨fuel, rfl⟩ : ∃ n, fuel = n + 1 := ⟨fuel - 1, by omega⟩
  cases xs with
  | nil => rfl
  | cons x xs =>
    have hitems := items?_lines level rest x xs h fuel (by simp at hfuel; omega)
    -- The items can be read, so what comes first is not the bracket at the end.
    have hnot : ∀ r, dropSpace ('\n' :: (Cut.join ",\n".toList
        ((x :: xs).map fun y => indent (level + 1) ++ written y) ++
          '\n' :: (indent level ++ ']' :: rest))) ≠ ']' :: r := by
      intro r hr
      obtain ⟨fuel, rfl⟩ : ∃ n, fuel = n + 1 := ⟨fuel - 1, by simp at hfuel; omega⟩
      rw [items?, value?_eq_none_of_bracket hr] at hitems
      exact absurd hitems (by simp)
    have hvalue := value?_array fuel hnot
    rw [hitems] at hvalue
    rw [List.map_cons, block_cons_append, List.map_cons, List.map_map]
    exact hvalue

/-! ## Section 4: Objects -/

theorem members?_named {fuel : Nat} {t rest rest' : Text} {name : Option Text}
    (ht : dropSpace t = '"' :: rest) (hname : string? rest = some (name, ':' :: rest')) :
    members? (fuel + 1) t =
      match value? fuel rest' with
      | none => none
      | some (x, rest) =>
          match dropSpace rest with
          | '}' :: r => some ([(name, x)], r)
          | ',' :: r => (members? fuel r).map fun (xs, r) => ((name, x) :: xs, r)
          | _ => none := by
  rw [members?, ht]
  simp only [hname]
  rfl

/-- A member that is written `name` and then `w`, and the rest of its line. -/
theorem member_append (name : Text) (w tail : Text) :
    member name w ++ tail =
      '"' :: (name.flatMap escapeChar ++ '"' :: (':' :: ' ' :: (w ++ tail))) := by
  simp [member, quote]

/-- The reader at a written member: the member, and then what stands after it. -/
theorem members?_member {k level fuel : Nat} {name w : Text} {j : Json} (h : Reads k w j)
    (hfuel : k ≤ fuel) (tail : Text) :
    members? (fuel + 1) ('\n' :: (indent level ++ (member name w ++ tail))) =
      match dropSpace tail with
      | '}' :: r => some ([(some name, j)], r)
      | ',' :: r => (members? fuel r).map fun (xs, r) => ((some name, j) :: xs, r)
      | _ => none := by
  have hdrop : dropSpace ('\n' :: (indent level ++ (member name w ++ tail))) =
      '"' :: (name.flatMap escapeChar ++ '"' :: (':' :: ' ' :: (w ++ tail))) := by
    rw [dropSpace_item, member_append, dropSpace_cons_of_not (by decide)]
  have hvalue : value? fuel (' ' :: (w ++ tail)) = some (j, tail) := by
    rw [value?_congr (dropSpace_cons_of_isSpace (by decide) _)]
    exact h fuel tail hfuel
  rw [members?_named hdrop (string?_escaped name _), hvalue]

/-- Members one a line are read up to the brace. -/
theorem members?_lines {k : Nat} {written : α → Text} {value : α → Json} (level : Nat)
    (name : α → Text) (rest : Text) (x : α) (xs : List α)
    (h : ∀ y ∈ x :: xs, Reads k (written y) (value y)) (fuel : Nat)
    (hfuel : k + (xs.length + 1) ≤ fuel) :
    members? fuel ('\n' :: (Cut.join ",\n".toList
        ((x :: xs).map fun y => indent (level + 1) ++ member (name y) (written y)) ++
          '\n' :: (indent level ++ '}' :: rest))) =
      some ((x :: xs).map fun y => (some (name y), value y), rest) := by
  -- After a member comes the brace or a comma, and a comma is followed by another member.
  induction xs generalizing x fuel with
  | nil =>
    obtain ⟨fuel, rfl⟩ : ∃ n, fuel = n + 1 := ⟨fuel - 1, by omega⟩
    have hx := h x (List.mem_cons_self ..)
    rw [List.map_cons, List.map_nil, Cut.join, List.append_assoc,
      members?_member hx (by simp at hfuel; omega), dropSpace_ending level (by decide) rest]
    rfl
  | cons y ys ih =>
    obtain ⟨fuel, rfl⟩ : ∃ n, fuel = n + 1 := ⟨fuel - 1, by omega⟩
    have hlater := ih y (fun z hz => h z (List.mem_cons_of_mem _ hz)) fuel
      (by simp at hfuel; omega)
    have hx := h x (List.mem_cons_self ..)
    rw [List.map_cons] at hlater
    rw [List.map_cons, List.map_cons, join_lines_cons, List.append_assoc, List.append_assoc,
      List.cons_append, List.cons_append, members?_member hx (by simp at hfuel; omega),
      dropSpace_cons_of_not (by decide)]
    simp only [hlater]
    rfl

/-- No member starts with the brace that ends an object. -/
theorem members?_eq_none_of_brace {fuel : Nat} {t r : Text} (h : dropSpace t = '}' :: r) :
    members? fuel t = none := by
  cases fuel with
  | zero => rw [members?]
  | succ fuel => rw [members?, h]; rfl

theorem value?_brace (fuel : Nat) (rest : Text) :
    value? (fuel + 1) ('{' :: rest) =
      match dropSpace rest with
      | '}' :: r => some (Json.object [], r)
      | _ => (members? fuel rest).map fun (xs, r) => (Json.object xs, r) := rfl

theorem value?_object (fuel : Nat) {rest : Text} (h : ∀ r, dropSpace rest ≠ '}' :: r) :
    value? (fuel + 1) ('{' :: rest) =
      (members? fuel rest).map fun (xs, r) => (Json.object xs, r) := by
  rw [value?_brace]
  split
  · next r hr => exact absurd hr (h r)
  · rfl

/-- An object written one member a line is read back. -/
theorem reads_object {k : Nat} {written : α → Text} {value : α → Json} (level : Nat)
    (name : α → Text) (x : α) (xs : List α) (h : ∀ y ∈ x :: xs, Reads k (written y) (value y)) :
    Reads (k + xs.length + 2)
      (block '{' '}' level ((x :: xs).map fun y => member (name y) (written y)))
      (.object ((x :: xs).map fun y => (some (name y), value y))) := by
  intro fuel rest hfuel
  obtain ⟨fuel, rfl⟩ : ∃ n, fuel = n + 1 := ⟨fuel - 1, by omega⟩
  have hmembers := members?_lines level name rest x xs h fuel (by omega)
  have hnot : ∀ r, dropSpace ('\n' :: (Cut.join ",\n".toList
      ((x :: xs).map fun y => indent (level + 1) ++ member (name y) (written y)) ++
        '\n' :: (indent level ++ '}' :: rest))) ≠ '}' :: r := by
    intro r hr
    rw [members?_eq_none_of_brace hr] at hmembers
    exact absurd hmembers (by simp)
  have hvalue := value?_object fuel hnot
  rw [hmembers] at hvalue
  rw [List.map_cons, block_cons_append, List.map_cons, List.map_map]
  exact hvalue

/-! ## Section 5: Whole texts -/

/-- A value that needs no more steps than its text is long is what the text
    holds. -/
theorem ofText?_of_reads {k : Nat} {w : Text} {j : Json} (h : Reads k w j)
    (hk : k ≤ w.length + 1) : ofText? w = some j := by
  have hread := h (w.length + 1) [] hk
  rw [List.append_nil] at hread
  rw [ofText?, hread]
  rfl

end Json
end ScriptDeps
