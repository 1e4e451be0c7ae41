import Mathlib.Data.List.TakeDrop
import ScriptDeps.Proofs.Text.Cut
import ScriptDeps.Proofs.Text.Trim
import ScriptDeps.Proofs.Toml.Quoted
import ScriptDeps.Toml.Document

/-! # TOML documents there and back

    A document of tables with a header each, of which the rows are keys without
    quotes and values on the same line, is read back as these tables
    (`ofText?_join`).  What a value may be is told by its text alone
    (`Spells`): strings, truth values and numbers that are not negative. -/

namespace ScriptDeps
namespace Toml

variable {t ds rest key name : Text} {n : Nat} {v : Value}

/-! ## Section 1: Numbers -/

theorem ne_of_kind {p : Char → Bool} {c d : Char} (hc : p c = true) (hd : p d = false) :
    c ≠ d := by
  rintro rfl
  rw [hc] at hd
  cases hd

/-- The decimal digits of a number start with one. -/
theorem exists_cons_ofNat (n : Nat) :
    ∃ c ds, Decimal.ofNat n = c :: ds ∧ Text.isDigit c = true := by
  obtain ⟨c, ds, hcons⟩ := List.exists_cons_of_ne_nil (Decimal.ofNat_ne_nil n)
  exact ⟨c, ds, hcons, Decimal.isDigit_of_mem_ofNat (n := n) (hcons ▸ List.mem_cons_self ..)⟩

/-- Digits up to the end of the line. -/
def IsTail (rest t : Text) : Prop :=
  ∃ ds : Text, t = ds ++ '\n' :: rest ∧ ∀ c ∈ ds, Text.isDigit c = true

theorem isTail_of_twoDigits? {low high : Nat} {r : Text} (ht : IsTail rest t)
    (h : twoDigits? low high t = some (n, r)) : IsTail rest r := by
  obtain ⟨ds, rfl, hds⟩ := ht
  -- What follows the number is a line break, so two digits are only read within the number.
  match ds, hds with
  | [], _ =>
    cases rest with
    | nil => cases h
    | cons a rest =>
      rw [List.nil_append, twoDigits?, if_neg (by simp [Text.isDigit])] at h
      cases h
  | [a], _ =>
    rw [List.singleton_append, twoDigits?, if_neg] at h
    · cases h
    · simp only [Bool.and_eq_true, not_and]
      intro _
      decide
  | a :: b :: ds, hds =>
    rw [List.cons_append, List.cons_append, twoDigits?] at h
    split at h
    · dsimp only at h
      split at h
      · cases h
        exact ⟨ds, rfl, fun c hc => hds c (by simp [hc])⟩
      · cases h
    · cases h

theorem mark?_of_isTail {c : Char} (hdigit : Text.isDigit c = false) (hc : c ≠ '\n')
    (ht : IsTail rest t) : mark? c t = none := by
  obtain ⟨ds, rfl, hds⟩ := ht
  cases ds with
  | nil => exact if_neg hc.symm
  | cons d ds =>
    rw [List.cons_append, mark?, if_neg (ne_of_kind (hds d (List.mem_cons_self ..)) hdigit)]

/-- Digits alone are no date and no time. -/
theorem moment?_of_isTail (ht : IsTail rest t) : moment? t = none := by
  have hdate : date? t = none := by
    simp only [date?, Option.bind_eq_bind, Option.bind_eq_none_iff]
    intro ⟨x, r⟩ hr ⟨y, r'⟩ hr' u hu
    rw [mark?_of_isTail (by decide) (by decide)
      (isTail_of_twoDigits? (isTail_of_twoDigits? ht hr) hr')] at hu
    cases hu
  have htime : time? t = none := by
    simp only [time?, Option.bind_eq_bind, Option.bind_eq_none_iff]
    intro ⟨x, r⟩ hr u hu
    rw [mark?_of_isTail (by decide) (by decide) (isTail_of_twoDigits? ht hr)] at hu
    cases hu
  rw [moment?, hdate, htime]
  rfl

theorem digitsOf?_eq_none {p : Char → Bool} {c : Char} (h : p c = false) (r : Text) :
    digitsOf? p (c :: r) = none := by
  by_cases hr : ∃ r', r = '_' :: r'
  · obtain ⟨r', rfl⟩ := hr
    rw [digitsOf?, if_neg (by simp [h])]
  · rw [digitsOf?, if_neg (by simp [h])]
    intro r' heq
    exact hr ⟨r', heq⟩

theorem digits?_append (hne : ds ≠ []) (hds : ∀ c ∈ ds, Text.isDigit c = true) (rest : Text) :
    digits? (ds ++ '\n' :: rest) = some (ds, '\n' :: rest) := by
  unfold digits?
  induction ds with
  | nil => exact absurd rfl hne
  | cons c ds ih =>
    have hc := hds c (List.mem_cons_self ..)
    have hds' : ∀ d ∈ ds, Text.isDigit d = true := fun d hd => hds d (List.mem_cons_of_mem c hd)
    have hbreak : digitsOf? Text.isDigit ('\n' :: rest) = none := digitsOf?_eq_none rfl rest
    rw [List.cons_append, digitsOf?, if_pos hc]
    · cases ds with
      | nil => rw [List.nil_append, hbreak]
      | cons d ds => rw [ih (List.cons_ne_nil _ _) hds']
    · -- No underscore follows.
      intro r heq
      cases ds with
      | nil => exact absurd (List.cons.inj heq).1 (by decide)
      | cons d ds =>
        exact ne_of_kind (hds' d (List.mem_cons_self ..)) rfl (List.cons.inj heq).1

/-- The decimal digits of a number are read as a whole number. -/
theorem whole?_ofNat (n : Nat) (rest : Text) :
    whole? (Decimal.ofNat n ++ '\n' :: rest) = some (Decimal.ofNat n, '\n' :: rest) := by
  have hds : ∀ c ∈ Decimal.ofNat n, Text.isDigit c = true :=
    fun c hc => Decimal.isDigit_of_mem_ofNat hc
  by_cases hn : n = 0
  · subst hn
    rfl
  · have hhead := Decimal.head?_ofNat hn
    rw [whole?]
    · exact digits?_append (Decimal.ofNat_ne_nil n) hds rest
    · intro r heq
      cases hcons : Decimal.ofNat n with
      | nil => exact Decimal.ofNat_ne_nil n hcons
      | cons c ds =>
        rw [hcons] at heq hhead
        rw [(List.cons.inj heq).1] at hhead
        exact hhead rfl

/-- There is a digit in front of a number, so it starts like nothing that has its own mark. -/
theorem ofNat_ne_cons {d : Char} (hd : Text.isDigit d = false) (n : Nat) (rest r : Text) :
    Decimal.ofNat n ++ '\n' :: rest ≠ d :: r := by
  intro heq
  obtain ⟨c, ds, hcons, hc⟩ := exists_cons_ofNat n
  rw [hcons] at heq
  exact ne_of_kind hc hd (List.cons.inj heq).1

theorem sign_ofNat (n : Nat) (rest : Text) :
    sign (Decimal.ofNat n ++ '\n' :: rest) = (false, Decimal.ofNat n ++ '\n' :: rest) := by
  rw [sign]
  · exact fun r => ofNat_ne_cons rfl n rest r
  · exact fun r => ofNat_ne_cons rfl n rest r

theorem decimal?_ofNat (n : Nat) (rest : Text) :
    decimal? (Decimal.ofNat n ++ '\n' :: rest) = none := by
  rw [decimal?, sign_ofNat]
  dsimp only
  rw [whole?_ofNat]
  rfl

theorem special?_ofNat (n : Nat) (rest : Text) :
    special? (Decimal.ofNat n ++ '\n' :: rest) = none := by
  rw [special?, sign_ofNat]
  dsimp only
  split
  · next heq => exact absurd heq (ofNat_ne_cons rfl n rest _)
  · next heq => exact absurd heq (ofNat_ne_cons rfl n rest _)
  · rfl

/-- No letter of another base stands behind the first digit. -/
theorem ofNat_ne_base {mark : Char} (hmark : mark = 'x' ∨ mark = 'o' ∨ mark = 'b') (n : Nat)
    (rest r : Text) : Decimal.ofNat n ++ '\n' :: rest ≠ '0' :: mark :: r := by
  intro heq
  obtain ⟨c, ds, hcons, -⟩ := exists_cons_ofNat n
  have hmem : mark ∈ '\n' :: Decimal.ofNat n := by
    rw [hcons] at heq ⊢
    have htail := (List.cons.inj heq).2
    cases ds with
    | nil => exact List.mem_cons.2 (.inl (List.cons.inj htail).1.symm)
    | cons d ds => simp [(List.cons.inj htail).1]
  rcases List.mem_cons.1 hmem with rfl | hdigit
  · exact absurd hmark (by decide)
  · have hdigit := Decimal.isDigit_of_mem_ofNat hdigit
    rcases hmark with rfl | rfl | rfl
    · exact absurd hdigit (by decide)
    · exact absurd hdigit (by decide)
    · exact absurd hdigit (by decide)

theorem integer?_ofNat (hn : n < Nat.pow 2 63) (rest : Text) :
    integer? (Decimal.ofNat n ++ '\n' :: rest) = some (.integer n, '\n' :: rest) := by
  have hfit : fit? (n : Int) = some (.integer n) := by
    have hlimit : Nat.pow 2 63 = 9223372036854775808 := by decide
    rw [fit?, if_pos (by omega)]
  rw [integer?]
  · rw [sign_ofNat]
    dsimp only
    rw [whole?_ofNat]
    simp [hfit]
  · exact fun r => ofNat_ne_base (.inl rfl) n rest r
  · exact fun r => ofNat_ne_base (.inr (.inl rfl)) n rest r
  · exact fun r => ofNat_ne_base (.inr (.inr rfl)) n rest r

/-- Of all forms that a number can have, its decimal digits have that of an integer. -/
theorem number?_ofNat (hn : n < Nat.pow 2 63) (rest : Text) :
    number? (Decimal.ofNat n ++ '\n' :: rest) = some (.integer n, '\n' :: rest) := by
  have hmoment : moment? (Decimal.ofNat n ++ '\n' :: rest) = none :=
    moment?_of_isTail ⟨_, rfl, fun c hc => Decimal.isDigit_of_mem_ofNat hc⟩
  rw [number?, hmoment, decimal?_ofNat, special?_ofNat, integer?_ofNat hn]
  rfl

/-! ## Section 2: Values -/

/-- The text is one of a value on one line. -/
structure Spells (t : Text) (v : Value) : Prop where
  /-- No space is dropped in front of it. -/
  head  : ∀ c r, t = c :: r → isSpace c = false
  ne    : t ≠ []
  line  : '\r' ∉ t
  value : ∀ rest, value? maxDepth (t ++ '\n' :: rest) = some (v, '\n' :: rest)

/-- What starts with no bracket is neither array nor table. -/
theorem value?_scalar {c : Char} (hsquare : c ≠ '[') (hbrace : c ≠ '\x7b') (depth : Nat)
    (r : Text) : value? (depth + 1) (c :: r) = scalar? (c :: r) := by
  rw [value?]
  · intro r' heq
    exact hsquare (List.cons.inj heq).1
  · intro r' heq
    exact hbrace (List.cons.inj heq).1

theorem spells_bool (b : Bool) :
    Spells (if b then "true".toList else "false".toList) (.bool b) := by
  cases b with
  | true => exact ⟨by rintro c r ⟨⟩; rfl, by decide, by decide, fun _ => rfl⟩
  | false => exact ⟨by rintro c r ⟨⟩; rfl, by decide, by decide, fun _ => rfl⟩

/-- A string starts with a quote of one of the two kinds. -/
theorem exists_quote (t : Text) : ∃ c r, Quoted.write t = c :: r ∧ (c = '"' ∨ c = '\'') := by
  unfold Quoted.write
  cases Quoted.style t with
  | basic => exact ⟨_, _, rfl, .inl rfl⟩
  | basicBlock => exact ⟨_, _, rfl, .inl rfl⟩
  | literal => exact ⟨_, _, rfl, .inr rfl⟩
  | literalBlock => exact ⟨_, _, rfl, .inr rfl⟩

theorem spells_text (t : Text) : Spells (Quoted.write t) (.text t) := by
  obtain ⟨c, r, hwrite, hquote⟩ := exists_quote t
  refine ⟨?_, ?_, Quoted.return_notMem_write t, ?_⟩
  · intro d r' heq
    rw [hwrite] at heq
    obtain ⟨rfl, _⟩ := List.cons.inj heq
    rcases hquote with rfl | rfl
    · rfl
    · rfl
  · rw [hwrite]
    exact List.cons_ne_nil _ _
  · intro rest
    have hread : Quoted.read? (Quoted.write t ++ '\n' :: rest) = some (t, '\n' :: rest) :=
      Quoted.read?_write t (by simp) (by simp)
    rw [hwrite, List.cons_append] at hread ⊢
    rcases hquote with rfl | rfl
    · rw [maxDepth, value?_scalar (by decide) (by decide), scalar?, hread]
      rfl
    · rw [maxDepth, value?_scalar (by decide) (by decide), scalar?, hread]
      rfl

theorem spells_integer (hn : n < Nat.pow 2 63) : Spells (Decimal.ofNat n) (.integer n) := by
  have hds : ∀ c ∈ Decimal.ofNat n, Text.isDigit c = true :=
    fun c hc => Decimal.isDigit_of_mem_ofNat hc
  obtain ⟨c, ds, hcons, hc⟩ := exists_cons_ofNat n
  have hne : ∀ {d : Char}, Text.isDigit d = false → c ≠ d := ne_of_kind hc
  refine ⟨?_, Decimal.ofNat_ne_nil n, ?_, ?_⟩
  · intro d r heq
    rw [hcons] at heq
    obtain ⟨rfl, _⟩ := List.cons.inj heq
    rw [isSpace, decide_eq_false (hne rfl), decide_eq_false (hne rfl)]
    rfl
  · intro hmem
    exact absurd (hds _ hmem) (by decide)
  · intro rest
    have hread := number?_ofNat hn rest
    rw [hcons, List.cons_append] at hread ⊢
    rw [maxDepth, value?_scalar (hne rfl) (hne rfl), scalar?]
    · exact hread
    · exact fun r heq => hne rfl (List.cons.inj heq).1
    · exact fun r heq => hne rfl (List.cons.inj heq).1
    · exact fun r heq => hne rfl (List.cons.inj heq).1
    · exact fun r heq => hne rfl (List.cons.inj heq).1

/-! ## Section 3: Lines -/

/-- A key that needs no quotes. -/
def IsBareKey (key : Text) : Prop := key ≠ [] ∧ ∀ c ∈ key, isKeyChar c = true

theorem IsBareKey.exists_cons (h : IsBareKey key) :
    ∃ c r, key = c :: r ∧ isKeyChar c = true := by
  obtain ⟨c, r, rfl⟩ := List.exists_cons_of_ne_nil h.1
  exact ⟨c, r, rfl, h.2 c (List.mem_cons_self ..)⟩

theorem dropSpace_of_isKeyChar {c : Char} (hc : isKeyChar c = true) (r : Text) :
    dropSpace (c :: r) = c :: r := by
  rw [dropSpace, List.dropWhile_cons_of_neg]
  simp [isSpace, ne_of_kind hc (d := ' ') rfl, ne_of_kind hc (d := '\t') rfl]

/-- A key without quotes ends where no key goes on. -/
theorem key?_append (hkey : IsBareKey key) (hstops : Cut.Stops isKeyChar rest)
    (hdot : ∀ r, dropSpace rest ≠ '.' :: r) :
    key? (key ++ rest) = some (⟨[], key⟩, dropSpace rest) := by
  obtain ⟨c, r, rfl, hc⟩ := hkey.exists_cons
  have hpart : keyPart? (c :: r ++ rest) = some (c :: r, rest) := by
    rw [keyPart?]
    · rw [List.span_eq_takeWhile_dropWhile, Cut.takeWhile_run hkey.2 hstops,
        Cut.dropWhile_run hkey.2 hstops]
      rfl
    · exact fun r heq => ne_of_kind hc rfl (List.cons.inj heq).1
    · exact fun r heq => ne_of_kind hc rfl (List.cons.inj heq).1
  have hparts : keyParts? maxDepth (c :: r ++ rest) = some ([c :: r], dropSpace rest) := by
    rw [maxDepth, keyParts?, List.cons_append, dropSpace_of_isKeyChar hc, ← List.cons_append,
      hpart]
    dsimp only
    split
    · next heq => exact absurd heq (hdot _)
    · rfl
  rw [key?, hparts]
  rfl

namespace Line

theorem one?_header (hname : IsBareKey name) (rest : Text) :
    one? ('[' :: (name ++ ']' :: '\n' :: rest)) = some (.header ⟨[], name⟩, rest) := by
  have hkey : key? (name ++ ']' :: '\n' :: rest) = some (⟨[], name⟩, ']' :: '\n' :: rest) :=
    key?_append hname (Cut.stops_cons.2 rfl) (by simp [dropSpace, isSpace])
  obtain ⟨c, r, rfl, hc⟩ := hname.exists_cons
  rw [one?]
  · rw [hkey]
    rfl
  · intro r' heq
    exact ne_of_kind hc rfl (List.cons.inj heq).1

theorem one?_pair (hkey : IsBareKey key) (hvalue : Spells t v) (rest : Text) :
    one? (key ++ (" = ".toList ++ (t ++ '\n' :: rest))) =
      some (.pair ⟨[], key⟩ v, rest) := by
  have hread : key? (key ++ (" = ".toList ++ (t ++ '\n' :: rest))) =
      some (⟨[], key⟩, '=' :: ' ' :: (t ++ '\n' :: rest)) :=
    key?_append hkey (Cut.stops_cons.2 rfl) (by simp [dropSpace, isSpace])
  have hspace : dropSpace (' ' :: (t ++ '\n' :: rest)) = t ++ '\n' :: rest := by
    obtain ⟨c, r, rfl⟩ := List.exists_cons_of_ne_nil hvalue.ne
    rw [dropSpace, List.dropWhile_cons_of_pos rfl, List.cons_append, List.dropWhile_cons_of_neg]
    rw [hvalue.head c r rfl]
    exact Bool.false_ne_true
  have hpair : pair? (value? maxDepth) (key ++ (" = ".toList ++ (t ++ '\n' :: rest))) =
      some ((⟨[], key⟩, v), '\n' :: rest) := by
    rw [pair?, hread]
    show (value? maxDepth (dropSpace (' ' :: (t ++ '\n' :: rest)))).map _ = _
    rw [hspace, hvalue.value]
    rfl
  obtain ⟨c, r, rfl, hc⟩ := hkey.exists_cons
  rw [one?]
  · rw [hpair]
    rfl
  · exact fun r heq => ne_of_kind hc rfl (List.cons.inj heq).1
  · exact fun r heq => ne_of_kind hc rfl (List.cons.inj heq).1

/-- The lines that a text is read as, whatever room there is for more of them. -/
def Reads (t : Text) (ls : List Line) : Prop := ∀ fuel, t.length < fuel → many? fuel t = some ls

theorem reads_nil : Reads [] [] := by
  intro fuel hfuel
  cases fuel with
  | zero => cases hfuel
  | succ fuel => rfl

/-- A blank line is skipped. -/
theorem Reads.blank {ls : List Line} (h : Reads t ls) : Reads ('\n' :: t) ls := by
  intro fuel hfuel
  cases fuel with
  | zero => cases hfuel
  | succ fuel =>
    have hread := h (fuel + 1) (by simp only [List.length_cons] at hfuel; omega)
    rw [many?] at hread ⊢
    exact hread

/-- A line is read before the rest. -/
theorem Reads.cons {line : Line} {ls : List Line} {c : Char} {r : Text} (h : Reads rest ls)
    (ht : t = c :: r) (hc : isSpace c = false ∧ c ≠ '\n' ∧ c ≠ '#')
    (hone : one? t = some (line, rest)) (hlength : rest.length < t.length) :
    Reads t (line :: ls) := by
  intro fuel hfuel
  subst ht
  cases fuel with
  | zero => cases hfuel
  | succ fuel =>
    have hfiller : dropFiller false (c :: r) = some (c :: r) := by
      rw [dropFiller, if_neg (by simp [hc.1, hc.2.1]), if_neg hc.2.2]
    rw [many?, hfiller]
    dsimp only
    rw [hone]
    dsimp only
    rw [h fuel (by omega)]
    rfl

end Line

/-! ## Section 4: Tables -/

/-- A key with its value, and the text of the value. -/
structure Row where
  key   : Text
  text  : Text
  value : Value

/-- A table with its name. -/
structure Block where
  name : Text
  rows : List Row

/-- The key needs no quotes, and the text is that of the value. -/
structure Row.IsWellFormed (row : Row) : Prop where
  key    : IsBareKey row.key
  spells : Spells row.text row.value

def Row.line (row : Row) : Text := row.key ++ (" = ".toList ++ (row.text ++ ['\n']))

namespace Block

variable {b : Block}

/-- The names need no quotes, and no key comes twice. -/
structure IsWellFormed (b : Block) : Prop where
  name : IsBareKey b.name
  rows : ∀ row ∈ b.rows, row.IsWellFormed
  keys : (b.rows.map Row.key).Nodup

/-- The header and the rows. -/
def text (b : Block) : Text :=
  '[' :: (b.name ++ ("]\n".toList ++ (b.rows.map Row.line).flatten))

def lines (b : Block) : List Line :=
  .header ⟨[], b.name⟩ :: b.rows.map fun row => .pair ⟨[], row.key⟩ row.value

def table (b : Block) : Rows := b.rows.map fun row => (row.key, row.value)

theorem reads_rows {rows : List Row} (hrows : ∀ row ∈ rows, row.IsWellFormed) {ls : List Line}
    (h : Line.Reads rest ls) :
    Line.Reads ((rows.map Row.line).flatten ++ rest)
      (rows.map (fun row => .pair ⟨[], row.key⟩ row.value) ++ ls) := by
  induction rows with
  | nil => exact h
  | cons row rows ih =>
    have hrow := hrows row (List.mem_cons_self ..)
    have hrest := ih fun r hr => hrows r (List.mem_cons_of_mem row hr)
    have htext : ((row :: rows).map Row.line).flatten ++ rest = row.key ++
        (" = ".toList ++ (row.text ++ '\n' :: ((rows.map Row.line).flatten ++ rest))) := by
      simp [Row.line]
    have hone := Line.one?_pair hrow.key hrow.spells ((rows.map Row.line).flatten ++ rest)
    obtain ⟨c, r, hkey, hc⟩ := hrow.key.exists_cons
    rw [← htext] at hone
    refine hrest.cons (by rw [htext, hkey]; rfl)
      ⟨?_, ne_of_kind hc rfl, ne_of_kind hc rfl⟩ hone ?_
    · rw [isSpace, decide_eq_false (ne_of_kind hc rfl),
        decide_eq_false (ne_of_kind hc rfl)]
      rfl
    · rw [htext]
      simp only [List.length_append, List.length_cons]
      omega

theorem reads_text (hb : b.IsWellFormed) {ls : List Line} (h : Line.Reads rest ls) :
    Line.Reads (b.text ++ rest) (b.lines ++ ls) := by
  have htext : b.text ++ rest =
      '[' :: (b.name ++ ']' :: '\n' :: ((b.rows.map Row.line).flatten ++ rest)) := by
    simp [text]
  have hone := Line.one?_header hb.name ((b.rows.map Row.line).flatten ++ rest)
  rw [← htext] at hone
  refine (reads_rows hb.rows h).cons htext (by decide) hone ?_
  rw [htext]
  simp only [List.length_append, List.length_cons]
  omega

end Block

/-- Tables one after the other, with blank lines between them. -/
theorem reads_join {bs : List Block} (hbs : ∀ b ∈ bs, b.IsWellFormed) :
    Line.Reads (Cut.join ['\n'] (bs.map Block.text) ++ ['\n']) (bs.flatMap Block.lines) := by
  induction bs with
  | nil => exact Line.reads_nil.blank
  | cons b bs ih =>
    have hb := hbs b (List.mem_cons_self ..)
    have hrest := ih fun a ha => hbs a (List.mem_cons_of_mem b ha)
    cases bs with
    | nil => exact Block.reads_text hb Line.reads_nil.blank
    | cons a bs =>
      have htext : Cut.join ['\n'] ((b :: a :: bs).map Block.text) ++ ['\n'] =
          b.text ++ '\n' :: (Cut.join ['\n'] ((a :: bs).map Block.text) ++ ['\n']) := by
        simp [Cut.join]
      rw [htext]
      exact Block.reads_text hb hrest.blank

namespace Rows

variable {rows inner : Rows}

theorem get?_eq_none_iff : rows.get? key = none ↔ key ∉ rows.map (·.1) := by
  rw [get?, List.lookup_eq_none_iff, List.mem_map, not_exists]
  constructor
  · rintro h row ⟨hrow, rfl⟩
    simpa using h row hrow
  · intro h row hrow
    have hne : key ≠ row.1 := fun heq => h row ⟨hrow, heq.symm⟩
    simpa using hne

theorem get?_append_single (h : rows.get? key = none) (v : Value) :
    Rows.get? (rows ++ [(key, v)]) key = some v := by
  rw [get?, List.lookup_append, show List.lookup key rows = none from h]
  simp

theorem set_append_single (h : rows.get? key = none) (v w : Value) :
    set key w (rows ++ [(key, v)]) = rows ++ [(key, w)] := by
  rw [get?_eq_none_iff] at h
  induction rows with
  | nil => simp [set]
  | cons row rows ih =>
    rw [List.map_cons, List.mem_cons, not_or] at h
    rw [List.cons_append, set, if_neg (Ne.symm h.1), ih h.2]
    rfl

end Rows

namespace Document

variable {rows inner : Rows}

/-- A header starts an empty table. -/
theorem add?_header (h : rows.get? name = none) (header : List Text) :
    add? ⟨rows, header⟩ (.header ⟨[], name⟩) =
      some ⟨rows ++ [(name, .table .named [])], [name]⟩ := by
  simp [add?, Rows.addHeader?, Rows.descend, h]

/-- A row is added to the table that was started last. -/
theorem add?_pair (h : rows.get? name = none) (hkey : inner.get? key = none) (v : Value) :
    add? ⟨rows ++ [(name, .table .named inner)], [name]⟩ (.pair ⟨[], key⟩ v) =
      some ⟨rows ++ [(name, .table .named (inner ++ [(key, v)]))], [name]⟩ := by
  simp [add?, Rows.addKey?, Rows.add?, Rows.descend, Rows.get?_append_single h,
    Rows.set_append_single h, hkey]

theorem foldlM_rows (h : rows.get? name = none) (rs : List Row)
    (hkeys : (inner.map (·.1) ++ rs.map Row.key).Nodup) :
    (rs.map fun row => Line.pair ⟨[], row.key⟩ row.value).foldlM add?
        ⟨rows ++ [(name, .table .named inner)], [name]⟩ =
      some ⟨rows ++ [(name, .table .named (inner ++ rs.map fun row => (row.key, row.value)))],
        [name]⟩ := by
  induction rs generalizing inner with
  | nil => simp
  | cons row rs ih =>
    have hfresh : inner.get? row.key = none := by
      rw [Rows.get?_eq_none_iff]
      intro hmem
      exact (List.nodup_append.1 hkeys).2.2 _ hmem _ (by simp) rfl
    rw [List.map_cons, List.foldlM_cons, add?_pair h hfresh]
    show List.foldlM add? _ _ = _
    rw [ih (by simpa using hkeys)]
    simp

/-- The lines of a table add that table. -/
theorem foldlM_lines {b : Block} (hb : b.IsWellFormed) (h : rows.get? b.name = none)
    (header : List Text) :
    b.lines.foldlM add? ⟨rows, header⟩ =
      some ⟨rows ++ [(b.name, .table .named b.table)], [b.name]⟩ := by
  rw [Block.lines, List.foldlM_cons, add?_header h]
  exact foldlM_rows h b.rows (by simpa using hb.keys)

theorem exists_foldlM_blocks {bs : List Block} (hbs : ∀ b ∈ bs, b.IsWellFormed)
    (hnames : (rows.map (·.1) ++ bs.map Block.name).Nodup) (header : List Text) :
    ∃ last, (bs.flatMap Block.lines).foldlM add? ⟨rows, header⟩ =
      some ⟨rows ++ bs.map fun b => (b.name, .table .named b.table), last⟩ := by
  induction bs generalizing rows header with
  | nil => exact ⟨header, by simp⟩
  | cons b bs ih =>
    have hfresh : rows.get? b.name = none := by
      rw [Rows.get?_eq_none_iff]
      intro hmem
      exact (List.nodup_append.1 hnames).2.2 _ hmem _ (by simp) rfl
    have hrest : (List.map Prod.fst (rows ++ [(b.name, Value.table .named b.table)]) ++
        bs.map Block.name).Nodup := by simpa using hnames
    obtain ⟨last, hlast⟩ := ih (fun a ha => hbs a (List.mem_cons_of_mem b ha)) hrest [b.name]
    refine ⟨last, ?_⟩
    rw [List.flatMap_cons, List.foldlM_append, foldlM_lines (hbs b (List.mem_cons_self ..)) hfresh]
    show List.foldlM add? _ _ = _
    rw [hlast]
    simp

end Document

/-! ## Section 5: Documents -/

theorem unixLines_of_notMem (h : '\r' ∉ t) : unixLines t = t ++ ['\n'] := by
  induction t with
  | nil => rfl
  | cons c t ih =>
    have hc : c ≠ '\r' := fun heq => h (heq ▸ List.mem_cons_self ..)
    rw [unixLines]
    · rw [ih fun hmem => h (List.mem_cons_of_mem c hmem)]
      rfl
    · exact fun _ heq _ => hc heq

theorem IsBareKey.return_notMem (h : IsBareKey key) : '\r' ∉ key :=
  fun hmem => absurd (h.2 _ hmem) (by decide)

theorem Block.return_notMem_text {b : Block} (hb : b.IsWellFormed) : '\r' ∉ b.text := by
  have hrows : '\r' ∉ (b.rows.map Row.line).flatten := by
    rw [List.mem_flatten]
    rintro ⟨_, hline, hmem⟩
    obtain ⟨row, hrow, rfl⟩ := List.mem_map.1 hline
    have hform := hb.rows row hrow
    simp [Row.line, hform.key.return_notMem, hform.spells.line] at hmem
  simp [Block.text, hb.name.return_notMem, hrows]

/-- A document is read as the tables that it is made of. -/
theorem ofText?_join {bs : List Block} (hbs : ∀ b ∈ bs, b.IsWellFormed)
    (hnames : (bs.map Block.name).Nodup) :
    ofText? (Cut.join ['\n'] (bs.map Block.text)) =
      some (bs.map fun b => (b.name, .table .named b.table)) := by
  have hline : '\r' ∉ Cut.join ['\n'] (bs.map Block.text) := by
    intro hmem
    rcases Cut.mem_join hmem with hbreak | ⟨text, htext, hmem⟩
    · exact absurd hbreak (by decide)
    · obtain ⟨b, hb, rfl⟩ := List.mem_map.1 htext
      exact Block.return_notMem_text (hbs b hb) hmem
  have hmark : dropMark (Cut.join ['\n'] (bs.map Block.text)) =
      Cut.join ['\n'] (bs.map Block.text) := by
    cases bs with
    | nil => rfl
    | cons b bs =>
      -- A document starts with the bracket of a header.
      have hhead : ∃ r, Cut.join ['\n'] ((b :: bs).map Block.text) = '[' :: r := by
        cases bs with
        | nil => exact ⟨_, rfl⟩
        | cons a bs => exact ⟨_, rfl⟩
      obtain ⟨r, hr⟩ := hhead
      rw [hr]
      rfl
  have hall : (([] : Rows).map (·.1) ++ bs.map Block.name).Nodup := by simpa using hnames
  obtain ⟨last, hfold⟩ := Document.exists_foldlM_blocks hbs hall []
  rw [ofText?, hmark, unixLines_of_notMem hline]
  show (Line.many? _ _).bind Document.ofLines? = _
  rw [reads_join hbs _ (Nat.lt_succ_self _)]
  show Document.ofLines? _ = _
  rw [Document.ofLines?, hfold]
  rfl

end Toml
end ScriptDeps
