import ScriptDeps.Text.Utf8

/-! # UTF-8 there and back

    Every text is read back from its bytes, and only the bytes of a text are
    read as one.  So distinct texts have distinct bytes, and a byte below 0x80
    in the bytes of a text is that character.  A reading that accepts everything
    makes up no such byte and begins anew at each (`decodeLossy_append`). -/

namespace ScriptDeps
namespace Utf8

/-! ## Section 1: One form -/

theorem toNat_toUInt8_of_lt {n : Nat} (h : n < 256) : n.toUInt8.toNat = n := by
  simp [UInt8.toNat_ofNat', Nat.mod_eq_of_lt h]

/-- A Unicode scalar value. -/
def IsScalar (n : Nat) : Prop := n < 0xD800 ∨ (0xE000 ≤ n ∧ n < 0x110000)

theorem isScalar_toNat (c : Char) : IsScalar c.toNat := by
  have h : c.val.toNat < 0xD800 ∨ (0xDFFF < c.val.toNat ∧ c.val.toNat < 0x110000) := c.valid
  have hc : c.toNat = c.val.toNat := rfl
  unfold IsScalar
  omega

theorem toNat_ofNat_of_isScalar {n : Nat} (h : IsScalar n) : (Char.ofNat n).toNat = n := by
  have hv : n.isValidChar := by
    unfold IsScalar at h
    unfold Nat.isValidChar
    omega
  rw [Char.ofNat, dif_pos hv]
  rfl

/-- One further byte that fits. -/
theorem continuation_cons {n low high value k : Nat} {rest : Bytes}
    (hk : k < 256) (h : low ≤ k ∧ k ≤ high) :
    continuation (n + 1) low high value (k.toUInt8 :: rest) =
      continuation n 0x80 0xBF (value * 64 + (k - 0x80)) rest := by
  rw [continuation, toNat_toUInt8_of_lt hk, if_pos h]

theorem next_of_lead? {n : Nat} {l : Lead} (hn : n < 256) (h : lead? n = some l) (rest : Bytes) :
    next n.toUInt8 rest =
      ((continuation l.follow l.low l.high l.value rest).1.map Char.ofNat,
       (continuation l.follow l.low l.high l.value rest).2) := by
  simp only [next, toNat_toUInt8_of_lt hn, h]

/-- The lead of a form of three bytes, and the range of its second byte. -/
theorem lead?_three {n : Nat} (h : 0x800 ≤ n) (h' : n < 0x10000) (hs : IsScalar n) :
    ∃ low high, lead? (0xE0 + n / 4096) = some ⟨2, low, high, n / 4096⟩ ∧
      low ≤ 0x80 + n / 64 % 64 ∧ 0x80 + n / 64 % 64 ≤ high := by
  unfold IsScalar at hs
  unfold lead?
  rw [if_neg (by omega), if_neg (by omega), if_neg (by omega)]
  by_cases h0 : n / 4096 = 0
  · refine ⟨0xA0, 0xBF, ?_, by omega, by omega⟩
    simp [h0]
  · rw [if_neg (by omega)]
    by_cases hd : n / 4096 = 13
    · refine ⟨0x80, 0x9F, ?_, by omega, by omega⟩
      simp [hd]
    · rw [if_neg (by omega), if_pos (by omega)]
      exact ⟨0x80, 0xBF, by simp, by omega, by omega⟩

/-- The lead of a form of four bytes, and the range of its second byte. -/
theorem lead?_four {n : Nat} (h : 0x10000 ≤ n) (hs : IsScalar n) :
    ∃ low high, lead? (0xF0 + n / 262144) = some ⟨3, low, high, n / 262144⟩ ∧
      low ≤ 0x80 + n / 4096 % 64 ∧ 0x80 + n / 4096 % 64 ≤ high := by
  unfold IsScalar at hs
  unfold lead?
  rw [if_neg (by omega), if_neg (by omega), if_neg (by omega), if_neg (by omega),
    if_neg (by omega), if_neg (by omega)]
  by_cases h0 : n / 262144 = 0
  · refine ⟨0x90, 0xBF, ?_, by omega, by omega⟩
    simp [h0]
  · rw [if_neg (by omega)]
    by_cases h4 : n / 262144 = 4
    · refine ⟨0x80, 0x8F, ?_, by omega, by omega⟩
      simp [h4]
    · rw [if_pos (by omega)]
      exact ⟨0x80, 0xBF, by simp, by omega, by omega⟩

theorem next_two {n : Nat} (hlow : 0x80 ≤ n) (hhigh : n < 0x800) (rest : Bytes) :
    next (0xC0 + n / 64).toUInt8 ((0x80 + n % 64).toUInt8 :: rest) =
      (some (Char.ofNat n), rest) := by
  have hl : lead? (0xC0 + n / 64) = some ⟨1, 0x80, 0xBF, 0xC0 + n / 64 - 0xC0⟩ := by
    unfold lead?
    rw [if_neg (by omega), if_neg (by omega), if_pos (by omega)]
  have hv : (0xC0 + n / 64 - 0xC0) * 64 + (0x80 + n % 64 - 0x80) = n := by omega
  rw [next_of_lead? (by omega) hl]
  dsimp only
  rw [continuation_cons (by omega) (by omega), hv]
  rfl

theorem next_three {n : Nat} (h2 : 0x800 ≤ n) (h3 : n < 0x10000) (hs : IsScalar n)
    (rest : Bytes) :
    next (0xE0 + n / 4096).toUInt8
        ((0x80 + n / 64 % 64).toUInt8 :: (0x80 + n % 64).toUInt8 :: rest) =
      (some (Char.ofNat n), rest) := by
  obtain ⟨low, high, hl, hlow, hhigh⟩ := lead?_three h2 h3 hs
  have hv : (n / 4096 * 64 + (0x80 + n / 64 % 64 - 0x80)) * 64 + (0x80 + n % 64 - 0x80) = n := by
    omega
  rw [next_of_lead? (by omega) hl, continuation_cons (by omega) ⟨hlow, hhigh⟩,
    continuation_cons (by omega) (by omega), hv]
  rfl

theorem next_four {n : Nat} (h3 : 0x10000 ≤ n) (hs : IsScalar n) (rest : Bytes) :
    next (0xF0 + n / 262144).toUInt8
        ((0x80 + n / 4096 % 64).toUInt8 :: (0x80 + n / 64 % 64).toUInt8 ::
          (0x80 + n % 64).toUInt8 :: rest) =
      (some (Char.ofNat n), rest) := by
  obtain ⟨low, high, hl, hlow, hhigh⟩ := lead?_four h3 hs
  have hv : ((n / 262144 * 64 + (0x80 + n / 4096 % 64 - 0x80)) * 64
      + (0x80 + n / 64 % 64 - 0x80)) * 64 + (0x80 + n % 64 - 0x80) = n := by omega
  unfold IsScalar at hs
  rw [next_of_lead? (by omega) hl, continuation_cons (by omega) ⟨hlow, hhigh⟩,
    continuation_cons (by omega) (by omega), continuation_cons (by omega) (by omega), hv]
  rfl

/-- The form of a scalar value is read back, whatever follows it. -/
theorem next_encodeCode {n : Nat} (hs : IsScalar n) :
    ∃ b bs, encodeCode n = b :: bs ∧
      ∀ rest, next b (bs ++ rest) = (some (Char.ofNat n), rest) := by
  unfold encodeCode
  by_cases h1 : n < 0x80
  · refine ⟨n.toUInt8, [], by rw [if_pos h1], fun rest => ?_⟩
    have hl : lead? n = some ⟨0, 0x80, 0xBF, n⟩ := by unfold lead?; rw [if_pos h1]
    rw [next_of_lead? (by omega) hl]
    rfl
  rw [if_neg h1]
  by_cases h2 : n < 0x800
  · rw [if_pos h2]
    exact ⟨_, _, rfl, fun rest => next_two (by omega) h2 rest⟩
  rw [if_neg h2]
  by_cases h3 : n < 0x10000
  · rw [if_pos h3]
    exact ⟨_, _, rfl, fun rest => next_three (by omega) h3 hs rest⟩
  · rw [if_neg h3]
    exact ⟨_, _, rfl, fun rest => next_four (by omega) hs rest⟩

/-! ## Section 2: Whole texts -/

theorem decode_cons_of_next {b : UInt8} {rest rest' : Bytes} {c : Char}
    (h : next b rest = (some c, rest')) : decode (b :: rest) = (decode rest').map (c :: ·) := by
  rw [decode]
  split
  next heq => rw [h] at heq; simp at heq
  next c' r' heq => rw [h] at heq; simp at heq; obtain ⟨rfl, rfl⟩ := heq; rfl

theorem encode_cons (c : Char) (t : Text) : encode (c :: t) = encodeCode c.toNat ++ encode t := by
  simp [encode]

/-- A text is read back from its bytes, whatever follows them. -/
theorem decode_encode_append (t : Text) (rest : Bytes) :
    decode (encode t ++ rest) = (decode rest).map (t ++ ·) := by
  induction t with
  | nil => simp
  | cons c t ih =>
    obtain ⟨b, bs, hb, hnext⟩ := next_encodeCode (isScalar_toNat c)
    rw [encode_cons, hb, List.cons_append, List.cons_append, List.append_assoc,
      decode_cons_of_next (hnext _), ih, Option.map_map, Char.ofNat_toNat]
    rfl

@[simp] theorem decode_encode (t : Text) : decode (encode t) = some t := by
  have h := decode_encode_append t []
  simpa [decode] using h

@[simp] theorem decodeLossy_encode (t : Text) : decodeLossy (encode t) = t :=
  decodeLossy_of_decode (decode_encode t)

/-! ## Section 3: Only the bytes of a text -/

theorem continuation_eq_some {n low high value w : Nat} {bs rest : Bytes}
    (h : continuation (n + 1) low high value bs = (some w, rest)) :
    ∃ b bs', bs = b :: bs' ∧ low ≤ b.toNat ∧ b.toNat ≤ high ∧
      continuation n 0x80 0xBF (value * 64 + (b.toNat - 0x80)) bs' = (some w, rest) := by
  cases bs with
  | nil => simp [continuation] at h
  | cons b bs' =>
    rw [continuation] at h
    split at h
    next hb => exact ⟨b, bs', rfl, hb.1, hb.2, h⟩
    next => simp at h

/-- How many bytes follow a lead, which range the first of them has, and that
    no lead makes a value with a shorter form or a surrogate. -/
theorem lead?_eq_some {b : Nat} {l : Lead} (h : lead? b = some l) :
    (b < 0x80 ∧ l = ⟨0, 0x80, 0xBF, b⟩) ∨
    (0xC2 ≤ b ∧ b < 0xE0 ∧ l = ⟨1, 0x80, 0xBF, b - 0xC0⟩) ∨
    (∃ low high, 0xE0 ≤ b ∧ b < 0xF0 ∧ l = ⟨2, low, high, b - 0xE0⟩ ∧ 0x80 ≤ low ∧ high ≤ 0xBF ∧
      (b = 0xE0 → 0xA0 ≤ low) ∧ (b = 0xED → high ≤ 0x9F)) ∨
    (∃ low high, 0xF0 ≤ b ∧ b < 0xF5 ∧ l = ⟨3, low, high, b - 0xF0⟩ ∧ 0x80 ≤ low ∧ high ≤ 0xBF ∧
      (b = 0xF0 → 0x90 ≤ low) ∧ (b = 0xF4 → high ≤ 0x8F)) := by
  unfold lead? at h
  split at h
  next hb => exact Or.inl ⟨hb, (Option.some.inj h).symm⟩
  split at h
  next => simp at h
  split at h
  next => exact Or.inr (Or.inl ⟨by omega, by omega, (Option.some.inj h).symm⟩)
  split at h
  next hb =>
    subst hb
    exact Or.inr (Or.inr (Or.inl ⟨0xA0, 0xBF, by omega, by omega, (Option.some.inj h).symm,
      by omega, by omega, by omega, by omega⟩))
  split at h
  next hb =>
    subst hb
    exact Or.inr (Or.inr (Or.inl ⟨0x80, 0x9F, by omega, by omega, (Option.some.inj h).symm,
      by omega, by omega, by omega, by omega⟩))
  split at h
  next => exact Or.inr (Or.inr (Or.inl ⟨0x80, 0xBF, by omega, by omega, (Option.some.inj h).symm,
      by omega, by omega, by omega, by omega⟩))
  split at h
  next hb =>
    subst hb
    exact Or.inr (Or.inr (Or.inr ⟨0x90, 0xBF, by omega, by omega, (Option.some.inj h).symm,
      by omega, by omega, by omega, by omega⟩))
  split at h
  next => exact Or.inr (Or.inr (Or.inr ⟨0x80, 0xBF, by omega, by omega, (Option.some.inj h).symm,
      by omega, by omega, by omega, by omega⟩))
  split at h
  next hb =>
    subst hb
    exact Or.inr (Or.inr (Or.inr ⟨0x80, 0x8F, by omega, by omega, (Option.some.inj h).symm,
      by omega, by omega, by omega, by omega⟩))
  next => simp at h

theorem toUInt8_eq_of_toNat {n : Nat} {b : UInt8} (h : n = b.toNat) : n.toUInt8 = b := by
  subst h
  simp

/-- What is read as a character is its form. -/
theorem eq_encodeCode_of_next {b : UInt8} {rest rest' : Bytes} {c : Char}
    (h : next b rest = (some c, rest')) : b :: rest = encodeCode c.toNat ++ rest' := by
  unfold next at h
  split at h
  next => simp at h
  next l hl =>
  have hb : b.toNat < 256 := b.toNat_lt
  simp only [Prod.mk.injEq, Option.map_eq_some_iff] at h
  obtain ⟨⟨w, hw, rfl⟩, hrest⟩ := h
  have hc : continuation l.follow l.low l.high l.value rest = (some w, rest') := by
    rw [← hw, ← hrest]
  -- One case for each length of a form: the bytes that were taken are those of the form.
  obtain ⟨h1, rfl⟩ | ⟨h1, h2, rfl⟩ | ⟨low, high, h1, h2, rfl, hlow, hhigh, hE0, hED⟩ |
    ⟨low, high, h1, h2, rfl, hlow, hhigh, hF0, hF4⟩ := lead?_eq_some hl
  all_goals dsimp only at hc
  · simp only [continuation, Prod.mk.injEq, Option.some.injEq] at hc
    obtain ⟨rfl, rfl⟩ := hc
    rw [toNat_ofNat_of_isScalar (by unfold IsScalar; omega), encodeCode, if_pos h1,
      toUInt8_eq_of_toNat rfl, List.singleton_append]
  · obtain ⟨x, xs, rfl, hx1, hx2, hc⟩ := continuation_eq_some hc
    simp only [continuation, Prod.mk.injEq, Option.some.injEq] at hc
    obtain ⟨rfl, rfl⟩ := hc
    rw [toNat_ofNat_of_isScalar (by unfold IsScalar; omega), encodeCode, if_neg (by omega),
      if_pos (by omega), toUInt8_eq_of_toNat (b := b) (by omega),
      toUInt8_eq_of_toNat (b := x) (by omega), List.cons_append, List.singleton_append]
  · obtain ⟨x, xs, rfl, hx1, hx2, hc⟩ := continuation_eq_some hc
    obtain ⟨y, ys, rfl, hy1, hy2, hc⟩ := continuation_eq_some hc
    simp only [continuation, Prod.mk.injEq, Option.some.injEq] at hc
    obtain ⟨rfl, rfl⟩ := hc
    rw [toNat_ofNat_of_isScalar (by unfold IsScalar; omega), encodeCode, if_neg (by omega),
      if_neg (by omega), if_pos (by omega), toUInt8_eq_of_toNat (b := b) (by omega),
      toUInt8_eq_of_toNat (b := x) (by omega), toUInt8_eq_of_toNat (b := y) (by omega),
      List.cons_append, List.cons_append, List.singleton_append]
  · obtain ⟨x, xs, rfl, hx1, hx2, hc⟩ := continuation_eq_some hc
    obtain ⟨y, ys, rfl, hy1, hy2, hc⟩ := continuation_eq_some hc
    obtain ⟨z, zs, rfl, hz1, hz2, hc⟩ := continuation_eq_some hc
    simp only [continuation, Prod.mk.injEq, Option.some.injEq] at hc
    obtain ⟨rfl, rfl⟩ := hc
    rw [toNat_ofNat_of_isScalar (by unfold IsScalar; omega), encodeCode, if_neg (by omega),
      if_neg (by omega), if_neg (by omega), toUInt8_eq_of_toNat (b := b) (by omega),
      toUInt8_eq_of_toNat (b := x) (by omega), toUInt8_eq_of_toNat (b := y) (by omega),
      toUInt8_eq_of_toNat (b := z) (by omega),
      List.cons_append, List.cons_append, List.cons_append, List.singleton_append]

/-- Only the bytes of a text are read as that text. -/
theorem encode_of_decode {bs : Bytes} {t : Text} (h : decode bs = some t) : encode t = bs := by
  fun_induction decode bs generalizing t with
  | case1 => simp at h; subst h; rfl
  | case2 => simp at h
  | case3 b rest c rest' hn ih =>
    simp at h
    obtain ⟨u, hu, rfl⟩ := h
    rw [encode_cons, ih hu, eq_encodeCode_of_next hn]

theorem decode_eq_some_iff {bs : Bytes} {t : Text} : decode bs = some t ↔ bs = encode t :=
  ⟨fun h => (encode_of_decode h).symm, fun h => h ▸ decode_encode t⟩

theorem encode_injective {s t : Text} (h : encode s = encode t) : s = t := by
  have hs := decode_encode s
  rw [h, decode_encode] at hs
  exact (Option.some.inj hs).symm

/-- A text of one character that replaces nothing is its bytes. -/
theorem eq_encode_of_decodeLossy {bs : Bytes} {c : Char} (hc : c ≠ replacement)
    (h : decodeLossy bs = [c]) : bs = encode [c] := by
  cases bs with
  | nil => simp [decodeLossy] at h
  | cons b rest =>
    rw [decodeLossy] at h
    split at h
    next found rest' hnext =>
    obtain ⟨hfirst, hrest⟩ := List.cons.inj h
    have hempty : rest' = [] := by
      cases rest' with
      | nil => rfl
      | cons b' rest' =>
        rw [decodeLossy] at hrest
        split at hrest
        cases hrest
    cases found with
    | none => exact absurd hfirst.symm hc
    | some c' =>
      obtain rfl : c' = c := hfirst
      rw [eq_encodeCode_of_next hnext, hempty, encode_cons]
      rfl

/-! ## Section 4: ASCII -/

/-- A byte of the lower half is a character by itself. -/
theorem eq_toNat_of_mem_encodeCode {n : Nat} {b : UInt8} (hs : IsScalar n) (hb : b.toNat < 0x80)
    (h : b ∈ encodeCode n) : n = b.toNat := by
  unfold IsScalar at hs
  have hupper : ∀ k, 0x80 ≤ k → k < 256 → b ≠ k.toUInt8 := by
    rintro k hk hlt rfl
    rw [toNat_toUInt8_of_lt hlt] at hb
    omega
  unfold encodeCode at h
  split at h
  · -- The form of one byte; all bytes of a longer one are of the upper half.
    rw [List.mem_singleton] at h
    rw [h, toNat_toUInt8_of_lt (by omega)]
  · repeat' split at h
    all_goals
      simp only [List.mem_cons, List.not_mem_nil, or_false] at h
      exfalso
    · rcases h with h | h
      · exact hupper _ (by omega) (by omega) h
      · exact hupper _ (by omega) (by omega) h
    · rcases h with h | h | h
      · exact hupper _ (by omega) (by omega) h
      · exact hupper _ (by omega) (by omega) h
      · exact hupper _ (by omega) (by omega) h
    · rcases h with h | h | h | h
      · exact hupper _ (by omega) (by omega) h
      · exact hupper _ (by omega) (by omega) h
      · exact hupper _ (by omega) (by omega) h
      · exact hupper _ (by omega) (by omega) h

theorem exists_mem_of_mem_encode {t : Text} {b : UInt8} (hb : b.toNat < 0x80) (h : b ∈ encode t) :
    ∃ c ∈ t, c.toNat = b.toNat := by
  obtain ⟨c, hc, hmem⟩ := List.mem_flatMap.1 h
  exact ⟨c, hc, eq_toNat_of_mem_encodeCode (isScalar_toNat c) hb hmem⟩

theorem mem_of_mem_continuation {n low high value : Nat} {bs : Bytes} {b : UInt8}
    (h : b ∈ (continuation n low high value bs).2) : b ∈ bs := by
  induction n generalizing low high value bs with
  | zero => exact h
  | succ n ih =>
    cases bs with
    | nil => exact h
    | cons c bs =>
      rw [continuation] at h
      split at h
      · exact List.mem_cons_of_mem _ (ih h)
      · exact h

theorem mem_of_mem_next {b c : UInt8} {rest : Bytes} (h : c ∈ (next b rest).2) : c ∈ rest := by
  unfold next at h
  split at h
  · exact h
  · exact mem_of_mem_continuation h

/-- No ASCII character is made up by a reading that accepts everything. -/
theorem mem_of_mem_decodeLossy {bs : Bytes} {c : Char} (hc : c.toNat < 0x80)
    (h : c ∈ decodeLossy bs) : c.toNat.toUInt8 ∈ bs := by
  fun_induction decodeLossy bs with
  | case1 => exact absurd h List.not_mem_nil
  | case2 b rest d rest' hnext ih =>
    rcases List.mem_cons.1 h with hd | hlater
    · cases d with
      | none =>
        subst hd
        exact absurd hc (by decide)
      | some d =>
        obtain rfl : c = d := hd
        rw [eq_encodeCode_of_next hnext]
        refine List.mem_append_left _ ?_
        rw [encodeCode, if_pos hc]
        exact List.mem_singleton_self _
    · have hmem := ih hlater
      have hrest' : rest' = (next b rest).2 := by rw [hnext]
      rw [hrest'] at hmem
      exact List.mem_cons_of_mem _ (mem_of_mem_next hmem)

theorem low_of_lead? {n : Nat} {l : Lead} (h : lead? n = some l) : 0x80 ≤ l.low := by
  unfold lead? at h
  repeat' split at h
  all_goals cases h <;> simp

/-- A byte of the lower half continues nothing, so it is left for later. -/
theorem continuation_append {n low high value : Nat} {b : UInt8} (hb : b.toNat < 0x80)
    (hlow : 0x80 ≤ low) (bs after : Bytes) :
    continuation n low high value (bs ++ b :: after) =
      ((continuation n low high value bs).1,
        (continuation n low high value bs).2 ++ b :: after) := by
  induction n generalizing low high value bs with
  | zero => rfl
  | succ n ih =>
    cases bs with
    | nil =>
      have hout : ¬ (low ≤ b.toNat ∧ b.toNat ≤ high) := by omega
      simp [continuation, hout]
    | cons c bs =>
      rw [List.cons_append, continuation, continuation]
      split
      · apply ih
        decide
      · rfl

theorem next_append {b : UInt8} (hb : b.toNat < 0x80) (c : UInt8) (bs after : Bytes) :
    next c (bs ++ b :: after) = ((next c bs).1, (next c bs).2 ++ b :: after) := by
  unfold next
  cases hlead : lead? c.toNat with
  | none => rfl
  | some l =>
    dsimp only
    rw [continuation_append hb (low_of_lead? hlead)]

/-- Before a byte of the lower half every reading comes to an end. -/
theorem decodeLossy_append {b : UInt8} (hb : b.toNat < 0x80) (bs after : Bytes) :
    decodeLossy (bs ++ b :: after) = decodeLossy bs ++ decodeLossy (b :: after) := by
  fun_induction decodeLossy bs with
  | case1 => rfl
  | case2 c bs d rest hnext ih =>
    have hafter : next c (bs ++ b :: after) = (d, rest ++ b :: after) := by
      rw [next_append hb, hnext]
    rw [List.cons_append, decodeLossy, List.cons_append]
    split
    next d' rest' hnext' =>
    rw [hafter] at hnext'
    obtain ⟨rfl, rfl⟩ := Prod.mk.inj hnext'
    rw [ih]

end Utf8
end ScriptDeps
