import ScriptDeps.Text.Blank

/-! # UTF-8

    Text as bytes and back.  `decode` accepts exactly the shortest forms of
    Unicode scalar values; `decodeLossy` accepts everything and writes one
    replacement character for each longest beginning of a form that its next
    byte does not continue. -/

namespace ScriptDeps
namespace Utf8

/-! ## Section 1: Writing -/

/-- The bytes of the code point `n`. -/
def encodeCode (n : Nat) : Bytes :=
  if n < 0x80 then [n.toUInt8]
  else if n < 0x800 then [(0xC0 + n / 64).toUInt8, (0x80 + n % 64).toUInt8]
  else if n < 0x10000 then
    [(0xE0 + n / 4096).toUInt8, (0x80 + n / 64 % 64).toUInt8, (0x80 + n % 64).toUInt8]
  else
    [(0xF0 + n / 262144).toUInt8, (0x80 + n / 4096 % 64).toUInt8,
     (0x80 + n / 64 % 64).toUInt8, (0x80 + n % 64).toUInt8]

/-- The bytes of a text. -/
def encode (t : Text) : Bytes :=
  t.flatMap fun c => encodeCode c.toNat

@[simp] theorem encode_nil : encode [] = [] := rfl

@[simp] theorem encode_append (s t : Text) : encode (s ++ t) = encode s ++ encode t := by
  simp [encode]

/-! ## Section 2: Reading one character -/

/-- The first byte of a form fixes how many bytes follow, the range of the
    first of them, and the value it contributes itself. -/
structure Lead where
  follow : Nat
  low    : Nat
  high   : Nat
  value  : Nat

/-- The leads, by first byte.  The narrowed ranges after E0, ED, F0 and F4
    keep out overlong forms, surrogates and values above 10FFFF. -/
def lead? (b : Nat) : Option Lead :=
  if b < 0x80 then some ⟨0, 0x80, 0xBF, b⟩
  else if b < 0xC2 then none
  else if b < 0xE0 then some ⟨1, 0x80, 0xBF, b - 0xC0⟩
  else if b = 0xE0 then some ⟨2, 0xA0, 0xBF, 0⟩
  else if b = 0xED then some ⟨2, 0x80, 0x9F, 13⟩
  else if b < 0xF0 then some ⟨2, 0x80, 0xBF, b - 0xE0⟩
  else if b = 0xF0 then some ⟨3, 0x90, 0xBF, 0⟩
  else if b < 0xF4 then some ⟨3, 0x80, 0xBF, b - 0xF0⟩
  else if b = 0xF4 then some ⟨3, 0x80, 0x8F, 4⟩
  else none

/-- Reads `n` further bytes, the first of them between `low` and `high`: the
    value, if all are there, and the bytes left over. -/
def continuation : Nat → Nat → Nat → Nat → Bytes → Option Nat × Bytes
  | 0, _, _, value, rest => (some value, rest)
  | _ + 1, _, _, _, [] => (none, [])
  | n + 1, low, high, value, b :: rest =>
      if low ≤ b.toNat ∧ b.toNat ≤ high then
        continuation n 0x80 0xBF (value * 64 + (b.toNat - 0x80)) rest
      -- The byte that does not fit may begin the next form, so it is left.
      else (none, b :: rest)

theorem continuation_length (n low high value : Nat) (bs : Bytes) :
    (continuation n low high value bs).2.length ≤ bs.length := by
  induction n generalizing low high value bs with
  | zero => simp [continuation]
  | succ n ih =>
    cases bs with
    | nil => simp [continuation]
    | cons b bs =>
      rw [continuation]
      split
      · exact Nat.le_succ_of_le (ih ..)
      · simp

/-- The first character of `b :: rest`, or none if it does not begin a form,
    and the bytes after what was read. -/
def next (b : UInt8) (rest : Bytes) : Option Char × Bytes :=
  match lead? b.toNat with
  | none => (none, rest)
  | some l =>
      let (value, rest) := continuation l.follow l.low l.high l.value rest
      (value.map Char.ofNat, rest)

theorem next_length (b : UInt8) (rest : Bytes) : (next b rest).2.length ≤ rest.length := by
  unfold next
  split
  · simp
  · simpa using continuation_length ..

/-! ## Section 3: Reading a text -/

/-- The text that `bs` are the bytes of, if they are those of a text. -/
def decode (bs : Bytes) : Option Text :=
  match bs with
  | [] => some []
  | b :: rest =>
      match _h : next b rest with
      | (none, _) => none
      | (some c, rest') => (decode rest').map (c :: ·)
termination_by bs.length
decreasing_by
  have hlen := next_length b rest
  rw [_h] at hlen
  exact Nat.lt_succ_of_le hlen

/-- What stands for bytes that are not text. -/
def replacement : Char := '\uFFFD'

/-- The text of `bs`, with a replacement character for each faulty piece. -/
def decodeLossy (bs : Bytes) : Text :=
  match bs with
  | [] => []
  | b :: rest =>
      match _h : next b rest with
      | (c, rest') => c.getD replacement :: decodeLossy rest'
termination_by bs.length
decreasing_by
  have hlen := next_length b rest
  rw [_h] at hlen
  exact Nat.lt_succ_of_le hlen

/-- Where the bytes are those of a text, the two readings agree. -/
theorem decodeLossy_of_decode {bs : Bytes} {t : Text} (h : decode bs = some t) :
    decodeLossy bs = t := by
  fun_induction decode bs generalizing t with
  | case1 => simp at h; subst h; simp [decodeLossy]
  | case2 => simp at h
  | case3 b rest c rest' hn ih =>
    simp at h
    obtain ⟨u, hu, rfl⟩ := h
    rw [decodeLossy]
    split
    next c' r' hn' =>
      rw [hn] at hn'
      simp at hn'
      obtain ⟨rfl, rfl⟩ := hn'
      simp [ih hu]

end Utf8
end ScriptDeps
