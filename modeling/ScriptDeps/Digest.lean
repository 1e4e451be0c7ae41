import ScriptDeps.Text.Hex

/-! # SHA-256

    The digest that names store entries and tells scripts apart.  The message
    is padded to whole blocks of sixty-four bytes; each block is spread over
    sixty-four words and folded into eight words of state. -/

namespace ScriptDeps
namespace Digest

/-! ## Section 1: Words -/

/-- Rotates a word to the right by `n` places, `0 < n < 32`. -/
def rotate (x : UInt32) (n : UInt32) : UInt32 :=
  (x >>> n) ||| (x <<< (32 - n))

/-- The first thirty-two bits of the fractional parts of the cube roots of
    the first sixty-four primes. -/
def roundConstants : List UInt32 :=
  [0x428a2f98, 0x71374491, 0xb5c0fbcf, 0xe9b5dba5, 0x3956c25b, 0x59f111f1, 0x923f82a4, 0xab1c5ed5,
   0xd807aa98, 0x12835b01, 0x243185be, 0x550c7dc3, 0x72be5d74, 0x80deb1fe, 0x9bdc06a7, 0xc19bf174,
   0xe49b69c1, 0xefbe4786, 0x0fc19dc6, 0x240ca1cc, 0x2de92c6f, 0x4a7484aa, 0x5cb0a9dc, 0x76f988da,
   0x983e5152, 0xa831c66d, 0xb00327c8, 0xbf597fc7, 0xc6e00bf3, 0xd5a79147, 0x06ca6351, 0x14292967,
   0x27b70a85, 0x2e1b2138, 0x4d2c6dfc, 0x53380d13, 0x650a7354, 0x766a0abb, 0x81c2c92e, 0x92722c85,
   0xa2bfe8a1, 0xa81a664b, 0xc24b8b70, 0xc76c51a3, 0xd192e819, 0xd6990624, 0xf40e3585, 0x106aa070,
   0x19a4c116, 0x1e376c08, 0x2748774c, 0x34b0bcb5, 0x391c0cb3, 0x4ed8aa4a, 0x5b9cca4f, 0x682e6ff3,
   0x748f82ee, 0x78a5636f, 0x84c87814, 0x8cc70208, 0x90befffa, 0xa4506ceb, 0xbef9a3f7, 0xc67178f2]

/-- The eight words of state. -/
structure State where
  a : UInt32
  b : UInt32
  c : UInt32
  d : UInt32
  e : UInt32
  f : UInt32
  g : UInt32
  h : UInt32

/-- The state before the first block: square roots of the first eight primes. -/
def State.initial : State :=
  ⟨0x6a09e667, 0xbb67ae85, 0x3c6ef372, 0xa54ff53a, 0x510e527f, 0x9b05688c, 0x1f83d9ab, 0x5be0cd19⟩

/-- Adds two states word by word. -/
def State.add (s t : State) : State :=
  ⟨s.a + t.a, s.b + t.b, s.c + t.c, s.d + t.d, s.e + t.e, s.f + t.f, s.g + t.g, s.h + t.h⟩

/-- The words of a state in order. -/
def State.words (s : State) : List UInt32 :=
  [s.a, s.b, s.c, s.d, s.e, s.f, s.g, s.h]

/-! ## Section 2: Blocks -/

/-- The word that four bytes make, the first the highest. -/
def wordOf (w x y z : UInt8) : UInt32 :=
  (w.toUInt32 <<< 24) ||| (x.toUInt32 <<< 16) ||| (y.toUInt32 <<< 8) ||| z.toUInt32

/-- The four bytes of a word. -/
def bytesOf (w : UInt32) : Bytes :=
  [(w >>> 24).toUInt8, (w >>> 16).toUInt8, (w >>> 8).toUInt8, w.toUInt8]

/-- The whole words in a list of bytes. -/
def wordsOf : Bytes → List UInt32
  | w :: x :: y :: z :: rest => wordOf w x y z :: wordsOf rest
  | _ => []

/-- The next word of the schedule from the sixteen before it. -/
def nextWord (last16 : Array UInt32) (i : Nat) : UInt32 :=
  let w2 := last16.getD (i - 2) 0
  let w15 := last16.getD (i - 15) 0
  let s1 := rotate w2 17 ^^^ rotate w2 19 ^^^ (w2 >>> 10)
  let s0 := rotate w15 7 ^^^ rotate w15 18 ^^^ (w15 >>> 3)
  s1 + last16.getD (i - 7) 0 + s0 + last16.getD (i - 16) 0

/-- The sixty-four words that a block of sixteen is spread over. -/
def schedule (block : List UInt32) : List UInt32 :=
  ((List.range 48).foldl (fun ws i => ws.push (nextWord ws (i + 16))) block.toArray).toList

/-- One round with its word and its constant. -/
def round (s : State) (wk : UInt32 × UInt32) : State :=
  let s1 := rotate s.e 6 ^^^ rotate s.e 11 ^^^ rotate s.e 25
  let ch := (s.e &&& s.f) ^^^ (~~~ s.e &&& s.g)
  let t1 := s.h + s1 + ch + wk.2 + wk.1
  let s0 := rotate s.a 2 ^^^ rotate s.a 13 ^^^ rotate s.a 22
  let maj := (s.a &&& s.b) ^^^ (s.a &&& s.c) ^^^ (s.b &&& s.c)
  -- Every word moves one place on; the first and the fifth are new.
  ⟨t1 + (s0 + maj), s.a, s.b, s.c, s.d + t1, s.e, s.f, s.g⟩

/-- Folds one block into the state. -/
def compress (s : State) (block : List UInt32) : State :=
  s.add (((schedule block).zip roundConstants).foldl round s)

/-- Cuts a list of words into blocks of sixteen. -/
def blocks (ws : List UInt32) : List (List UInt32) :=
  if _h : ws.length < 16 then []
  else ws.take 16 :: blocks (ws.drop 16)
termination_by ws.length
decreasing_by simp; omega

/-- The bytes that make a message of `n` bytes whole blocks: a one bit, zeros,
    and the length in bits as sixty-four bits. -/
def padding (n : Nat) : Bytes :=
  -- The message, one byte, the zeros and eight bytes fill the last block.
  let zeros := (119 - n % 64) % 64
  let bits := 8 * n
  (0x80 : UInt8) :: List.replicate zeros 0 ++
    (List.range 8).map fun i => (bits / Nat.pow 256 (7 - i)).toUInt8

end Digest

/-- The thirty-two bytes of the SHA-256 digest of `message`. -/
def sha256 (message : Bytes) : Bytes :=
  let ws := Digest.wordsOf (message ++ Digest.padding message.length)
  ((Digest.blocks ws).foldl Digest.compress Digest.State.initial).words.flatMap Digest.bytesOf

/-- The digest as sixty-four hexadecimal digits. -/
def sha256Hex (message : Bytes) : Text :=
  Hex.ofBytes (sha256 message)

end ScriptDeps
