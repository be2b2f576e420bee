/-!
# The digest of a text

SHA-256, and the class names made from it.  A message is padded to a whole
number of 64-byte blocks: a one bit, zeros, and the length in bits as a 64-bit
word.  Each block is expanded to 64 words, and the eight words of the state are
mixed with each of them in turn.  All words have 32 bits and wrap.

A class name is a prefix, a hyphen and the first eight digits of the digest of
the text the class stands for.  The same prefix and text always give the same
name, so a name can be computed wherever it is needed.
-/

namespace StaticStyle.Digest

/-! ## Constants -/

/-- The fractional parts of the cube roots of the first 64 primes. -/
def roundConstants : List UInt32 :=
  [0x428a2f98, 0x71374491, 0xb5c0fbcf, 0xe9b5dba5, 0x3956c25b, 0x59f111f1, 0x923f82a4, 0xab1c5ed5,
   0xd807aa98, 0x12835b01, 0x243185be, 0x550c7dc3, 0x72be5d74, 0x80deb1fe, 0x9bdc06a7, 0xc19bf174,
   0xe49b69c1, 0xefbe4786, 0x0fc19dc6, 0x240ca1cc, 0x2de92c6f, 0x4a7484aa, 0x5cb0a9dc, 0x76f988da,
   0x983e5152, 0xa831c66d, 0xb00327c8, 0xbf597fc7, 0xc6e00bf3, 0xd5a79147, 0x06ca6351, 0x14292967,
   0x27b70a85, 0x2e1b2138, 0x4d2c6dfc, 0x53380d13, 0x650a7354, 0x766a0abb, 0x81c2c92e, 0x92722c85,
   0xa2bfe8a1, 0xa81a664b, 0xc24b8b70, 0xc76c51a3, 0xd192e819, 0xd6990624, 0xf40e3585, 0x106aa070,
   0x19a4c116, 0x1e376c08, 0x2748774c, 0x34b0bcb5, 0x391c0cb3, 0x4ed8aa4a, 0x5b9cca4f, 0x682e6ff3,
   0x748f82ee, 0x78a5636f, 0x84c87814, 0x8cc70208, 0x90befffa, 0xa4506ceb, 0xbef9a3f7, 0xc67178f2]

/-- The eight words of the state. -/
structure State where
  a : UInt32
  b : UInt32
  c : UInt32
  d : UInt32
  e : UInt32
  f : UInt32
  g : UInt32
  h : UInt32
deriving DecidableEq, Repr

/-- The fractional parts of the square roots of the first eight primes. -/
def State.initial : State :=
  ⟨0x6a09e667, 0xbb67ae85, 0x3c6ef372, 0xa54ff53a,
   0x510e527f, 0x9b05688c, 0x1f83d9ab, 0x5be0cd19⟩

/-! ## Padding -/

/-- A natural as `count` bytes, the most significant one first. -/
def bytesOf : (count : Nat) → Nat → List UInt8
  | 0, _ => []
  | count + 1, n => (n >>> (8 * count)).toUInt8 :: bytesOf count n
termination_by structural count => count

/-- The bytes that complete a message of a given length to whole blocks. -/
def padding (length : Nat) : List UInt8 :=
  0x80 :: List.replicate ((119 - length % 64) % 64) 0 ++ bytesOf 8 (8 * length)

/-- Four bytes as a word. -/
def wordOf (a b c d : UInt8) : UInt32 :=
  a.toUInt32 <<< 24 ||| b.toUInt32 <<< 16 ||| c.toUInt32 <<< 8 ||| d.toUInt32

/-- The words of a list of bytes. -/
def words : List UInt8 → List UInt32
  | a :: b :: c :: d :: rest => wordOf a b c d :: words rest
  | _ => []

/-! ## Compression -/

/-- A word rotated to the right. -/
def rotate (x : UInt32) (n : UInt32) : UInt32 := x >>> n ||| x <<< (32 - n)

/-- The next word of the expansion, from the last sixteen, latest first. -/
def nextWord (recent : List UInt32) : UInt32 :=
  let w (i : Nat) := recent.getD (i - 1) 0
  let s0 := rotate (w 15) 7 ^^^ rotate (w 15) 18 ^^^ w 15 >>> 3
  let s1 := rotate (w 2) 17 ^^^ rotate (w 2) 19 ^^^ w 2 >>> 10
  w 16 + s0 + w 7 + s1

/-- Extends a list of words, latest first, by `count` words. -/
def expand : (count : Nat) → List UInt32 → List UInt32
  | 0, recent => recent
  | count + 1, recent => expand count (nextWord recent :: recent)
termination_by structural count => count

/-- Mixes one word and its round constant into the state. -/
def State.mix (s : State) (word constant : UInt32) : State :=
  let s1 := rotate s.e 6 ^^^ rotate s.e 11 ^^^ rotate s.e 25
  let choice := (s.e &&& s.f) ^^^ (~~~ s.e &&& s.g)
  let t1 := s.h + s1 + choice + constant + word
  let s0 := rotate s.a 2 ^^^ rotate s.a 13 ^^^ rotate s.a 22
  let majority := (s.a &&& s.b) ^^^ (s.a &&& s.c) ^^^ (s.b &&& s.c)
  ⟨t1 + s0 + majority, s.a, s.b, s.c, s.d + t1, s.e, s.f, s.g⟩

/-- The sum of two states, word by word. -/
def State.add (s t : State) : State :=
  ⟨s.a + t.a, s.b + t.b, s.c + t.c, s.d + t.d, s.e + t.e, s.f + t.f, s.g + t.g, s.h + t.h⟩

/-- The state after a block of sixteen words. -/
def State.absorb (s : State) (block : List UInt32) : State :=
  let schedule := (expand 48 block.reverse).reverse
  s.add ((schedule.zip roundConstants).foldl (fun t x => t.mix x.1 x.2) s)

/-- The state after `count` blocks. -/
def State.absorbAll : (count : Nat) → State → List UInt32 → State
  | 0, s, _ => s
  | count + 1, s, ws => absorbAll count (s.absorb (ws.take 16)) (ws.drop 16)
termination_by structural count => count

/-- The words of the state in order. -/
def State.toList (s : State) : List UInt32 := [s.a, s.b, s.c, s.d, s.e, s.f, s.g, s.h]

/-! ## Digests and class names -/

/-- The SHA-256 digest of a message. -/
def digest (message : List UInt8) : List UInt32 :=
  let ws := words (message ++ padding message.length)
  (State.initial.absorbAll (ws.length / 16) ws).toList

/-- A natural as `count` hexadecimal digits. -/
def hexDigits : (count : Nat) → Nat → List Char
  | 0, _ => []
  | count + 1, n => Nat.digitChar (n >>> (4 * count) % 16) :: hexDigits count n
termination_by structural count => count

/-- The first eight hexadecimal digits of the digest of a text. -/
def fingerprint (text : String) : List Char :=
  hexDigits 8 ((digest text.toUTF8.toList).headD 0).toNat

/-- The class name of a text under a prefix. -/
def className (namePrefix text : String) : String :=
  namePrefix ++ "-" ++ String.ofList (fingerprint text)

theorem length_hexDigits (count n : Nat) : (hexDigits count n).length = count := by
  induction count with
  | zero => rfl
  | succ count ih => simp [hexDigits, ih]

theorem length_fingerprint (text : String) : (fingerprint text).length = 8 :=
  length_hexDigits 8 _

end StaticStyle.Digest
