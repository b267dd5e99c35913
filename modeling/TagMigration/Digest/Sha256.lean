/-
The SHA-256 digest of bytes, by which reports say which content a file held before and
after a pass. The message is padded to whole blocks of sixty-four bytes; each block is
expanded to sixty-four words and stirred into a state of eight words, one word a round.
-/

namespace TagMigration.Sha256

/-! ### Constants -/

/-- One constant for each of the sixty-four rounds. -/
def roundWords : List UInt32 :=
  [0x428a2f98, 0x71374491, 0xb5c0fbcf, 0xe9b5dba5, 0x3956c25b, 0x59f111f1, 0x923f82a4, 0xab1c5ed5,
    0xd807aa98, 0x12835b01, 0x243185be, 0x550c7dc3, 0x72be5d74, 0x80deb1fe, 0x9bdc06a7, 0xc19bf174,
    0xe49b69c1, 0xefbe4786, 0x0fc19dc6, 0x240ca1cc, 0x2de92c6f, 0x4a7484aa, 0x5cb0a9dc, 0x76f988da,
    0x983e5152, 0xa831c66d, 0xb00327c8, 0xbf597fc7, 0xc6e00bf3, 0xd5a79147, 0x06ca6351, 0x14292967,
    0x27b70a85, 0x2e1b2138, 0x4d2c6dfc, 0x53380d13, 0x650a7354, 0x766a0abb, 0x81c2c92e, 0x92722c85,
    0xa2bfe8a1, 0xa81a664b, 0xc24b8b70, 0xc76c51a3, 0xd192e819, 0xd6990624, 0xf40e3585, 0x106aa070,
    0x19a4c116, 0x1e376c08, 0x2748774c, 0x34b0bcb5, 0x391c0cb3, 0x4ed8aa4a, 0x5b9cca4f, 0x682e6ff3,
    0x748f82ee, 0x78a5636f, 0x84c87814, 0x8cc70208, 0x90befffa, 0xa4506ceb, 0xbef9a3f7, 0xc67178f2]

/-! ### Words -/

/-- A word turned to the right. -/
def rotate (word : UInt32) (count : UInt32) : UInt32 :=
  (word >>> count) ||| (word <<< (32 - count))

/-- Mixes a word of the schedule that lies fifteen places back. -/
def mixNear (word : UInt32) : UInt32 :=
  rotate word 7 ^^^ rotate word 18 ^^^ (word >>> 3)

/-- Mixes a word of the schedule that lies two places back. -/
def mixFar (word : UInt32) : UInt32 :=
  rotate word 17 ^^^ rotate word 19 ^^^ (word >>> 10)

/-- The word of four bytes, the first one highest. -/
def wordOfBytes (a b c d : UInt8) : UInt32 :=
  (a.toUInt32 <<< 24) ||| (b.toUInt32 <<< 16) ||| (c.toUInt32 <<< 8) ||| d.toUInt32

/-- The words of a list of bytes. -/
def wordsOfBytes : List UInt8 → List UInt32
  | a :: b :: c :: d :: rest => wordOfBytes a b c d :: wordsOfBytes rest
  | _ => []

/-! ### Blocks -/

/-- The eight bytes of a number, the highest first. -/
def lengthBytes (bits : Nat) : List UInt8 :=
  [56, 48, 40, 32, 24, 16, 8, 0].map fun shift => UInt8.ofNat (bits >>> shift)

/-- The message with a one bit, zeros and its length in bits, to a multiple of sixty-four bytes. -/
def pad (message : List UInt8) : List UInt8 :=
  let zeros := (119 - message.length % 64) % 64
  message ++ 0x80 :: List.replicate zeros 0 ++ lengthBytes (8 * message.length)

/-- A list cut into pieces of sixteen; an incomplete piece at the end is dropped. -/
def blocks : Nat → List UInt32 → List (List UInt32)
  | 0, _ => []
  | count + 1, words => words.take 16 :: blocks count (words.drop 16)

/-- Extends the schedule by one word. -/
def extend (schedule : Array UInt32) (index : Nat) : Array UInt32 :=
  schedule.push (mixFar (schedule.getD (index + 14) 0) + schedule.getD (index + 9) 0 +
    mixNear (schedule.getD (index + 1) 0) + schedule.getD index 0)

/-- The sixty-four words of a block. -/
def schedule (block : List UInt32) : List UInt32 :=
  ((List.range 48).foldl extend block.toArray).toList

/-! ### The state -/

/-- The eight words that are stirred. -/
structure State where
  a : UInt32
  b : UInt32
  c : UInt32
  d : UInt32
  e : UInt32
  f : UInt32
  g : UInt32
  h : UInt32
deriving DecidableEq, Repr

/-- One round. -/
def State.round (state : State) (constant word : UInt32) : State :=
  let choice := (state.e &&& state.f) ^^^ (~~~state.e &&& state.g)
  let majority := (state.a &&& state.b) ^^^ (state.a &&& state.c) ^^^ (state.b &&& state.c)
  let stirE := rotate state.e 6 ^^^ rotate state.e 11 ^^^ rotate state.e 25
  let stirA := rotate state.a 2 ^^^ rotate state.a 13 ^^^ rotate state.a 22
  let first := state.h + stirE + choice + constant + word
  let second := stirA + majority
  ⟨first + second, state.a, state.b, state.c, state.d + first, state.e, state.f, state.g⟩

/-- The sum of two states, word by word. -/
def State.add (first second : State) : State :=
  ⟨first.a + second.a, first.b + second.b, first.c + second.c, first.d + second.d,
    first.e + second.e, first.f + second.f, first.g + second.g, first.h + second.h⟩

/-- The words of a state. -/
def State.words (state : State) : List UInt32 :=
  [state.a, state.b, state.c, state.d, state.e, state.f, state.g, state.h]

/-- The state before the first block. -/
def initial : State :=
  ⟨0x6a09e667, 0xbb67ae85, 0x3c6ef372, 0xa54ff53a, 0x510e527f, 0x9b05688c, 0x1f83d9ab,
    0x5be0cd19⟩

/-- Stirs a block into the state. -/
def absorb (state : State) (block : List UInt32) : State :=
  let rounds := roundWords.zip (schedule block)
  state.add (rounds.foldl (fun state (constant, word) => state.round constant word) state)

/-- The state after a message. -/
def digest (message : ByteArray) : State :=
  let words := wordsOfBytes (pad message.toList)
  (blocks (words.length / 16) words).foldl absorb initial

/-! ### Digests as text -/

/-- The lower-case hexadecimal digits of a number, `count` of them. -/
def hexDigits : Nat → Nat → List Char
  | 0, _ => []
  | count + 1, value => hexDigits count (value / 16) ++ [Nat.digitChar (value % 16)]

/-- The digest of a message in hexadecimal digits. -/
def hex (message : ByteArray) : String :=
  String.ofList ((digest message).words.flatMap fun word => hexDigits 8 word.toNat)

end TagMigration.Sha256
