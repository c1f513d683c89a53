import SealedGraph.Hash.Word

/-!
# SHA-256 and HMAC-SHA256

Only the choice of the secret number of a signature needs them.  The message
schedule is a window of 16 words that moves one word per round.
-/

namespace SealedGraph.Sha256

/-- The chaining state. -/
structure State where
  (a b c d e f g h : UInt32)

/-- The state before the first block. -/
def State.initial : State :=
  ⟨0x6a09e667, 0xbb67ae85, 0x3c6ef372, 0xa54ff53a, 0x510e527f, 0x9b05688c,
    0x1f83d9ab, 0x5be0cd19⟩

/-- The constants of the 64 rounds. -/
def constants : List UInt32 :=
  [0x428a2f98, 0x71374491, 0xb5c0fbcf, 0xe9b5dba5, 0x3956c25b, 0x59f111f1,
    0x923f82a4, 0xab1c5ed5, 0xd807aa98, 0x12835b01, 0x243185be, 0x550c7dc3,
    0x72be5d74, 0x80deb1fe, 0x9bdc06a7, 0xc19bf174, 0xe49b69c1, 0xefbe4786,
    0x0fc19dc6, 0x240ca1cc, 0x2de92c6f, 0x4a7484aa, 0x5cb0a9dc, 0x76f988da,
    0x983e5152, 0xa831c66d, 0xb00327c8, 0xbf597fc7, 0xc6e00bf3, 0xd5a79147,
    0x06ca6351, 0x14292967, 0x27b70a85, 0x2e1b2138, 0x4d2c6dfc, 0x53380d13,
    0x650a7354, 0x766a0abb, 0x81c2c92e, 0x92722c85, 0xa2bfe8a1, 0xa81a664b,
    0xc24b8b70, 0xc76c51a3, 0xd192e819, 0xd6990624, 0xf40e3585, 0x106aa070,
    0x19a4c116, 0x1e376c08, 0x2748774c, 0x34b0bcb5, 0x391c0cb3, 0x4ed8aa4a,
    0x5b9cca4f, 0x682e6ff3, 0x748f82ee, 0x78a5636f, 0x84c87814, 0x8cc70208,
    0x90befffa, 0xa4506ceb, 0xbef9a3f7, 0xc67178f2]

/-- Rotates a word to the right by a number of bits between 1 and 31. -/
@[inline] def turn (word amount : UInt32) : UInt32 :=
  (word >>> amount) ||| (word <<< (32 - amount))

/-- One round with its constant and its schedule word. -/
def State.round (s : State) (constant word : UInt32) : State :=
  let choice := (s.e &&& s.f) ^^^ (~~~s.e &&& s.g)
  let majority := (s.a &&& s.b) ^^^ (s.a &&& s.c) ^^^ (s.b &&& s.c)
  let first :=
    s.h + (turn s.e 6 ^^^ turn s.e 11 ^^^ turn s.e 25) + choice +
      constant + word
  let second := (turn s.a 2 ^^^ turn s.a 13 ^^^ turn s.a 22) + majority
  ⟨first + second, s.a, s.b, s.c, s.d + first, s.e, s.f, s.g⟩

/-- The schedule word that follows a window of sixteen. -/
def nextWord (window : List UInt32) : UInt32 :=
  let early := window.getD 1 0
  let late := window.getD 14 0
  window.getD 0 0 + (turn early 7 ^^^ turn early 18 ^^^ (early >>> 3)) +
    window.getD 9 0 +
    (turn late 17 ^^^ turn late 19 ^^^ (late >>> 10))

/-- The rounds with the given constants, beside the moving window. -/
def State.rounds : List UInt32 → List UInt32 → State → State
  | [], _, s => s
  | constant :: rest, window, s =>
      State.rounds rest (window.drop 1 ++ [nextWord window])
        (s.round constant (window.headD 0))

/-- Bytes as words of four, most significant byte first. -/
def wordsOf : Bytes → List UInt32
  | b0 :: b1 :: b2 :: b3 :: rest =>
      ((b0.toUInt32 <<< 24) ||| (b1.toUInt32 <<< 16) ||| (b2.toUInt32 <<< 8) |||
        b3.toUInt32) ::
        wordsOf rest
  | _ => []

/-- Takes in one block of sixteen words. -/
def State.compress (s : State) (block : List UInt32) : State :=
  let t := State.rounds constants block s
  ⟨s.a + t.a, s.b + t.b, s.c + t.c, s.d + t.d, s.e + t.e, s.f + t.f, s.g + t.g,
    s.h + t.h⟩

/-- Takes in `count` blocks. -/
def State.absorb : (count : Nat) → List UInt32 → State → State
  | 0, _, s => s
  | count + 1, words, s =>
      State.absorb count (words.drop 16) (s.compress (words.take 16))

/-- Fills a message up to whole blocks of 64 bytes, its length in bits last. -/
def pad (message : Bytes) : Bytes :=
  message ++ 0x80 :: (List.replicate ((119 - message.length % 64) % 64) 0 ++
    Bytes.ofNat 8 (message.length * 8))

/-- The four bytes of a word, most significant first. -/
def bytesOf (word : UInt32) : Bytes :=
  [(word >>> 24).toUInt8, (word >>> 16).toUInt8, (word >>> 8).toUInt8,
    word.toUInt8]

end SealedGraph.Sha256

namespace SealedGraph

/-- SHA-256. -/
def sha256 (message : Bytes) : Word :=
  let words := Sha256.wordsOf (Sha256.pad message)
  let s := Sha256.State.absorb (words.length / 16) words .initial
  ⟨Sha256.bytesOf s.a ++ Sha256.bytesOf s.b ++ Sha256.bytesOf s.c ++
    Sha256.bytesOf s.d ++
    Sha256.bytesOf s.e ++ Sha256.bytesOf s.f ++ Sha256.bytesOf s.g ++
      Sha256.bytesOf s.h,
    by simp [Sha256.bytesOf]⟩

/-- HMAC-SHA256 under a 32-byte key. -/
def hmacSha256 (key : Word) (message : Bytes) : Word :=
  let block := key.bytes ++ List.replicate 32 0
  let inner := sha256 (block.map (· ^^^ 0x36) ++ message)
  sha256 (block.map (· ^^^ 0x5c) ++ inner.bytes)

end SealedGraph
