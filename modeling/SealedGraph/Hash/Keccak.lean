import SealedGraph.Hash.Word

/-!
# Keccak-256 and SHA3-256

Both are the sponge over the 1600-bit Keccak permutation with a rate of 136
bytes; they differ in the byte that starts the padding.  A state is a record
of its 25 lanes, `lxy` standing in column `x` of row `y`, so that one round is
a fixed set of word operations.
-/

namespace SealedGraph.Keccak

/-- Bytes taken in per block. -/
def rate : Nat := 136

/-- The 25 lanes of the permutation's state. -/
structure State where
  (l00 l10 l20 l30 l40 : UInt64)
  (l01 l11 l21 l31 l41 : UInt64)
  (l02 l12 l22 l32 l42 : UInt64)
  (l03 l13 l23 l33 l43 : UInt64)
  (l04 l14 l24 l34 l44 : UInt64)

/-- All lanes zero. -/
def State.empty : State :=
  ⟨0, 0, 0, 0, 0, 0, 0, 0, 0, 0, 0, 0, 0,
    0, 0, 0, 0, 0, 0, 0, 0, 0, 0, 0, 0⟩

/-- Rotates a lane to the left by a number of bits between 1 and 63. -/
@[inline] def turn (lane amount : UInt64) : UInt64 :=
  (lane <<< amount) ||| (lane >>> (64 - amount))

/-- One round: column parities are mixed in, lanes are rotated and moved, each
row is combined non-linearly, and the round's constant breaks the symmetry. -/
def State.round (s : State) (constant : UInt64) : State :=
  let c0 := s.l00 ^^^ s.l01 ^^^ s.l02 ^^^ s.l03 ^^^ s.l04
  let c1 := s.l10 ^^^ s.l11 ^^^ s.l12 ^^^ s.l13 ^^^ s.l14
  let c2 := s.l20 ^^^ s.l21 ^^^ s.l22 ^^^ s.l23 ^^^ s.l24
  let c3 := s.l30 ^^^ s.l31 ^^^ s.l32 ^^^ s.l33 ^^^ s.l34
  let c4 := s.l40 ^^^ s.l41 ^^^ s.l42 ^^^ s.l43 ^^^ s.l44
  let d0 := c4 ^^^ turn c1 1
  let d1 := c0 ^^^ turn c2 1
  let d2 := c1 ^^^ turn c3 1
  let d3 := c2 ^^^ turn c4 1
  let d4 := c3 ^^^ turn c0 1
  let b00 := s.l00 ^^^ d0
  let b02 := turn (s.l10 ^^^ d1) 1
  let b04 := turn (s.l20 ^^^ d2) 62
  let b01 := turn (s.l30 ^^^ d3) 28
  let b03 := turn (s.l40 ^^^ d4) 27
  let b13 := turn (s.l01 ^^^ d0) 36
  let b10 := turn (s.l11 ^^^ d1) 44
  let b12 := turn (s.l21 ^^^ d2) 6
  let b14 := turn (s.l31 ^^^ d3) 55
  let b11 := turn (s.l41 ^^^ d4) 20
  let b21 := turn (s.l02 ^^^ d0) 3
  let b23 := turn (s.l12 ^^^ d1) 10
  let b20 := turn (s.l22 ^^^ d2) 43
  let b22 := turn (s.l32 ^^^ d3) 25
  let b24 := turn (s.l42 ^^^ d4) 39
  let b34 := turn (s.l03 ^^^ d0) 41
  let b31 := turn (s.l13 ^^^ d1) 45
  let b33 := turn (s.l23 ^^^ d2) 15
  let b30 := turn (s.l33 ^^^ d3) 21
  let b32 := turn (s.l43 ^^^ d4) 8
  let b42 := turn (s.l04 ^^^ d0) 18
  let b44 := turn (s.l14 ^^^ d1) 2
  let b41 := turn (s.l24 ^^^ d2) 61
  let b43 := turn (s.l34 ^^^ d3) 56
  let b40 := turn (s.l44 ^^^ d4) 14
  { l00 := b00 ^^^ (~~~b10 &&& b20) ^^^ constant
    l10 := b10 ^^^ (~~~b20 &&& b30)
    l20 := b20 ^^^ (~~~b30 &&& b40)
    l30 := b30 ^^^ (~~~b40 &&& b00)
    l40 := b40 ^^^ (~~~b00 &&& b10)
    l01 := b01 ^^^ (~~~b11 &&& b21)
    l11 := b11 ^^^ (~~~b21 &&& b31)
    l21 := b21 ^^^ (~~~b31 &&& b41)
    l31 := b31 ^^^ (~~~b41 &&& b01)
    l41 := b41 ^^^ (~~~b01 &&& b11)
    l02 := b02 ^^^ (~~~b12 &&& b22)
    l12 := b12 ^^^ (~~~b22 &&& b32)
    l22 := b22 ^^^ (~~~b32 &&& b42)
    l32 := b32 ^^^ (~~~b42 &&& b02)
    l42 := b42 ^^^ (~~~b02 &&& b12)
    l03 := b03 ^^^ (~~~b13 &&& b23)
    l13 := b13 ^^^ (~~~b23 &&& b33)
    l23 := b23 ^^^ (~~~b33 &&& b43)
    l33 := b33 ^^^ (~~~b43 &&& b03)
    l43 := b43 ^^^ (~~~b03 &&& b13)
    l04 := b04 ^^^ (~~~b14 &&& b24)
    l14 := b14 ^^^ (~~~b24 &&& b34)
    l24 := b24 ^^^ (~~~b34 &&& b44)
    l34 := b34 ^^^ (~~~b44 &&& b04)
    l44 := b44 ^^^ (~~~b04 &&& b14) }

/-- The constants of the 24 rounds. -/
def constants : List UInt64 :=
  [0x0000000000000001, 0x0000000000008082, 0x800000000000808a,
    0x8000000080008000, 0x000000000000808b, 0x0000000080000001,
    0x8000000080008081, 0x8000000000008009, 0x000000000000008a,
    0x0000000000000088, 0x0000000080008009, 0x000000008000000a,
    0x000000008000808b, 0x800000000000008b, 0x8000000000008089,
    0x8000000000008003, 0x8000000000008002, 0x8000000000000080,
    0x000000000000800a, 0x800000008000000a, 0x8000000080008081,
    0x8000000000008080, 0x0000000080000001, 0x8000000080008008]

/-- The permutation. -/
def State.permute (s : State) : State := constants.foldl State.round s

/-! ## The sponge -/

/-- Eight bytes as a lane, lowest byte first. -/
def laneOf : Bytes → UInt64
  | [] => 0
  | byte :: rest => byte.toUInt64 ||| (laneOf rest <<< 8)

/-- A byte string as lanes of eight bytes each. -/
def lanesOf : (count : Nat) → Bytes → List UInt64
  | 0, _ => []
  | count + 1, bytes => laneOf (bytes.take 8) :: lanesOf count (bytes.drop 8)

/-- Mixes the 17 lanes of a block into a state. -/
def State.mix (s : State) : List UInt64 → State
  | [b0, b1, b2, b3, b4, b5, b6, b7, b8, b9, b10, b11, b12, b13, b14,
      b15, b16] =>
    { s with
      l00 := s.l00 ^^^ b0
      l10 := s.l10 ^^^ b1
      l20 := s.l20 ^^^ b2
      l30 := s.l30 ^^^ b3
      l40 := s.l40 ^^^ b4
      l01 := s.l01 ^^^ b5
      l11 := s.l11 ^^^ b6
      l21 := s.l21 ^^^ b7
      l31 := s.l31 ^^^ b8
      l41 := s.l41 ^^^ b9
      l02 := s.l02 ^^^ b10
      l12 := s.l12 ^^^ b11
      l22 := s.l22 ^^^ b12
      l32 := s.l32 ^^^ b13
      l42 := s.l42 ^^^ b14
      l03 := s.l03 ^^^ b15
      l13 := s.l13 ^^^ b16 }
  | _ => s

/-- `room` bytes of padding: `first`, zeros, and a set top bit at the very
end. -/
def padding (first : UInt8) : (room : Nat) → Bytes
  | 0 => []
  | 1 => [first ||| 0x80]
  | room + 2 => first :: (List.replicate room 0 ++ [0x80])

/-- Fills a message up to whole blocks, by at least one byte. -/
def pad (first : UInt8) (message : Bytes) : Bytes :=
  message ++ padding first (rate - message.length % rate)

/-- Takes in `count` blocks. -/
def State.absorb : (count : Nat) → Bytes → State → State
  | 0, _, s => s
  | count + 1, bytes, s =>
      State.absorb count (bytes.drop rate)
        (s.mix (lanesOf 17 (bytes.take rate))).permute

/-- The eight bytes of a lane, lowest first. -/
def bytesOf (lane : UInt64) : Bytes :=
  [lane.toUInt8, (lane >>> 8).toUInt8, (lane >>> 16).toUInt8,
    (lane >>> 24).toUInt8, (lane >>> 32).toUInt8, (lane >>> 40).toUInt8,
    (lane >>> 48).toUInt8, (lane >>> 56).toUInt8]

/-- The first 32 bytes of a state. -/
def State.squeeze (s : State) : Word :=
  ⟨bytesOf s.l00 ++ bytesOf s.l10 ++ bytesOf s.l20 ++ bytesOf s.l30,
    by simp [bytesOf]⟩

/-- The sponge with a given first padding byte. -/
def sponge (first : UInt8) (message : Bytes) : Word :=
  let padded := pad first message
  (State.absorb (padded.length / rate) padded .empty).squeeze

end SealedGraph.Keccak

namespace SealedGraph

/-- Keccak-256: the sponge with a padding that starts with `0x01`. -/
def keccak256 (message : Bytes) : Word := Keccak.sponge 0x01 message

/-- SHA3-256: the sponge with the padding of the standard, which starts with
`0x06`. -/
def sha3 (message : Bytes) : Word := Keccak.sponge 0x06 message

end SealedGraph
