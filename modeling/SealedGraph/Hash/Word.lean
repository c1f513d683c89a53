import SealedGraph.Hex

/-!
# 32-byte words

A word is a digest, a zero-padded block of payload, or a masked tree node.
Its length is part of the type.  Words are ordered byte by byte, first byte
first.
-/

namespace SealedGraph

/-- Exactly 32 bytes. -/
structure Word where
  /-- The bytes, in the order in which they are written. -/
  bytes : Bytes
  length_bytes : bytes.length = 32
deriving DecidableEq

namespace Word

/-- The number of bytes of a word. -/
def width : Nat := 32

@[ext] theorem ext {a b : Word} (h : a.bytes = b.bytes) : a = b := by
  cases a; cases b; cases h; rfl

/-- The word with the given bytes, if they are 32. -/
def ofBytes? (bytes : Bytes) : Option Word :=
  if h : bytes.length = 32 then some ⟨bytes, h⟩ else none

/-- The word of zeros. -/
def zero : Word := ⟨List.replicate 32 0, by simp⟩

/-- Bytes with zeros before them up to the width of a word; more than 32 bytes
do not fit. -/
def leftPad? (bytes : Bytes) : Option Word :=
  if h : bytes.length ≤ 32 then
    some ⟨List.replicate (32 - bytes.length) 0 ++ bytes, by simp; omega⟩
  else none

/-- Bitwise exclusive or. -/
def xor (a b : Word) : Word :=
  ⟨List.zipWith (· ^^^ ·) a.bytes b.bytes,
    by simp [a.length_bytes, b.length_bytes]⟩

/-- The word that holds a number below `2 ^ 256`, most significant byte
first. -/
def ofNat (value : Nat) : Word := ⟨Bytes.ofNat 32 value, by simp⟩

/-- The number that a word holds, most significant byte first. -/
def toNat (word : Word) : Nat := Bytes.toNat word.bytes

/-- The order of the bytes, first byte first. -/
def le (a b : Word) : Bool := decide (a.bytes ≤ b.bytes)

/-- The order of the bytes as a comparison. -/
def order (a b : Word) : Ordering :=
  if a.bytes < b.bytes then .lt else if a.bytes = b.bytes then .eq else .gt

/-! ## Hexadecimal form -/

/-- The 64 digits of a word. -/
def toHex (word : Word) : String := Hex.encode word.bytes

/-- The 64 digits after `0x`: the form in which words stand in JSON and in
messages. -/
def text (word : Word) : String := "0x" ++ word.toHex

/-- The first seven digits, for display. -/
def short (word : Word) : String :=
  String.ofList ((Hex.digits word.bytes).take 7)

/-- Reads 64 digits of either case, after at most one `0x` or `0X`. -/
def ofHex (text : String) : Except Hex.Fault Word := do
  let bytes ← Hex.decode (Hex.dropAnyMarker text.toList)
  match ofBytes? bytes with
  | some word => .ok word
  | none => .error .wrongLength

end Word
end SealedGraph
