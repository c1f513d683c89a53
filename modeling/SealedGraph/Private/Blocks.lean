import SealedGraph.Machine
import SealedGraph.Settings

/-!
# Payloads as blocks

A payload is cut into blocks of equal size, so that there are at least as many
blocks as the settings ask for; blocks beyond its end are empty.  A block
becomes a leaf by zeros put before it.  The size of a block is the length of
the payload divided by the least number of blocks, rounded half up, at least
one byte and at most the bytes that the settings allow.

Lengths of byte strings in memory are natural numbers.  Lengths and counts
that a seller announces are 64-bit words; for them the size and the number of
blocks are computed on words.
-/

namespace SealedGraph.Blocks

/-! ## Sizes and counts -/

/-- The number of blocks that the size is chosen for; at least one. -/
def target (s : PrivacySettings) : UInt64 := max s.firstLevelBlocks 1

/-- Bytes per block of a payload of some length. -/
def size (length : Nat) (s : PrivacySettings) : Nat :=
  let target := (target s).toNat
  max 1 (min ((2 * length + target) / (2 * target)) s.maxBlockBytes.toNat)

/-- The number of blocks of a payload of some length. -/
def count (length : Nat) (s : PrivacySettings) : Nat :=
  let size := size length s
  max ((length + size - 1) / size) s.firstLevelBlocks.toNat

/-- Bytes per block of a payload of an announced length.  Rounding compares the
remainder with what is missing to the divisor, which stays in the range of
words. -/
def announcedSize (length : UInt64) (s : PrivacySettings) : UInt64 :=
  let target := target s
  let quotient := length / target
  let remainder := length % target
  let rounded :=
    if target - remainder ≤ remainder then quotient + 1 else quotient
  max (min rounded s.maxBlockBytes) 1

/-- The number of blocks of a payload of an announced length. -/
def announcedCount (length : UInt64) (s : PrivacySettings) : UInt64 :=
  max (Machine.ceilDiv length (announcedSize length s)) s.firstLevelBlocks

/-! ## Cutting -/

/-- Cuts off `count` blocks of `size` bytes; when the bytes run out, blocks are
short or empty. -/
def cut (size : Nat) : (count : Nat) → Bytes → List Bytes
  | 0, _ => []
  | count + 1, bytes => bytes.take size :: cut size count (bytes.drop size)

/-- The blocks of a payload. -/
def blocks (payload : Bytes) (s : PrivacySettings) : List Bytes :=
  cut (size payload.length s) (count payload.length s) payload

/-- A text with zeros before it up to 64 characters. -/
def padText (digits : List Char) : List Char :=
  List.replicate (64 - digits.length) '0' ++ digits

/-- The blocks as hexadecimal texts of 64 digits. -/
def split (payload : Bytes) (s : PrivacySettings) : List String :=
  (blocks payload s).map fun block => String.ofList (padText (Hex.digits block))

/-- A block as a leaf; a block longer than a word is refused. -/
def leaf (block : Bytes) : Except Error Word :=
  match Word.leftPad? block with
  | some word => .ok word
  | none => .error (.settings (.blockTooLong block.length))

/-- The blocks as leaves. -/
def splitLeaves (payload : Bytes) (s : PrivacySettings) :
    Except Error (List Word) :=
  (blocks payload s).mapM leaf

/-! ## Joining -/

/-- Takes the bytes of a payload out of its leaves, the first of which is the
block `index` and has `written` bytes before it.  Every difference is
checked. -/
def joinFrom (length size : UInt64) :
    (index : Nat) → (written : UInt64) → List Word →
    Except Error Bytes
  | _, _, [] => .ok []
  | index, written, leaf :: rest =>
      match Machine.minus? length written with
      | none => .error .outOfRange
      | some left =>
          let taken := min left size
          match Machine.minus? 32 taken with
          | none => .error .outOfRange
          | some margin =>
              if (leaf.bytes.take margin.toNat).any (· ≠ 0) then
                .error (.mismatch (.dirtyPadding index))
              else
                (joinFrom length size (index + 1) (written + taken) rest).map
                  (leaf.bytes.drop margin.toNat ++ ·)

/-- The payload of an announced length that stands in the given leaves. -/
def join (leaves : List Word) (length : UInt64) (s : PrivacySettings) :
    Except Error Bytes :=
  let capacity :=
    min (leaves.length * (min s.maxBlockBytes 32).toNat) Machine.greatest.toNat
  if capacity < length.toNat
    then .error (.mismatch (.cannotFit length leaves.length))
  else
    let expected := announcedCount length s
    if leaves.length ≠ expected.toNat then
      .error (.mismatch (.leafCount expected length leaves.length))
    else joinFrom length (announcedSize length s) 0 0 leaves

end SealedGraph.Blocks
