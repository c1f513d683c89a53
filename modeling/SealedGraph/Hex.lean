import SealedGraph.Bytes

/-!
# Hexadecimal text

Two digits per byte, high half first.  Writing uses small letters; reading
takes either case.  A text that is not hexadecimal is refused with the reason
and, for a character that is no digit, its place.
-/

namespace SealedGraph.Hex

/-- Why a text is not the hexadecimal form of the wanted bytes. -/
inductive Fault where
  /-- The text takes up an odd number of bytes. -/
  | oddLength
  /-- A character that is no digit: its first byte, and how many digits stand
  before it. -/
  | badDigit (byte : UInt8) (position : Nat)
  /-- The text is hexadecimal, but not of the wanted length. -/
  | wrongLength
deriving DecidableEq, Repr

/-- The digit of a number below sixteen. -/
def digit (value : Nat) : Char :=
  if value < 10 then Char.ofNat (48 + value) else Char.ofNat (87 + value)

/-- The value of a digit of either case. -/
def value? (c : Char) : Option Nat :=
  if '0' ≤ c ∧ c ≤ '9' then some (c.toNat - 48)
  else if 'a' ≤ c ∧ c ≤ 'f' then some (c.toNat - 87)
  else if 'A' ≤ c ∧ c ≤ 'F' then some (c.toNat - 55)
  else none

/-- The digits of a byte string. -/
def digits : Bytes → List Char
  | [] => []
  | byte :: rest =>
      digit (byte.toNat / 16) :: digit (byte.toNat % 16) :: digits rest

/-- The hexadecimal text of a byte string. -/
def encode (bytes : Bytes) : String := String.ofList (digits bytes)

/-- The fault of a character that is no digit. -/
def badDigit (c : Char) (position : Nat) : Fault :=
  .badDigit ((String.utf8EncodeChar c).headD 0) position

/-- Reads digits in pairs, the first of them standing at `position`. -/
def readPairs : (position : Nat) → List Char → Except Fault Bytes
  | _, [] => .ok []
  | position, [c] =>
      match value? c with
      | none => .error (badDigit c position)
      | some _ => .error .oddLength
  | position, high :: low :: rest =>
      match value? high, value? low with
      | none, _ => .error (badDigit high position)
      | some _, none => .error (badDigit low (position + 1))
      | some h, some l =>
          (readPairs (position + 2) rest).map (UInt8.ofNat (h * 16 + l) :: ·)

/-- Reads digits.  The length is checked first, and counts bytes of UTF-8. -/
def decode (cs : List Char) : Except Fault Bytes :=
  if (cs.flatMap String.utf8EncodeChar).length % 2 = 1 then .error .oddLength
    else readPairs 0 cs

/-- Leaves out a leading `0x`. -/
def dropMarker : List Char → List Char
  | '0' :: 'x' :: rest => rest
  | cs => cs

/-- Leaves out a leading `0x` or `0X`. -/
def dropAnyMarker : List Char → List Char
  | '0' :: 'x' :: rest => rest
  | '0' :: 'X' :: rest => rest
  | cs => cs

/-! ## Wording of faults -/

/-- A byte, taken as the character of that number, between single quotes.
Quotes, control characters and the two invisible characters of that range are
written by escapes. -/
def quoted (byte : UInt8) : String :=
  let inner :=
    match byte.toNat with
    | 0 => "\\0"
    | 9 => "\\t"
    | 10 => "\\n"
    | 13 => "\\r"
    | 39 => "\\'"
    | 92 => "\\\\"
    | n =>
        if n < 32 ∨ (127 ≤ n ∧ n ≤ 160) ∨ n = 173 then
          "\\u\x7b" ++ String.ofList (Nat.toDigits 16 n) ++ "\x7d"
        else String.singleton (Char.ofNat n)
  "'" ++ inner ++ "'"

/-- The wording of a fault. -/
def Fault.message : Fault → String
  | .oddLength => "Odd number of digits"
  | .badDigit byte position =>
      "Invalid character " ++ quoted byte ++ " at position " ++
        toString position
  | .wrongLength => "Invalid string length"

end SealedGraph.Hex
