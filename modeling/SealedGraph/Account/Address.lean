import SealedGraph.Hash.Keccak
import SealedGraph.Json.Record

/-!
# Account addresses

An address is 20 bytes.  Its text carries a checksum in the case of its
letters: a letter is written large when the digit at its place in the digest
of the small-letter text is eight or more.  Reading ignores the case.
-/

namespace SealedGraph

/-- The address of an account. -/
structure Address where
  bytes : Bytes
  length_bytes : bytes.length = 20
deriving DecidableEq

/-- Why a text is no address. -/
inductive AddressFault where
  | notHex (text : String) (fault : Hex.Fault)
  | wrongLength (text : String)

namespace Address

/-- The last 20 bytes of a word. -/
def ofWord (word : Word) : Address :=
  ⟨word.bytes.drop 12, by rw [List.length_drop, word.length_bytes]⟩

/-- The 40 digits in small letters. -/
def toHex (a : Address) : String := Hex.encode a.bytes

/-- A digit in the case that its checksum digit asks for. -/
def checksumDigit (digit check : Char) : Char :=
  if 8 ≤ (Hex.value? check).getD 0 then digit.toUpper else digit

/-- The digits with the checksum in their case. -/
def checksumDigits (digits check : List Char) : List Char :=
  List.zipWith checksumDigit digits check

/-- The text of an address: `0x` and 40 digits with checksum. -/
def text (a : Address) : String :=
  let digits := Hex.digits a.bytes
  let check :=
    Hex.digits (keccak256 (Bytes.ofText (String.ofList digits))).bytes
  "0x" ++ String.ofList (checksumDigits digits check)

/-- Reads 40 digits of either case, after at most one `0x`. -/
def ofText (text : String) : Except AddressFault Address :=
  match Hex.decode (Hex.dropMarker text.toList) with
  | .error fault => .error (.notHex text fault)
  | .ok bytes =>
      if h :
        bytes.length = 20 then .ok ⟨bytes, h⟩ else .error (.wrongLength text)

def json (a : Address) : Json := .string a.text

def ofJson? (json : Json) : Option Address := do
  let text ← json.string?
  (ofText text).toOption

end Address

/-- The wording of a fault. -/
def AddressFault.message : AddressFault → String
  | .notHex text fault => "bad address " ++ text ++ ": " ++ fault.message
  | .wrongLength text => "address " ++ text ++ " is not 20 bytes"

end SealedGraph
