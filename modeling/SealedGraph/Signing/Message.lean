import SealedGraph.Error
import SealedGraph.Signing.Ecdsa
import SealedGraph.Text.Blank

/-!
# Signed messages

A message is signed through the digest of a fixed line, its length in decimal
and the message itself.  The text of a signature is `0x` and 65 bytes in
hexadecimal: both numbers and the recovery byte.
-/

namespace SealedGraph

namespace Address

/-- The address of a public key: the last 20 bytes of the digest of its
coordinates. -/
def ofPoint (p : Curve.Point) : Address :=
  ofWord (keccak256 (Bytes.ofNat 32 p.x ++ Bytes.ofNat 32 p.y))

end Address

namespace Ecdsa.PrivateKey

/-- The address of a private key; every private key has one. -/
def address? (key : PrivateKey) : Option Address :=
  key.publicKey?.map Address.ofPoint

/-- The private key of a number, if it is one. -/
def ofNat? (scalar : Nat) : Option PrivateKey :=
  if h :
    0 < scalar ∧ scalar < Curve.order then some ⟨scalar, h.1, h.2⟩ else none

/-- Reads the hexadecimal text of a private key of 24 to 32 bytes, white space
around it and a leading `0x` left out. -/
def parse (text : String) : Except Error PrivateKey :=
  match Hex.decode (Hex.dropMarker (Text.trim text.toList)) with
  | .error fault => .error (.settings (.keyNotHex fault))
  | .ok bytes =>
      if bytes.length < 24 ∨
        32 < bytes.length then .error (.settings .keyNotScalar)
      else
        match ofNat? (Bytes.toNat bytes) with
        | some key => .ok key
        | none => .error (.settings .keyNotScalar)

end Ecdsa.PrivateKey

namespace Message

/-- The line that stands before every signed message. -/
def salutation : String := "\x19Ethereum Signed Message:\n"

/-- What is hashed for a message. -/
def framed (message : Bytes) : Bytes :=
  Bytes.ofText (salutation ++ toString message.length) ++ message

/-- The digest that is signed for a message. -/
def digest (message : Bytes) : Word := keccak256 (framed message)

/-- The bytes of a signature: both numbers and the recovery byte. -/
def signatureBytes (s : Ecdsa.Signature) : Bytes :=
  Bytes.ofNat 32 s.r ++ Bytes.ofNat 32 s.s ++
    [27 + (if s.odd then 1 else 0) + (if s.reduced then 2 else 0)]

/-- Signs a message. -/
def sign (message : Bytes) (key : Ecdsa.PrivateKey) : Except Error String :=
  match Ecdsa.sign? key (digest message) with
  | some s => .ok ("0x" ++ Hex.encode (signatureBytes s))
  | none => .error (.signature .signingFailed)

/-- The parity that a recovery byte names. -/
def parity? (byte : UInt8) : Option Bool :=
  match byte.toNat with
  | 0 => some false
  | 1 => some true
  | 27 => some false
  | 28 => some true
  | _ => none

/-- The numbers of a signature, of which neither may be zero or reach the group
order. -/
def readSignature (text : String) : Except Error Ecdsa.Signature :=
  match Hex.decode (Hex.dropMarker text.toList) with
  | .error fault => .error (.signature (.notHex fault))
  | .ok bytes =>
      if bytes.length ≠ 65 then .error (.signature (.wrongLength bytes.length))
      else
        let byte := bytes.getD 64 0
        match parity? byte with
        | none => .error (.signature (.recoveryByte byte))
        | some odd =>
            let r := Bytes.toNat (bytes.take 32)
            let s := Bytes.toNat ((bytes.drop 32).take 32)
            if r = 0 ∨ Curve.order ≤ r ∨ s = 0 ∨ Curve.order ≤ s then
              .error (.signature .notScalars)
            else .ok ⟨r, s, odd, false⟩

/-- The address that signed a message. -/
def recover (message : Bytes) (text : String) : Except Error Address := do
  let signature ← readSignature text
  match Ecdsa.recover? (digest message) signature.normalize with
  | some point => return Address.ofPoint point
  | none => .error (.signature .unrecoverable)

end Message
end SealedGraph
