import SealedGraph.Hash.Sha256
import SealedGraph.Signing.Curve

/-!
# Signatures on 256-bit digests

The secret number of a signature is drawn from the key and the digest by a
chain of keyed hashes, so that signing is a function of both.  The second
number of a signature is at most half the group order, and the signature says
which of the candidate points its first number stands for, so that the signer
can be recovered.
-/

namespace SealedGraph.Ecdsa

/-- A private key: a positive number below the group order. -/
structure PrivateKey where
  scalar : Nat
  positive : 0 < scalar
  lt_order : scalar < Curve.order
deriving DecidableEq

/-- A signature with what is needed to recover its signer. -/
structure Signature where
  r : Nat
  s : Nat
  /-- Whether the point's second coordinate is odd. -/
  odd : Bool
  /-- Whether the point's first coordinate is not below the group order. -/
  reduced : Bool
deriving DecidableEq

/-- The public key of a private key. -/
def PrivateKey.publicKey? (key : PrivateKey) : Option Curve.Point :=
  Curve.multiple key.scalar

/-! ## The secret number -/

/-- The state of the chain of keyed hashes. -/
structure Chain where
  key : Word
  value : Word

namespace Chain

/-- Mixes data into the chain after a separating byte. -/
def mix (c : Chain) (separator : UInt8) (data : Bytes) : Chain :=
  let key := hmacSha256 c.key (c.value.bytes ++ separator :: data)
  ⟨key, hmacSha256 key c.value.bytes⟩

/-- The chain for a private key and a digest below the group order. -/
def start (key : PrivateKey) (digest : Nat) : Chain :=
  let data := Bytes.ofNat 32 key.scalar ++ Bytes.ofNat 32 digest
  let first : Chain := ⟨Word.zero, ⟨List.replicate 32 1, by simp⟩⟩
  (first.mix 0 data).mix 1 data

/-- The first positive number below the group order that the chain yields,
within `fuel` tries. -/
def draw? : (fuel : Nat) → Chain → Option Nat
  | 0, _ => none
  | fuel + 1, c =>
      let value := hmacSha256 c.key c.value.bytes
      let number := value.toNat
      if 0 < number ∧ number < Curve.order then some number
      else draw? fuel ((⟨c.key, value⟩ : Chain).mix 0 [])

end Chain

/-! ## Signing and recovering -/

/-- Half the group order, rounded down. -/
def half : Nat := Curve.order / 2

/-- The signature with its second number at most half the group order. -/
def Signature.normalize (s : Signature) : Signature :=
  if half < s.s then { s with s := Curve.order - s.s, odd := !s.odd } else s

/-- Signs a digest; fails if no secret number is found, or one of the numbers is
zero. -/
def sign? (key : PrivateKey) (digest : Word) : Option Signature := do
  let z := digest.toNat % Curve.order
  let secret ← (Chain.start key z).draw? 128
  let point ← Curve.multiple secret
  let r := point.x % Curve.order
  let s :=
    Curve.inverseMod Curve.order secret * (z + r * key.scalar) % Curve.order
  if r = 0 ∨ s = 0 then none
  else
    some (Signature.normalize ⟨r, s, decide (point.y % 2 = 1),
      decide (Curve.order ≤ point.x)⟩)

/-- The public key that made a signature on a digest. -/
def recover? (digest : Word) (signature : Signature) : Option Curve.Point := do
  let z := digest.toNat % Curve.order
  let x := if signature.reduced then signature.r + Curve.order else signature.r
  if Curve.fieldPrime ≤ x then none
  else
    let point ← Curve.lift? x signature.odd
    let inverse := Curve.inverseMod Curve.order signature.r
    let first := (Curve.order - z * inverse % Curve.order) % Curve.order
    let second := signature.s * inverse % Curve.order
    Curve.combination first point second

end SealedGraph.Ecdsa
