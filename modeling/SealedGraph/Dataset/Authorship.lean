import SealedGraph.Dataset.Publisher
import SealedGraph.Signing.Message

/-!
# Signed datasets

A dataset is signed through the canonical text of its public view without
signature, so that the signature stays valid when private data are left out.
-/

namespace SealedGraph.Publisher

/-- What is signed: the canonical text of the public view without signature. -/
def signedBytes (p : Publisher) (d : Document) : Except Error Bytes := do
  let view ← p.strip d
  return Bytes.ofText { view with signature := none }.canonicalText

/-- Signs a dataset; its private data stay where they are. -/
def sign (p : Publisher) (d : Document) (key : Ecdsa.PrivateKey) :
    Except Error Document := do
  let message ← p.signedBytes d
  let value ← Message.sign message key
  return { d with signature := some ⟨value, Signature.scheme⟩ }

/-- The address that signed a dataset. -/
def signer (p : Publisher) (d : Document) : Except Error Address :=
  match d.signature with
  | none => .error (.signature .unsigned)
  | some signature =>
      if signature.type ≠ Signature.scheme then
        .error (.signature (.unsupportedType signature.type))
      else do
        let message ← p.signedBytes d
        Message.recover message signature.value

/-- Checks that a dataset was signed by an address. -/
def verifySigner (p : Publisher) (d : Document) (expected : Address) :
    Except Error Unit := do
  let actual ← p.signer d
  if actual = expected then return ()
  else .error (.signature (.wrongSigner actual expected))

end SealedGraph.Publisher
