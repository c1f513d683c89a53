import SealedGraph.Exchange.Key
import SealedGraph.Json.Source

/-!
# Commitments and offers

A commitment is all that a seller makes for one sale.  The offer is the part
without the key, which the buyer gets before paying.  Both announce the length
of the payload and the number of leaves as 64-bit words.
-/

namespace SealedGraph

/-- What a buyer sees before paying. -/
structure Offer where
  /-- The length of the payload in bytes. -/
  length : UInt64
  /-- The number of leaves. -/
  count : UInt64
  /-- The masked nodes. -/
  encoded : List Word
  /-- The root of the tree of the private data. -/
  privateRoot : Word
  /-- The root of the tree on the masked nodes. -/
  encodedRoot : Word
deriving DecidableEq

/-- What a seller makes for one sale. -/
structure Commitment where
  length : UInt64
  count : UInt64
  key : ExchangeKey
  encoded : List Word
  privateRoot : Word
  encodedRoot : Word
deriving DecidableEq

/-- The part without the key. -/
def Commitment.offer (c : Commitment) : Offer :=
  ⟨c.length, c.count, c.encoded, c.privateRoot, c.encodedRoot⟩

/-! ## JSON forms -/

/-- A list of words as JSON. -/
def wordsJson (words : List Word) : Json := .array (words.map Word.json)

namespace Offer

def fields : List (String × Json.Shape) :=
  [("private_data_original_length", .any), ("private_data_array_length", .any),
    ("encoded_data", .any), ("private_data_root_hash", .any),
    ("encoded_data_root_hash", .any)]

/-- How a text is taken as an offer. -/
def shape : Json.Shape := .closed fields

def json (o : Offer) : Json :=
  Json.ofFields [("private_data_original_length", Json.ofWord o.length),
    ("private_data_array_length", Json.ofWord o.count),
    ("encoded_data", wordsJson o.encoded),
    ("private_data_root_hash", o.privateRoot.json),
    ("encoded_data_root_hash", o.encodedRoot.json)]

def ofJson? (json : Json) : Option Offer := do
  let members ← json.closed? (fields.map (·.1))
  let length ← Json.required members "private_data_original_length" Json.word?
  let count ← Json.required members "private_data_array_length" Json.word?
  let encoded ← Json.required members "encoded_data" (Json.listOf? Word.ofJson?)
  let privateRoot ← Json.required members "private_data_root_hash" Word.ofJson?
  let encodedRoot ← Json.required members "encoded_data_root_hash" Word.ofJson?
  some ⟨length, count, encoded, privateRoot, encodedRoot⟩

end Offer

namespace Commitment

def fields : List (String × Json.Shape) :=
  [("private_data_original_length", .any), ("private_data_array_length", .any),
    ("key", .any), ("encoded_data", .any), ("private_data_root_hash", .any),
    ("encoded_data_root_hash", .any)]

/-- How a text is taken as a commitment. -/
def shape : Json.Shape := .closed fields

def json (c : Commitment) : Json :=
  Json.ofFields [("private_data_original_length", Json.ofWord c.length),
    ("private_data_array_length", Json.ofWord c.count),
    ("key", c.key.json),
    ("encoded_data", wordsJson c.encoded),
    ("private_data_root_hash", c.privateRoot.json),
    ("encoded_data_root_hash", c.encodedRoot.json)]

def ofJson? (json : Json) : Option Commitment := do
  let members ← json.closed? (fields.map (·.1))
  let length ← Json.required members "private_data_original_length" Json.word?
  let count ← Json.required members "private_data_array_length" Json.word?
  let key ← Json.required members "key" ExchangeKey.ofJson?
  let encoded ← Json.required members "encoded_data" (Json.listOf? Word.ofJson?)
  let privateRoot ← Json.required members "private_data_root_hash" Word.ofJson?
  let encodedRoot ← Json.required members "encoded_data_root_hash" Word.ofJson?
  some ⟨length, count, key, encoded, privateRoot, encodedRoot⟩

end Commitment
end SealedGraph
