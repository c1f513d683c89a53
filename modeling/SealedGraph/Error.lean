import SealedGraph.Account.Address
import SealedGraph.Json.Printer

/-!
# Errors

An error is a cause with the things it is about.  Its wording is made from the
cause in one place, `Error.message`.  A text that is no JSON of the wanted
kind is reported as such, without a diagnosis.
-/

namespace SealedGraph

/-- The place of a private entry: a graph object, one of its properties, and an
index there. -/
structure Slot where
  objectId : String
  property : String
  index : Nat
deriving DecidableEq

/-- Why a document is malformed. -/
inductive Malformed where
  /-- It is not the JSON of a document or of a private entry. -/
  | unreadable
  | entryNotObject (entry : Json)
  /-- A private entry is malformed. -/
  | entry (slot : Slot) (cause : Malformed)
  | notArray (objectId property : String)
  | noId
  | noHeader
  | noRootHash
  | noCreator
  | noObject (id : String)
  | noLeaf (id : String)

/-- How something offered differs from what it is announced or committed to
be. -/
inductive Mismatch where
  | nothingCommitted (objectId : String) (hash : Word)
  | cannotFit (length : UInt64) (leaves : Nat)
  | leafCount (expected length : UInt64) (leaves : Nat)
  | dirtyPadding (block : Nat)
  | staleHash (actual published : Word)
  | announcedCount (length expected announced : UInt64)
  | tooFewNodes (leaves : UInt64) (nodes : Nat)
  | nodeCount (expected actual : Nat)
  | encodedRoot (actual announced : Word)
  | notJson
  | privateRoot (recovered published : Word)
  | node (index : Nat)

/-- What is wrong with a signature. -/
inductive SignatureFault where
  | address (fault : AddressFault)
  | signingFailed
  | notHex (fault : Hex.Fault)
  | wrongLength (bytes : Nat)
  | recoveryByte (byte : UInt8)
  /-- One of its two numbers is zero or not below the group order. -/
  | notScalars
  | unrecoverable
  | unsigned
  | unsupportedType (type : String)
  | wrongSigner (actual expected : Address)

/-- What is wrong with settings or keys. -/
inductive SettingsFault where
  | noBlocks
  | blockBytes (given : UInt64)
  | noNames
  | unreadable
  | blockTooLong (bytes : Nat)
  | keyNotHex (fault : Hex.Fault)
  | keyNotScalar
  | ledgerOffline (table : String)

/-- What is wrong with a hash. -/
inductive HashFault where
  | notWord (text : String) (fault : Hex.Fault)
  | key (fault : Hex.Fault)
  | rootMismatch (claimed actual : Word)

/-- Everything that can go wrong. -/
inductive Error where
  | malformed (cause : Malformed)
  /-- A private entry without data; the slot is known when it stands in a
  graph. -/
  | emptyEntry (slot : Option Slot)
  | mismatch (cause : Mismatch)
  | signature (fault : SignatureFault)
  | unsupportedOrigin (tag : String)
  | settings (fault : SettingsFault)
  | hash (fault : HashFault)
  /-- A difference of machine words would be negative, or an index is out of
  range: there is no answer. -/
  | outOfRange

/-! ## Wording -/

/-- What stands for the diagnosis of a text that is not the wanted JSON. -/
def diagnosis : String := "<json>"

def Slot.text (slot : Slot) : String :=
  slot.objectId ++ ".properties." ++ slot.property ++ "[" ++
    toString slot.index ++ "]"

def Malformed.message : Malformed → String
  | .unreadable => "Malformed document: " ++ diagnosis
  | .entryNotObject found =>
      "Malformed document: private data entry is not an object: " ++
        found.canonicalText
  | .entry slot cause =>
      "Malformed document: " ++ slot.text ++ ": " ++ cause.message
  | .notArray objectId property =>
      "Malformed document: " ++ objectId ++ ".properties." ++ property ++
        " is not an array"
  | .noId => "Malformed document: dataset has no @id"
  | .noHeader => "Malformed document: document has no dataset header"
  | .noRootHash => "Malformed document: dataset header has no root hash"
  | .noCreator => "Malformed document: dataset header has no data creator"
  | .noObject id => "Malformed document: no graph object with id " ++ id
  | .noLeaf id => "Malformed document: no distribution leaf for " ++ id

private def wordText (n : UInt64) : String := toString n.toNat

def Mismatch.message : Mismatch → String
  | .nothingCommitted objectId hash =>
      "no private entry in " ++ objectId ++ " is committed to " ++ hash.text
  | .cannotFit length leaves =>
      wordText length ++ "-byte payload cannot fit in " ++ toString leaves ++
        " leaf blocks"
  | .leafCount expected length leaves =>
      "expected " ++ wordText expected ++ " leaf blocks for a " ++
        wordText length ++
        "-byte payload, got " ++ toString leaves
  | .dirtyPadding block => "block " ++ toString block ++ " has non-zero padding"
  | .staleHash actual published =>
      "private data hashes to " ++ actual.text ++ ", object is committed to " ++
        published.text
  | .announcedCount length expected announced =>
      wordText length ++ "-byte payload should have " ++ wordText expected ++
        " leaf blocks, offer announces " ++ wordText announced
  | .tooFewNodes leaves nodes =>
      wordText leaves ++ " leaf blocks announced for " ++ toString nodes ++
        " encoded nodes"
  | .nodeCount expected actual =>
      "expected " ++ toString expected ++ " encoded nodes, got " ++
        toString actual
  | .encodedRoot actual announced =>
      "encoded root " ++ actual.text ++ " does not match announced " ++
        announced.text
  | .notJson => "payload is not valid JSON: " ++ diagnosis
  | .privateRoot recovered published =>
      "recovered root " ++ recovered.text ++ " does not match published " ++
        published.text
  | .node index =>
      "node " ++ toString index ++ " does not match the recomputed tree"

def SignatureFault.message : SignatureFault → String
  | .address fault => fault.message
  | .signingFailed => "signing failed: signature error"
  | .notHex fault => "signature is not hex: " ++ fault.message
  | .wrongLength bytes => "signature must be 65 bytes, got " ++ toString bytes
  | .recoveryByte byte => "unsupported recovery byte " ++ toString byte.toNat
  | .notScalars => "signature error"
  | .unrecoverable => "recovery failed: signature error"
  | .unsigned => "document is not signed"
  | .unsupportedType type => "unsupported signature type " ++ type
  | .wrongSigner actual expected =>
      "signed by " ++ actual.text ++ ", expected " ++ expected.text

def SettingsFault.message : SettingsFault → String
  | .noBlocks => "first_level_blocks must be at least 1"
  | .blockBytes given =>
      "max_block_bytes must be between 1 and 32, got " ++ wordText given
  | .noNames => "object_names must name at least one property"
  | .unreadable => "Failed to parse config: " ++ diagnosis
  | .blockTooLong bytes =>
      "block of " ++ toString bytes ++ " bytes does not fit a 32-byte word"
  | .keyNotHex fault => "private key is not hex: " ++ fault.message
  | .keyNotScalar => "private key is not a valid secp256k1 scalar"
  | .ledgerOffline table => table ++ " ledger offline"

def HashFault.message : HashFault → String
  | .notWord text fault => text ++ ": " ++ fault.message
  | .key fault => "key: " ++ fault.message
  | .rootMismatch claimed actual =>
      "header claims " ++ claimed.text ++ ", graph hashes to " ++ actual.text

/-- The wording of an error; what is out of range stops the program without
one. -/
def Error.message : Error → Option String
  | .malformed cause => some cause.message
  | .emptyEntry none => some "Empty private object: private object has no data"
  | .emptyEntry (some slot) =>
      some ("Empty private object: " ++ slot.text ++ " has no data")
  | .mismatch cause => some ("Decode validation failed: " ++ cause.message)
  | .signature fault => some ("Invalid signature: " ++ fault.message)
  | .unsupportedOrigin tag => some ("Unsupported origin: " ++ tag)
  | .settings fault => some ("Configuration error: " ++ fault.message)
  | .hash fault => some ("Invalid hash: " ++ fault.message)
  | .outOfRange => none

/-- Steps that may fail succeed together when each of them does. -/
theorem bind_eq_ok {ε α β : Type} {x : Except ε α} {f : α → Except ε β}
    {b : β} :
    x >>= f = .ok b ↔ ∃ a, x = .ok a ∧ f a = .ok b := by
  cases x with
  | error e =>
      constructor
      · intro h
        cases h
      · rintro ⟨_, h, _⟩
        cases h
  | ok a =>
      constructor
      · intro h
        exact ⟨a, rfl, h⟩
      · rintro ⟨_, h, hb⟩
        cases h
        exact hb

theorem toOption_eq_some {ε α : Type} {x : Except ε α} {a : α} :
    x.toOption = some a ↔ x = .ok a := by
  cases x <;> simp [Except.toOption]

/-- What has a value did not fail. -/
theorem exists_ok {ε α : Type} {x : Except ε α} (h : x.toOption.isSome) :
    ∃ a, x = .ok a := by
  obtain ⟨a, ha⟩ := Option.isSome_iff_exists.mp h
  exact ⟨a, toOption_eq_some.mp ha⟩

/-! ## Results that are answers -/

/-- The result is a value, or tells how something offered differs from what it
should be. -/
def Answered {α : Type} (result : Except Error α) : Prop :=
  (∃ value, result = .ok value) ∨ ∃ cause, result = .error (.mismatch cause)

section Answered

variable {α β : Type}

theorem answered_ok (value : α) : Answered (.ok value) := .inl ⟨value, rfl⟩

theorem answered_mismatch (cause : Mismatch) :
    Answered (α := α) (.error (.mismatch cause)) :=
  .inr ⟨cause, rfl⟩

/-- A test that ends with a mismatch, before something that is answered. -/
theorem answered_unless {p : Prop} [Decidable p] {cause : Mismatch}
    {result : Except Error α} (h : ¬ p → Answered result) :
    Answered (if p then .error (.mismatch cause) else result) := by
  by_cases hTest : p
  · rw [if_pos hTest]
    exact answered_mismatch cause
  · rw [if_neg hTest]
    exact h hTest

theorem not_answered_outOfRange : ¬ Answered (α := α) (.error .outOfRange) := by
  rintro (⟨value, h⟩ | ⟨cause, h⟩) <;> cases h

theorem Answered.map {result : Except Error α} (h : Answered result)
    (f : α → β) :
    Answered (result.map f) := by
  rcases h with ⟨value, rfl⟩ | ⟨cause, rfl⟩
  · exact answered_ok (f value)
  · exact answered_mismatch cause

theorem Answered.bind {result : Except Error α} (h : Answered result)
    {f : α → Except Error β}
    (hf : ∀ value, result = .ok value → Answered (f value)) :
    Answered (result >>= f) := by
  rcases h with ⟨value, rfl⟩ | ⟨cause, rfl⟩
  · exact hf value rfl
  · exact answered_mismatch cause

end Answered

/-! ## Texts of hashes and addresses, with their errors -/

/-- Reads the text of a word. -/
def Word.ofText (text : String) : Except Error Word :=
  (Word.ofHex text).mapError fun fault => .hash (.notWord text fault)

/-- Reads the text of an address. -/
def Address.parse (text : String) : Except Error Address :=
  (Address.ofText text).mapError fun fault => .signature (.address fault)

end SealedGraph
