import SealedGraph.Error
import SealedGraph.Json.Parser
import SealedGraph.Json.Record

/-!
# Settings

How private payloads are cut into blocks, which properties hold private
entries, and which chain and identity are written into headers.  Settings are
read from JSON, every part having a default, and are checked before use.

## Main results

* `PrivacySettings.check_eq_ok`: the check passes exactly on valid settings.
* `Settings.valid_default`: the default settings are valid.
-/

namespace SealedGraph

/-- How private payloads are cut, and where they stand. -/
structure PrivacySettings where
  /-- The least number of leaves of a payload's tree. -/
  firstLevelBlocks : UInt64 := 256
  /-- The most bytes of payload that one leaf holds. -/
  maxBlockBytes : UInt64 := 32
  /-- The properties of graph objects that hold private entries. -/
  propertyNames : List String := ["private"]
deriving DecidableEq

/-- The chain that headers refer to. -/
structure ChainSettings where
  networkId : String := ""
  hubContractAddress : String := ""
deriving DecidableEq

/-- All settings. -/
structure Settings where
  privacy : PrivacySettings := {}
  chain : ChainSettings := {}
  /-- The identity of those who create datasets. -/
  identity : String := ""
deriving DecidableEq

namespace PrivacySettings

/-- There is at least one leaf, a block fits a word and is not empty, and some
property is private. -/
def Valid (s : PrivacySettings) : Prop :=
  s.firstLevelBlocks ≠ 0 ∧ s.maxBlockBytes ≠ 0 ∧ s.maxBlockBytes ≤ 32 ∧
    s.propertyNames ≠ []

instance (s : PrivacySettings) : Decidable s.Valid := by
  unfold Valid
  infer_instance

/-- Reports what makes settings invalid. -/
def check (s : PrivacySettings) : Except Error Unit :=
  if s.firstLevelBlocks = 0 then .error (.settings .noBlocks)
  else if s.maxBlockBytes = 0 ∨ 32 < s.maxBlockBytes then
    .error (.settings (.blockBytes s.maxBlockBytes))
  else if s.propertyNames = [] then .error (.settings .noNames)
  else .ok ()

theorem check_eq_ok {s : PrivacySettings} : s.check = .ok () ↔ s.Valid := by
  unfold check Valid
  by_cases hBlocks : s.firstLevelBlocks = 0
  · simp [hBlocks]
  · by_cases hBytes : s.maxBlockBytes = 0 ∨ 32 < s.maxBlockBytes
    · rcases hBytes with hZero | hLarge
      · simp [hBlocks, hZero]
      · simp [hBlocks, hLarge, UInt64.not_le.mpr hLarge]
    · by_cases hNames : s.propertyNames = []
      · simp [hBlocks, hBytes, hNames]
      · have hParts := not_or.mp hBytes
        simp [hBlocks, hNames, hParts.1, UInt64.not_lt.mp hParts.2]

/-- Whether a property holds private entries. -/
def isPrivate (s : PrivacySettings) (property : String) : Bool :=
  s.propertyNames.contains property

/-! ## JSON form -/

def fields : List (String × Json.Shape) :=
  [("first_level_blocks", .any), ("max_block_bytes", .any),
    ("object_names", .any)]

def json (s : PrivacySettings) : Json :=
  Json.ofFields [("first_level_blocks", Json.ofWord s.firstLevelBlocks),
    ("max_block_bytes", Json.ofWord s.maxBlockBytes),
    ("object_names", Json.ofTexts s.propertyNames)]

def ofJson? (json : Json) : Option PrivacySettings := do
  let members ← json.closed? (fields.map (·.1))
  let default : PrivacySettings := {}
  let firstLevelBlocks ←
    Json.defaulted members "first_level_blocks" Json.word?
      default.firstLevelBlocks
  let maxBlockBytes ← Json.defaulted members "max_block_bytes" Json.word?
    default.maxBlockBytes
  let propertyNames ←
    Json.defaulted members "object_names" (Json.listOf? Json.string?)
      default.propertyNames
  some ⟨firstLevelBlocks, maxBlockBytes, propertyNames⟩

end PrivacySettings

namespace ChainSettings

def fields : List (String × Json.Shape) :=
  [("network_id", .any), ("hub_contract_address", .any)]

def json (s : ChainSettings) : Json :=
  Json.ofFields [("network_id", .string s.networkId),
    ("hub_contract_address", .string s.hubContractAddress)]

def ofJson? (json : Json) : Option ChainSettings := do
  let members ← json.closed? (fields.map (·.1))
  let networkId ← Json.defaulted members "network_id" Json.string? ""
  let hubContractAddress ← Json.defaulted members "hub_contract_address"
    Json.string? ""
  some ⟨networkId, hubContractAddress⟩

end ChainSettings

namespace Settings

/-- Settings are valid when their part on private data is. -/
def Valid (s : Settings) : Prop := s.privacy.Valid

instance (s : Settings) : Decidable s.Valid :=
  inferInstanceAs (Decidable s.privacy.Valid)

/-- The default settings pass their own check. -/
theorem valid_default : Valid {} := by decide

def fields : List (String × Json.Shape) :=
  [("private_data", .closed PrivacySettings.fields),
    ("blockchain", .closed ChainSettings.fields), ("erc725_identity", .any)]

/-- How a text is taken as settings. -/
def shape : Json.Shape := .closed fields

def json (s : Settings) : Json :=
  Json.ofFields [("private_data", s.privacy.json), ("blockchain", s.chain.json),
    ("erc725_identity", .string s.identity)]

def ofJson? (json : Json) : Option Settings := do
  let members ← json.closed? (fields.map (·.1))
  let privacy ← Json.defaulted members "private_data" PrivacySettings.ofJson? {}
  let chain ← Json.defaulted members "blockchain" ChainSettings.ofJson? {}
  let identity ← Json.defaulted members "erc725_identity" Json.string? ""
  some ⟨privacy, chain, identity⟩

/-- Reads and checks the text of settings. -/
def parse (text : String) : Except Error Settings :=
  match (Json.parseAs? shape text).bind ofJson? with
  | none => .error (.settings .unreadable)
  | some s => s.privacy.check.map fun _ => s

end Settings
end SealedGraph
