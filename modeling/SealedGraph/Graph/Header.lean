import SealedGraph.Error
import SealedGraph.Json.Record
import SealedGraph.Json.Source

/-!
# Dataset headers

A header describes a dataset, names the schemas by which it can be validated,
carries the root hash of its public part in the value of its first proof, and
names its creator by identifiers of which the first counts.
-/

namespace SealedGraph

/-- A schema by which a proof or an identifier is validated. -/
structure ValidationSchema where
  schemaType : String
  networkId : String := ""
  hubContractAddress : Option String := none
  extra : Members Json := []
deriving BEq

/-- A proof of integrity. -/
structure IntegrityProof where
  value : String := ""
  type : String
  schema : String
  extra : Members Json := []
deriving BEq

/-- The proofs of integrity. -/
structure Integrity where
  proofs : List IntegrityProof := []
  extra : Members Json := []
deriving BEq

/-- An identifier of a creator. -/
structure CreatorIdentifier where
  value : String
  type : String
  schema : String
  extra : Members Json := []
deriving BEq

/-- Who created a dataset. -/
structure Creator where
  identifiers : List CreatorIdentifier := []
  extra : Members Json := []
deriving BEq

/-- The header of a dataset. -/
structure Header where
  version : String := ""
  /-- When the dataset was created, as a text. -/
  created : String := ""
  title : String := ""
  description : String := ""
  tags : List String := []
  related : List Json := []
  /-- Schemas by name. -/
  schemas : Members ValidationSchema := []
  integrity : Integrity := {}
  creator : Creator := {}
  transpilation : Option Json := none
  extra : Members Json := []
deriving BEq

/-! ## JSON forms -/

namespace ValidationSchema

def fieldNames : List String :=
  ["schemaType", "networkId", "hubContractAddress"]

def json (s : ValidationSchema) : Json :=
  Json.ofNullKeeping [("schemaType", some (.string s.schemaType)),
    ("networkId", some (.string s.networkId)),
    ("hubContractAddress", s.hubContractAddress.map .string)] s.extra

def ofJson? (json : Json) : Option ValidationSchema := do
  let members ← json.members?
  let schemaType ← Json.required members "schemaType" Json.string?
  let networkId ← Json.defaulted members "networkId" Json.string? ""
  let hubContractAddress ← Json.optional members "hubContractAddress"
    Json.string?
  some ⟨schemaType, networkId, hubContractAddress,
    Json.othersAndNulls fieldNames ["hubContractAddress"] members⟩

end ValidationSchema

namespace IntegrityProof

def fields : List (String × Json.Shape) :=
  [("proofValue", .any), ("proofType", .any), ("validationSchema", .any)]

/-- How a text is taken as a proof. -/
def shape : Json.Shape := .opened fields

def json (p : IntegrityProof) : Json :=
  Json.ofOpen [("proofValue", some (.string p.value)),
    ("proofType", some (.string p.type)),
    ("validationSchema", some (.string p.schema))] p.extra

def ofJson? (json : Json) : Option IntegrityProof := do
  let members ← json.members?
  let value ← Json.defaulted members "proofValue" Json.string? ""
  let type ← Json.required members "proofType" Json.string?
  let schema ← Json.required members "validationSchema" Json.string?
  some ⟨value, type, schema, Json.others (fields.map (·.1)) members⟩

/-- The proof that carries the root hash of a dataset. -/
def merkleRoot (value : String) : IntegrityProof :=
  { value := value, type := "merkleRootHash", schema := "/schemas/merkleRoot" }

end IntegrityProof

namespace Integrity

def fields : List (String × Json.Shape) :=
  [("proofs", .list IntegrityProof.shape)]

/-- How a text is taken as the proofs of integrity. -/
def shape : Json.Shape := .opened fields

def json (i : Integrity) : Json :=
  Json.ofOpen [("proofs", some (.array (i.proofs.map IntegrityProof.json)))]
    i.extra

def ofJson? (json : Json) : Option Integrity := do
  let members ← json.members?
  let proofs ← Json.defaulted members "proofs"
    (Json.listOf? IntegrityProof.ofJson?) []
  some ⟨proofs, Json.others (fields.map (·.1)) members⟩

end Integrity

namespace CreatorIdentifier

def fields : List (String × Json.Shape) :=
  [("identifierValue", .any), ("identifierType", .any),
    ("validationSchema", .any)]

/-- How a text is taken as an identifier of a creator. -/
def shape : Json.Shape := .opened fields

def json (i : CreatorIdentifier) : Json :=
  Json.ofOpen [("identifierValue", some (.string i.value)),
    ("identifierType", some (.string i.type)),
    ("validationSchema", some (.string i.schema))] i.extra

def ofJson? (json : Json) : Option CreatorIdentifier := do
  let members ← json.members?
  let value ← Json.required members "identifierValue" Json.string?
  let type ← Json.required members "identifierType" Json.string?
  let schema ← Json.required members "validationSchema" Json.string?
  some ⟨value, type, schema, Json.others (fields.map (·.1)) members⟩

/-- An identity on the chain. -/
def erc725 (identity : String) : CreatorIdentifier :=
  { value := identity, type := "ERC725", schema := "/schemas/erc725-main" }

end CreatorIdentifier

namespace Creator

def fields : List (String × Json.Shape) :=
  [("identifiers", .list CreatorIdentifier.shape)]

/-- How a text is taken as a creator. -/
def shape : Json.Shape := .opened fields

def json (c : Creator) : Json :=
  Json.ofOpen
    [("identifiers", some (.array (c.identifiers.map CreatorIdentifier.json)))]
      c.extra

def ofJson? (json : Json) : Option Creator := do
  let members ← json.members?
  let identifiers ←
    Json.defaulted members "identifiers"
      (Json.listOf? CreatorIdentifier.ofJson?) []
  some ⟨identifiers, Json.others (fields.map (·.1)) members⟩

end Creator

namespace Header

def fieldNames : List String :=
  ["OTJSONVersion", "datasetCreationTimestamp", "datasetTitle",
    "datasetDescription", "datasetTags", "relatedDatasets", "validationSchemas",
    "dataIntegrity", "dataCreator", "transpilationInfo"]

def json (h : Header) : Json :=
  Json.ofNullKeeping [("OTJSONVersion", some (.string h.version)),
    ("datasetCreationTimestamp", some (.string h.created)),
    ("datasetTitle", some (.string h.title)),
    ("datasetDescription", some (.string h.description)),
    ("datasetTags", some (Json.ofTexts h.tags)),
    ("relatedDatasets", some (.array h.related)),
    ("validationSchemas",
      some (.object (h.schemas.map fun schema => (schema.1, schema.2.json)))),
    ("dataIntegrity", some h.integrity.json),
    ("dataCreator", some h.creator.json),
    ("transpilationInfo", h.transpilation)] h.extra

def ofJson? (json : Json) : Option Header := do
  let members ← json.members?
  let version ← Json.defaulted members "OTJSONVersion" Json.string? ""
  let created ← Json.defaulted members "datasetCreationTimestamp"
    Json.string? ""
  let title ← Json.defaulted members "datasetTitle" Json.string? ""
  let description ← Json.defaulted members "datasetDescription" Json.string? ""
  let tags ← Json.defaulted members "datasetTags" (Json.listOf? Json.string?) []
  let related ← Json.defaulted members "relatedDatasets" Json.array? []
  let schemas ← Json.defaulted members "validationSchemas"
    (Json.tableOf? ValidationSchema.ofJson?) []
  let integrity ← Json.defaulted members "dataIntegrity" Integrity.ofJson? {}
  let creator ← Json.defaulted members "dataCreator" Creator.ofJson? {}
  let transpilation ← Json.optional members "transpilationInfo" some
  some ⟨version, created, title, description, tags, related, schemas,
    integrity, creator, transpilation,
    Json.othersAndNulls fieldNames ["transpilationInfo"] members⟩

/-! ## The root hash and the creator -/

/-- The value of the first proof, unless it is empty. -/
def rootText? (h : Header) : Option String := do
  let proof ← h.integrity.proofs.head?
  if proof.value = "" then none else some proof.value

/-- Sets the value of the first proof; if there is none, one is made. -/
def withRootText (h : Header) (value : String) : Header :=
  let proofs :=
    match h.integrity.proofs with
    | [] => [IntegrityProof.merkleRoot value]
    | proof :: rest => { proof with value := value } :: rest
  { h with integrity := { h.integrity with proofs := proofs } }

/-- The value of the creator's first identifier. -/
def creatorId (h : Header) : Except Error String :=
  match h.creator.identifiers.head? with
  | some identifier => .ok identifier.value
  | none => .error (.malformed .noCreator)

end Header
end SealedGraph
