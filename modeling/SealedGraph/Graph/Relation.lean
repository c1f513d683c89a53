import SealedGraph.Json.Record

/-!
# Relations

A relation leads from a graph object to the object that it names.
-/

namespace SealedGraph

/-- A relation of a graph object. -/
structure Relation where
  type : Option String := none
  /-- The object that the relation leads to. -/
  linkedObject : Option Json := none
  direction : Option String := none
  properties : Option Json := none
  /-- Other members, and the parked nulls of the fields above. -/
  extra : Members Json := []
deriving BEq

namespace Relation

/-- The direction of a relation that names none. -/
def defaultDirection : String := "direct"

/-- A relation to the object of an id. -/
def leadingTo (target : String) : Relation :=
  { type := some "otRelation",
    linkedObject := some (.object [("@id", .string target)]) }

/-- The id of the object that the relation leads to. -/
def linkedId? (r : Relation) : Option String := do
  let linked ← r.linkedObject
  let id ← linked.get? "@id"
  id.string?

/-! ## JSON form -/

/-- All fields are optional, and an explicit `null` of each is kept. -/
def fieldNames : List String :=
  ["@type", "linkedObject", "direction", "properties"]

def json (r : Relation) : Json :=
  Json.ofNullKeeping [("@type", r.type.map .string),
    ("linkedObject", r.linkedObject), ("direction", r.direction.map .string),
    ("properties", r.properties)] r.extra

def ofJson? (json : Json) : Option Relation := do
  let members ← json.members?
  let type ← Json.optional members "@type" Json.string?
  let linkedObject ← Json.optional members "linkedObject" some
  let direction ← Json.optional members "direction" Json.string?
  let properties ← Json.optional members "properties" some
  some ⟨type, linkedObject, direction, properties,
    Json.othersAndNulls fieldNames fieldNames members⟩

end Relation
end SealedGraph
