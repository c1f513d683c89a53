import SealedGraph.Graph.Relation

/-!
# Graph objects

The objects of a graph have an id, a type, identifiers, properties and
relations, all of which may be left out, and keep whatever else they are given.
-/

namespace SealedGraph

/-- An object of the graph.  An empty id stands for none. -/
structure GraphObject where
  id : String := ""
  type : Option String := none
  identifiers : Option (List Json) := none
  properties : Option (Members Json) := none
  relations : Option (List Relation) := none
  /-- Other members, and the parked nulls of the fields above. -/
  extra : Members Json := []
deriving BEq

namespace GraphObject

/-- The type of the objects that formatting completes. -/
def otType : String := "otObject"

/-- An object of that type. -/
def new (id : String) : GraphObject := { id := id, type := some otType }

/-- The object with one more identifier. -/
def withIdentifier (o : GraphObject) (identifier : Json) : GraphObject :=
  { o with identifiers := some (o.identifiers.getD [] ++ [identifier]) }

/-- The object with a property set. -/
def withProperty (o : GraphObject) (name : String) (value : Json) :
    GraphObject :=
  { o with
    properties := some (Members.insert name value (o.properties.getD [])) }

/-- The object with one more relation. -/
def withRelation (o : GraphObject) (relation : Relation) : GraphObject :=
  { o with relations := some (o.relations.getD [] ++ [relation]) }

/-- Whether formatting completes the object. -/
def isOtObject (o : GraphObject) : Bool := o.type == some otType

/-- The number of relations. -/
def relationCount (o : GraphObject) : Nat := (o.relations.getD []).length

/-! ## JSON form -/

/-- All fields are optional, and an explicit `null` of each is kept. -/
def fieldNames : List String :=
  ["@id", "@type", "identifiers", "properties", "relations"]

def json (o : GraphObject) : Json :=
  Json.ofNullKeeping [("@id", if o.id = "" then none else some (.string o.id)),
    ("@type", o.type.map .string), ("identifiers", o.identifiers.map .array),
    ("properties", o.properties.map .object),
    ("relations", o.relations.map fun relations =>
      .array (relations.map Relation.json))] o.extra

def ofJson? (json : Json) : Option GraphObject := do
  let members ← json.members?
  let id ← Json.optional members "@id" Json.string?
  let type ← Json.optional members "@type" Json.string?
  let identifiers ← Json.optional members "identifiers" Json.array?
  let properties ← Json.optional members "properties" Json.members?
  let relations ← Json.optional members "relations"
    (Json.listOf? Relation.ofJson?)
  some ⟨id.getD "", type, identifiers, properties, relations,
    Json.othersAndNulls fieldNames fieldNames members⟩

end GraphObject
end SealedGraph
