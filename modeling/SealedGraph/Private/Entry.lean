import SealedGraph.Error
import SealedGraph.Hash.WordJson
import SealedGraph.Json.Source

/-!
# Private entries

A private entry stands in a property of a graph object.  It begins with a flag
and data, gets the hash that commits to the data, and loses flag and data when
it is published.  A holder keeps the flag and loses the data.
-/

namespace SealedGraph

/-- A private entry. -/
structure PrivateEntry where
  /-- The flag `isPrivate`. -/
  flag : Option Bool := none
  data : Option Json := none
  /-- The hash that commits to the data. -/
  hash : Option Word := none
  /-- Members that this library does not know. -/
  extra : Members Json := []
deriving BEq

namespace PrivateEntry

/-- A fresh entry, flagged private. -/
def new (data : Json) : PrivateEntry := { flag := some true, data := some data }

/-- Whether the entry is flagged private. -/
def isPrivate (e : PrivateEntry) : Bool := e.flag.getD false

/-- The data, unless it is absent or `null`. -/
def payload? (e : PrivateEntry) : Option Json :=
  e.data.filter fun data => !data.isNull

/-- The public form: neither flag nor data. -/
def stripped (e : PrivateEntry) : PrivateEntry :=
  { e with flag := none, data := none }

/-- The holder's form: a private entry has no data. -/
def hidden (e : PrivateEntry) : PrivateEntry :=
  if e.isPrivate then { e with data := none } else e

/-- The entry with data that came from elsewhere. -/
def withData (e : PrivateEntry) (data : Json) : PrivateEntry :=
  { e with data := some data }

/-! ## JSON form -/

def fields : List (String × Json.Shape) :=
  [("isPrivate", .any), ("data", .any), ("private_data_hash", .any)]

/-- How a text is taken as an entry. -/
def shape : Json.Shape := .opened fields

def json (e : PrivateEntry) : Json :=
  Json.ofOpen [("isPrivate", e.flag.map .bool), ("data", e.data),
    ("private_data_hash", e.hash.map Word.json)] e.extra

def ofJson? (json : Json) : Option PrivateEntry := do
  let members ← json.members?
  let flag ← Json.optional members "isPrivate" Json.bool?
  let data ← Json.optional members "data" some
  let hash ← Json.optional members "private_data_hash" Word.ofJson?
  some ⟨flag, data, hash, Json.others (fields.map (·.1)) members⟩

/-- Reads an entry of a graph, or says why it is none. -/
def read (json : Json) : Except Malformed PrivateEntry :=
  match json.members? with
  | none => .error (.entryNotObject json)
  | some _ =>
      match ofJson? json with
      | none => .error .unreadable
      | some entry => .ok entry

end PrivateEntry
end SealedGraph
