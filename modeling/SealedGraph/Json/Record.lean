import SealedGraph.Json.Value

/-!
# Records as JSON values

A closed record is an object, or an array of its fields in order.  An open
record is an object and keeps the members it does not know.  A record that
keeps nulls parks the `null` of an optional field among those other members,
and writes it back for as long as the field has no value.
-/

namespace SealedGraph.Json

/-- The fields of a closed record: the members of an object, or the items of an
array under the names of the fields in order, of which the last may be left
out. -/
def closed? (names : List String) : Json → Option (Members Json)
  | .object members => some members
  | .array items =>
      if items.length ≤ names.length then some (names.zip items) else none
  | _ => none

/-- A field that must be there. -/
def required {α : Type} (members : Members Json) (name : String)
    (read : Json → Option α) :
    Option α :=
  (members.lookup name).bind read

/-- A field that has a default when it is left out. -/
def defaulted {α : Type} (members : Members Json) (name : String)
    (read : Json → Option α) (default : α) : Option α :=
  match members.lookup name with
  | none => some default
  | some value => read value

/-- A field that may be left out or `null`. -/
def optional {α : Type} (members : Members Json) (name : String)
    (read : Json → Option α) :
    Option (Option α) :=
  match members.lookup name with
  | none => some none
  | some .null => some none
  | some value => (read value).map some

/-- Reads every item of an array. -/
def listOf? {α : Type} (read : Json → Option α) (json : Json) :
    Option (List α) :=
  json.array?.bind (·.mapM read)

/-- Reads every member of an object. -/
def tableOf? {α : Type} (read : Json → Option α) (json : Json) :
    Option (Members α) :=
  json.members?.bind (·.mapM fun member => (read member.2).map (member.1, ·))

/-- The members that no field of an open record takes up. -/
def others (fields : List String) (members : Members Json) : Members Json :=
  members.filter fun member => !fields.contains member.1

/-- The members that no field takes up, and the nulls of optional fields. -/
def othersAndNulls (fields nullable : List String) (members : Members Json) :
    Members Json :=
  members.filter fun member =>
    !fields.contains member.1 || (nullable.contains member.1 && member.2.isNull)

/-- The fields that have a value. -/
def present (fields : List (String × Option Json)) : List (String × Json) :=
  fields.filterMap fun field => field.2.map (field.1, ·)

/-- An open record: the fields that have a value, and the other members. -/
def ofOpen (fields : List (String × Option Json)) (extra : Members Json) :
    Json :=
  .object (Members.ofList (present fields ++ extra))

/-- Other members without the parked nulls of fields that have a value. -/
def unshadowed (fields : List (String × Option Json)) (extra : Members Json) :
    Members Json :=
  extra.filter fun member =>
    !(member.2.isNull && (present fields).any fun field => field.1 = member.1)

/-- A record that keeps nulls: the fields that have a value, the other members,
and the parked nulls of fields without a value. -/
def ofNullKeeping (fields : List (String × Option Json))
    (extra : Members Json) : Json :=
  ofOpen fields (unshadowed fields extra)

/-- A record with exactly the given fields. -/
def ofFields (fields : List (String × Json)) : Json :=
  .object (Members.ofList fields)

end SealedGraph.Json
