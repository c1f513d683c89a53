import SealedGraph.Json.Value

/-!
# What a JSON text says

A text that obeys the grammar need not denote a value everywhere: a number may
be beyond every double, an escape may name half of a surrogate pair, a
container may be nested too deeply.  Such places are holes.  Members stand in
the order of the text, with repetitions.

A hole makes a value unreadable, unless it stands in a member that the reader
of a closed record passes over.  The shape of a record says what is passed
over and where a repeated name is refused.
-/

namespace SealedGraph.Json

/-- A JSON text, read but not yet taken as a value. -/
inductive Source where
  | null
  | bool (value : Bool)
  | number (value : Number)
  | string (value : String)
  | array (items : List Source)
  /-- Members in the order of the text; a name may be a hole too. -/
  | object (members : List (Option String × Source))
  /-- Something that obeys the grammar and denotes no value. -/
  | hole

namespace Source

/-! ## The value of a source -/

mutual
/-- The value of a source without holes, in normal form. -/
def value? : Source → Option Json
  | .null => some .null
  | .bool value => some (.bool value)
  | .number value => some (.number value)
  | .string value => some (.string value)
  | .array items => (itemValues? items).map .array
  | .object members =>
      (memberValues? members).map fun pairs => .object (Members.ofList pairs)
  | .hole => none

/-- The values of all items. -/
def itemValues? : List Source → Option (List Json)
  | [] => some []
  | item :: rest => do
      let value ← value? item
      let values ← itemValues? rest
      some (value :: values)

/-- The names and values of all members. -/
def memberValues? :
    List (Option String × Source) → Option (List (String × Json))
  | [] => some []
  | (name?, item) :: rest => do
      let name ← name?
      let value ← value? item
      let values ← memberValues? rest
      some ((name, value) :: values)
end

mutual
/-- The source that says a value as it is. -/
def ofJson : Json → Source
  | .null => .null
  | .bool value => .bool value
  | .number value => .number value
  | .string value => .string value
  | .array items => .array (ofItems items)
  | .object members => .object (ofMembers members)

def ofItems : List Json → List Source
  | [] => []
  | item :: rest => ofJson item :: ofItems rest

def ofMembers : List (String × Json) → List (Option String × Source)
  | [] => []
  | (name, value) :: rest => (some name, ofJson value) :: ofMembers rest
end

/-- All names of an object, none being a hole. -/
def named? : List (Option String × Source) → Option (List (String × Source))
  | [] => some []
  | (name?, item) :: rest => do
      let name ← name?
      let others ← named? rest
      some ((name, item) :: others)

/-- Whether each of the names stands at most once among the members. -/
def distinct (names : List String) (members : List (String × Source)) : Bool :=
  names.all fun name =>
    (members.filter fun member => member.1 = name).length ≤ 1

end Source

/-- How a text is taken as a value of a record. -/
inductive Shape where
  /-- Any value. -/
  | any
  /-- A value that, if it is an object, has exactly one member in the text. -/
  | single
  /-- An array of things of one shape. -/
  | list (item : Shape)
  /-- A record of the named fields, other members being passed over; or its
  fields in order. -/
  | closed (fields : List (String × Shape))
  /-- A record of the named fields that keeps other members. -/
  | opened (fields : List (String × Shape))

namespace Shape

mutual
/-- The value of a source under a shape: holes and repeated names count only
where the shape looks at them. -/
def read? : Shape → Source → Option Json
  | .any, source => source.value?
  | .single, .object [member] => (Source.object [member]).value?
  | .single, .object _ => none
  | .single, source => source.value?
  | .list item, .array items => (items.mapM (read? item)).map .array
  | .list _, source => source.value?
  | .closed fields, .object members => do
      let named ← Source.named? members
      if Source.distinct (fields.map (·.1)) named then
        (readFields? fields named).map fun known =>
          .object (Members.ofList known)
      else none
  | .closed fields, .array items =>
      if items.length ≤ fields.length then (readItems? fields items).map .array
        else none
  | .closed _, source => source.value?
  | .opened fields, .object members => do
      let named ← Source.named? members
      if Source.distinct (fields.map (·.1)) named then
        let known ← readFields? fields named
        let others ← Source.memberValues? ((named.filter fun member =>
          !(fields.map (·.1)).contains member.1).map fun member =>
            (some member.1, member.2))
        some (.object (Members.ofList (known ++ others)))
      else none
  | .opened _, source => source.value?

/-- The members that are fields, each under the shape of its field. -/
def readFields? : List (String × Shape) → List (String × Source) →
    Option (List (String × Json))
  | [], _ => some []
  | (name, shape) :: rest, members =>
      match members.lookup name with
      | none => readFields? rest members
      | some item => do
          let value ← read? shape item
          let values ← readFields? rest members
          some ((name, value) :: values)

/-- Items that are fields in order, each under the shape of its field. -/
def readItems? : List (String × Shape) → List Source → Option (List Json)
  | (_, shape) :: rest, item :: items => do
      let value ← read? shape item
      let values ← readItems? rest items
      some (value :: values)
  | _, _ => some []
end

end Shape
end SealedGraph.Json
