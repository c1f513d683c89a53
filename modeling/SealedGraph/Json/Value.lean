import SealedGraph.Decimal.Binary64
import SealedGraph.Json.Members

/-!
# JSON values

Integers of 64 bits, with or without sign, are kept apart from numbers with a
fraction or an exponent, which are finite doubles: `2` and `2.0` differ.  The
members of an object are a list; a value is in normal form when the members of
all its objects are in ascending order.
-/

namespace SealedGraph

/-- An integer of 64 bits, with or without sign. -/
structure Json.Integer where
  value : Int
  least : -9223372036854775808 ≤ value
  greatest : value < 18446744073709551616
deriving DecidableEq

/-- A JSON number. -/
inductive Json.Number where
  | integer (n : Json.Integer)
  | float (x : Binary64)
deriving DecidableEq

/-- A JSON value. -/
inductive Json where
  | null
  | bool (value : Bool)
  | number (value : Json.Number)
  | string (value : String)
  | array (items : List Json)
  | object (members : List (String × Json))

namespace Json

instance : Inhabited Json := ⟨.null⟩

/-- The integer of a 64-bit word. -/
def Integer.ofWord (n : UInt64) : Integer :=
  ⟨n.toNat, by omega, by have := n.toNat_lt; omega⟩

/-- A 64-bit word as a JSON number. -/
def ofWord (n : UInt64) : Json := .number (.integer (.ofWord n))

/-- A number of things held in memory. -/
def ofCount (n : Nat) : Json := ofWord (UInt64.ofNat n)

/-- A list of texts. -/
def ofTexts (texts : List String) : Json := .array (texts.map .string)

/-! ## Views of one kind -/

/-- Whether a value is `null`. -/
def isNull : Json → Bool
  | .null => true
  | _ => false

def bool? : Json → Option Bool
  | .bool value => some value
  | _ => none

def string? : Json → Option String
  | .string value => some value
  | _ => none

def array? : Json → Option (List Json)
  | .array items => some items
  | _ => none

def members? : Json → Option (Members Json)
  | .object members => some members
  | _ => none

/-- A non-negative integer; a number with a fraction is none, even if the
fraction is zero. -/
def nat? : Json → Option Nat
  | .number (.integer n) => if 0 ≤ n.value then some n.value.toNat else none
  | _ => none

/-- A non-negative integer as a word of 64 bits. -/
def word? (json : Json) : Option UInt64 := json.nat?.map UInt64.ofNat

/-- The member of a name, if the value is an object that has one. -/
def get? (json : Json) (name : String) : Option Json :=
  json.members?.bind (·.lookup name)

/-! ## Measures -/

mutual
/-- How many arrays and objects stand inside each other. -/
def depth : Json → Nat
  | .array items => depthItems items + 1
  | .object members => depthMembers members + 1
  | _ => 0

/-- The greatest depth of the items. -/
def depthItems : List Json → Nat
  | [] => 0
  | item :: rest => max (depth item) (depthItems rest)

/-- The greatest depth of the members' values. -/
def depthMembers : List (String × Json) → Nat
  | [] => 0
  | (_, value) :: rest => max (depth value) (depthMembers rest)
end

/-! ## Normal form -/

mutual
/-- The same value with the members of every object in ascending order; of
several members with one name the last is kept. -/
def normalize : Json → Json
  | .array items => .array (normalizeItems items)
  | .object members => .object (Members.ofList (normalizeMembers members))
  | .null => .null
  | .bool value => .bool value
  | .number value => .number value
  | .string value => .string value

/-- Every item in normal form. -/
def normalizeItems : List Json → List Json
  | [] => []
  | item :: rest => normalize item :: normalizeItems rest

/-- Every member's value in normal form. -/
def normalizeMembers : List (String × Json) → List (String × Json)
  | [] => []
  | (name, value) :: rest => (name, normalize value) :: normalizeMembers rest
end

/-! ## Equality of numbers by value -/

/-- Whether two numbers are equal; the two zeros with a fraction are, an integer
and a number with a fraction are not. -/
def Number.same : Number → Number → Bool
  | .integer m, .integer n => m == n
  | .float x, .float y => x.same y
  | _, _ => false

mutual
/-- Whether two values are equal, member by member, numbers being compared by
value. -/
def same : Json → Json → Bool
  | .null, .null => true
  | .bool a, .bool b => a == b
  | .number a, .number b => a.same b
  | .string a, .string b => a == b
  | .array a, .array b => sameItems a b
  | .object a, .object b => sameMembers a b
  | _, _ => false

def sameItems : List Json → List Json → Bool
  | [], [] => true
  | a :: as, b :: bs => same a b && sameItems as bs
  | _, _ => false

def sameMembers : List (String × Json) → List (String × Json) → Bool
  | [], [] => true
  | (m, a) :: as, (n, b) :: bs => m == n && same a b && sameMembers as bs
  | _, _ => false
end

instance : BEq Json := ⟨same⟩

end Json
end SealedGraph
