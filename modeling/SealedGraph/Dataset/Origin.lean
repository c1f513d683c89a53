import SealedGraph.Error
import SealedGraph.Json.Source

/-!
# Origins of datasets

A dataset was bought, is held for others, or was imported here.  For each
origin a ledger knows the transactions behind datasets.
-/

namespace SealedGraph

/-- How a dataset came here. -/
inductive Origin where
  /-- Bought from another node. -/
  | purchased
  /-- Replicated to this node. -/
  | holding
  /-- Imported and published by this node. -/
  | imported
deriving DecidableEq

namespace Origin

/-- The tag of an origin. -/
def tag : Origin → String
  | purchased => "PURCHASED"
  | holding => "HOLDING"
  | imported => "IMPORTED"

/-- The origin of a tag. -/
def ofTag? (tag : String) : Option Origin :=
  [purchased, holding, imported].find? fun origin => origin.tag = tag

/-- Reads a tag. -/
def parse (tag : String) : Except Error Origin :=
  match ofTag? tag with
  | some origin => .ok origin
  | none => .error (.unsupportedOrigin tag)

/-! ## JSON form -/

/-- How a text is taken as an origin. -/
def shape : Json.Shape := .single

def json (origin : Origin) : Json := .string origin.tag

/-- An origin is its tag, or an object of one member whose name is the tag and
whose value is `null`. -/
def ofJson? : Json → Option Origin
  | .string tag => ofTag? tag
  | .object [(tag, .null)] => ofTag? tag
  | _ => none

end Origin

/-- Transactions by the id of a dataset, one look-up per origin. -/
structure Ledger where
  purchased : String → Except Error (Option String)
  holding : String → Except Error (Option String)
  imported : String → Except Error (Option String)

/-- The transaction behind a dataset of some origin. -/
def Ledger.transaction (l : Ledger) (datasetId : String) :
    Origin → Except Error (Option String)
  | .purchased => l.purchased datasetId
  | .holding => l.holding datasetId
  | .imported => l.imported datasetId

end SealedGraph
