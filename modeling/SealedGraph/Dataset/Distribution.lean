import SealedGraph.Dataset.Publisher
import SealedGraph.Merkle.Inclusion

/-!
# Distribution trees

The public part of a dataset is bound by a tree.  Its first leaf belongs to a
summary of the dataset, each further leaf to an object of the public graph in
sorted order.  The root stands in the header, and the proof for a leaf shows
that an object belongs to the dataset.
-/

namespace SealedGraph

namespace GraphObject

/-- What the summary says of an object. -/
def summary (o : GraphObject) : Json :=
  Json.ofFields [("@id", .string o.id),
    ("identifiers", .array (o.identifiers.getD []))]

end GraphObject

/-- The number of relations in a graph. -/
def relationTotal (graph : List GraphObject) : Nat :=
  (graph.flatMap fun o => o.relations.getD []).length

/-- The summary of a dataset over its public graph in sorted order. -/
def summary (graph : List GraphObject) (datasetId : String)
    (creator : Creator) : Json :=
  Json.ofFields [("datasetId", .string datasetId),
    ("datasetCreator", creator.json),
    ("objects", .array (graph.map GraphObject.summary)),
    ("numRelations", Json.ofCount (relationTotal graph))]

/-- What a distribution tree stands on: the summary, and the public graph in
sorted order. -/
structure Distribution where
  summary : Json
  graph : List GraphObject

namespace Distribution

/-- What is hashed for the leaves: the canonical texts of the summary and of the
objects. -/
def items (d : Distribution) : List Bytes :=
  (d.summary :: d.graph.map GraphObject.json).map Json.canonicalBytes

/-- The distribution tree. -/
def tree (d : Distribution) : Merkle.Tree := Merkle.Tree.ofData d.items

/-- The proof for the first object of an id. -/
def inclusion (d : Distribution) (objectId : String) :
    Except Error Merkle.Inclusion :=
  match d.graph.findIdx? fun o => o.id = objectId with
  | none => .error (.malformed (.noObject objectId))
  | some index =>
      match d.tree.inclusion? (index + 1) with
      | none => .error (.malformed (.noLeaf objectId))
      | some proof => .ok proof

end Distribution

namespace Document

/-- The header, which a dataset must have. -/
def requireHeader (d : Document) : Except Error Header :=
  match d.header with
  | some header => .ok header
  | none => .error (.malformed .noHeader)

/-- The document with a root hash in its header. -/
def withRootText (d : Document) (text : String) : Document :=
  { d with header := d.header.map (·.withRootText text) }

end Document

namespace Publisher

/-- What the distribution tree of a dataset stands on. -/
def distribution (p : Publisher) (d : Document) : Except Error Distribution :=
  do
  match d.id with
  | none => .error (.malformed .noId)
  | some datasetId =>
      let header ← d.requireHeader
      let stripped ← p.committer.stripGraph d.graph
      let graph := sortGraph stripped
      return ⟨summary graph datasetId header.creator, graph⟩

/-- The root of the distribution tree. -/
def rootHash (p : Publisher) (d : Document) : Except Error Word := do
  let distribution ← p.distribution d
  return distribution.tree.root

/-- The dataset with its root hash in the header. -/
def withRootHash (p : Publisher) (d : Document) : Except Error Document := do
  let root ← p.rootHash d
  return d.withRootText root.text

/-- Compares the root hash in the header with the one of the graph. -/
def verifyRootHash (p : Publisher) (d : Document) : Except Error Word := do
  let header ← d.requireHeader
  match header.rootText? with
  | none => .error (.malformed .noRootHash)
  | some text =>
      let claimed ← Word.ofText text
      let actual ← p.rootHash d
      if actual = claimed then return actual
      else .error (.hash (.rootMismatch claimed actual))

/-- The proof that an object belongs to a dataset. -/
def objectProof (p : Publisher) (d : Document) (objectId : String) :
    Except Error Merkle.Inclusion := do
  let distribution ← p.distribution d
  distribution.inclusion objectId

end Publisher
end SealedGraph
