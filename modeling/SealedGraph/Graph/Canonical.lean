import SealedGraph.Graph.Document

/-!
# The canonical form of a graph

Formatting completes objects.  Sorting puts relations and identifiers of each
object in the order of the digests of their texts, and objects in the order of
their ids; an object without id keeps its place.  The canonical text of a
document is that of the document with its graph sorted.
-/

namespace SealedGraph

/-! ## Formatting -/

/-- A relation with a direction. -/
def Relation.format (r : Relation) : Relation :=
  { r with direction := some (r.direction.getD Relation.defaultDirection) }

/-- An object with identifiers, relations with directions, and no empty
properties. -/
def GraphObject.format (o : GraphObject) : GraphObject :=
  if o.isOtObject then
    { o with
      identifiers := some (o.identifiers.getD [])
      properties := o.properties.filter fun properties => !properties.isEmpty
      relations := some ((o.relations.getD []).map Relation.format) }
  else o

/-- The document with its graph formatted. -/
def Document.format (d : Document) : Document :=
  { d with graph := d.graph.map GraphObject.format }

/-! ## Sorting -/

/-- The digest of the canonical text of a value. -/
def Json.digest (json : Json) : Word := sha3 json.canonicalBytes

/-- Sorts things by the digests of their texts; equal digests keep their
order. -/
def sortByDigest {α : Type} (json : α → Json) (items : List α) : List α :=
  ((items.map fun item => ((json item).digest, item)).mergeSort
    fun a b => a.1.le b.1).map (·.2)

/-- An object with its relations and identifiers sorted. -/
def GraphObject.sortParts (o : GraphObject) : GraphObject :=
  { o with
    relations := o.relations.map (sortByDigest Relation.json)
    identifiers :=
      o.identifiers.map (sortByDigest fun identifier => identifier) }

/-- Puts objects with an id, in the order given, into the places of objects with
an id. -/
def fillPlaces : List GraphObject → List GraphObject → List GraphObject
  | [], _ => []
  | place :: rest, identified =>
      if place.id = "" then place :: fillPlaces rest identified
      else
        match identified with
        | [] => place :: fillPlaces rest []
        | next :: others => next :: fillPlaces rest others

/-- Sorts objects by id; objects of one id keep their order, and objects without
id their place. -/
def sortById (graph : List GraphObject) : List GraphObject :=
  fillPlaces graph ((graph.filter fun o => o.id ≠ "").mergeSort fun a b =>
    decide (a.id ≤ b.id))

/-- Sorts a graph. -/
def sortGraph (graph : List GraphObject) : List GraphObject :=
  sortById (graph.map GraphObject.sortParts)

/-! ## Texts and digests -/

/-- A graph as JSON. -/
def graphJson (graph : List GraphObject) : Json :=
  .array (graph.map GraphObject.json)

/-- The canonical text of a graph. -/
def canonicalGraph (graph : List GraphObject) : String :=
  (graphJson (sortGraph graph)).canonicalText

/-- The document with its graph sorted. -/
def Document.sorted (d : Document) : Document :=
  { d with graph := sortGraph d.graph }

/-- The canonical text of a document, header and signature included. -/
def Document.canonicalText (d : Document) : String :=
  d.sorted.json.canonicalText

/-- The digest of the canonical text of a graph. -/
def graphHash (graph : List GraphObject) : Word :=
  sha3 (Bytes.ofText (canonicalGraph graph))

end SealedGraph
