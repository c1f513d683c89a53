import SealedGraph.Graph.Header
import SealedGraph.Graph.Object
import SealedGraph.Json.Parser

/-!
# Documents

A document is a graph with an id, a type, a header and a signature, all of
which may be missing, and with whatever else it is given.
-/

namespace SealedGraph

/-- A signature and the name of its scheme. -/
structure Signature where
  value : String
  type : String
deriving BEq, DecidableEq

/-- A document. -/
structure Document where
  id : Option String := none
  type : Option String := none
  header : Option Header := none
  graph : List GraphObject := []
  signature : Option Signature := none
  /-- Other members, and the parked nulls of the optional fields above. -/
  extra : Members Json := []
deriving BEq

namespace Signature

/-- The scheme of the signatures that this library makes. -/
def scheme : String := "ethereum-signature"

def fields : List (String × Json.Shape) := [("value", .any), ("type", .any)]

/-- How a text is taken as a signature. -/
def shape : Json.Shape := .closed fields

def json (s : Signature) : Json :=
  Json.ofFields [("value", .string s.value), ("type", .string s.type)]

def ofJson? (json : Json) : Option Signature := do
  let members ← json.closed? (fields.map (·.1))
  let value ← Json.required members "value" Json.string?
  let type ← Json.required members "type" Json.string?
  some ⟨value, type⟩

end Signature

namespace Document

/-- The fields of which an explicit `null` is kept. -/
def nullable : List String := ["@id", "@type", "datasetHeader", "signature"]

def fieldNames : List String := "@graph" :: nullable

def json (d : Document) : Json :=
  Json.ofNullKeeping [("@id", d.id.map .string), ("@type", d.type.map .string),
    ("datasetHeader", d.header.map Header.json),
    ("@graph", some (.array (d.graph.map GraphObject.json))),
    ("signature", d.signature.map Signature.json)] d.extra

/-- Reads a document from a value in normal form. -/
def ofNormal? (json : Json) : Option Document := do
  let members ← json.members?
  let id ← Json.optional members "@id" Json.string?
  let type ← Json.optional members "@type" Json.string?
  let header ← Json.optional members "datasetHeader" Header.ofJson?
  let graph ← Json.defaulted members "@graph" (Json.listOf? GraphObject.ofJson?)
    []
  let signature ← Json.optional members "signature" Signature.ofJson?
  some ⟨id, type, header, graph, signature,
    Json.othersAndNulls fieldNames nullable members⟩

/-- Reads a document from a value. -/
def ofJson (json : Json) : Except Error Document :=
  match ofNormal? json.normalize with
  | some d => .ok d
  | none => .error (.malformed .unreadable)

/-- Reads a document from a text. -/
def parse (text : String) : Except Error Document :=
  match Json.parse? text with
  | some json => ofJson json
  | none => .error (.malformed .unreadable)

end Document
end SealedGraph
