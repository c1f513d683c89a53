import SealedGraph.Hash.WordJson
import SealedGraph.Json.Source
import SealedGraph.Merkle.Tree

/-!
# Inclusion proofs

A proof names a leaf, its index, and the sibling at every level below the
root.  It is checked by recomputing the root.
-/

namespace SealedGraph.Merkle

/-- A sibling on the way from a leaf to the root. -/
structure Step where
  sibling : Word
  /-- Whether the sibling is the left one of the two nodes. -/
  siblingIsLeft : Bool
deriving DecidableEq

/-- A proof that a leaf stands in a tree. -/
structure Inclusion where
  leaf : Word
  index : Nat
  path : List Step
deriving DecidableEq

/-- The node above a node, given its sibling. -/
def Step.up (node : Word) (step : Step) : Word :=
  if step.siblingIsLeft then combine step.sibling node
    else combine node step.sibling

namespace Inclusion

/-- The root that a proof leads to. -/
def root (p : Inclusion) : Word := p.path.foldl Step.up p.leaf

/-- Whether a proof leads to a given root. -/
def verifies (p : Inclusion) (root : Word) : Bool := p.root = root

end Inclusion

/-- The siblings met on the way up from a position of the lowest of some levels.
None if a position is not there; an unpaired last node is its own sibling. -/
def siblings? : (position : Nat) → List (List Word) → Option (List Step)
  | _, [] => some []
  | _, [_] => some []
  | position, level :: next :: rest => do
      let sibling ←
        if position % 2 = 0 then (level[position + 1]?).or level[position]?
        else level[position - 1]?
      let steps ← siblings? (position / 2) (next :: rest)
      some (⟨sibling, position % 2 = 1⟩ :: steps)

/-- The proof for the leaf of an index; none if there is no such leaf. -/
def Tree.inclusion? (t : Tree) (index : Nat) : Option Inclusion := do
  let leaf ← t.leaves[index]?
  let path ← siblings? index t.levels
  some ⟨leaf, index, path⟩

/-! ## JSON form -/

def Step.fields : List (String × Json.Shape) :=
  [("sibling", .any), ("sibling_is_left", .any)]

def Step.json (step : Step) : Json :=
  Json.ofFields [("sibling", step.sibling.json),
    ("sibling_is_left", .bool step.siblingIsLeft)]

def Step.ofJson? (json : Json) : Option Step := do
  let members ← json.closed? (fields.map (·.1))
  let sibling ← Json.required members "sibling" Word.ofJson?
  let isLeft ← Json.required members "sibling_is_left" Json.bool?
  some ⟨sibling, isLeft⟩

namespace Inclusion

def fields : List (String × Json.Shape) :=
  [("leaf", .any), ("index", .any), ("path", .list (.closed Step.fields))]

/-- How a text is taken as a proof. -/
def shape : Json.Shape := .closed fields

def json (p : Inclusion) : Json :=
  Json.ofFields [("leaf", p.leaf.json), ("index", Json.ofCount p.index),
    ("path", .array (p.path.map Step.json))]

def ofJson? (json : Json) : Option Inclusion := do
  let members ← json.closed? (fields.map (·.1))
  let leaf ← Json.required members "leaf" Word.ofJson?
  let index ← Json.required members "index" Json.nat?
  let path ← Json.required members "path" (Json.listOf? Step.ofJson?)
  some ⟨leaf, index, path⟩

end Inclusion
end SealedGraph.Merkle
