import SealedGraph.Graph.Object
import SealedGraph.Merkle.Tree
import SealedGraph.Private.Blocks
import SealedGraph.Private.Entry

/-!
# Committing to private entries

The canonical text of an entry's data is cut into blocks, and the root of the
tree on these blocks commits to it.  Over a graph, every entry of every private
property is visited, objects in order, properties in order of their names,
entries in order of their index; the first failure ends the visit.
-/

namespace SealedGraph

/-- Valid settings for private data, by which entries are committed to. -/
structure Committer where
  privacy : PrivacySettings
  valid : privacy.Valid

namespace Committer

/-- A committer for settings that pass their check. -/
def ofSettings (privacy : PrivacySettings) : Except Error Committer :=
  match h : privacy.check with
  | .ok () => .ok ⟨privacy, PrivacySettings.check_eq_ok.mp h⟩
  | .error e => .error e

/-! ## One entry -/

/-- The bytes that are committed to: the canonical text of the data. -/
def payload (entry : PrivateEntry) : Except Error Bytes :=
  match entry.payload? with
  | some data => .ok data.canonicalBytes
  | none => .error (.emptyEntry none)

/-- The tree on the blocks of an entry's payload. -/
def tree (c : Committer) (entry : PrivateEntry) : Except Error Merkle.Tree := do
  let payload ← payload entry
  let leaves ← Blocks.splitLeaves payload c.privacy
  return Merkle.Tree.build leaves

/-- The root of that tree. -/
def hash (c : Committer) (entry : PrivateEntry) : Except Error Word := do
  let tree ← c.tree entry
  return tree.root

/-- The entry with the hash that commits to its data. -/
def commit (c : Committer) (entry : PrivateEntry) : Except Error PrivateEntry :=
  do
  let hash ← c.hash entry
  return { entry with hash := some hash }

/-! ## All entries of an object -/

/-- Reads an entry of a graph. -/
def readEntry (slot : Slot) (json : Json) : Except Error PrivateEntry :=
  (PrivateEntry.read json).mapError fun cause => .malformed (.entry slot cause)

/-- Changes the entries of a property, the first of which has the given
index. -/
def mapEntries (change : Slot → PrivateEntry → Except Error PrivateEntry)
    (objectId property : String) :
    (index : Nat) → List Json → Except Error (List Json)
  | _, [] => .ok []
  | index, json :: rest => do
      let slot : Slot := ⟨objectId, property, index⟩
      let entry ← readEntry slot json
      let changed ← change slot entry
      let others ← mapEntries change objectId property (index + 1) rest
      return changed.json :: others

/-- Changes the entries of a property if it is private. -/
def mapProperty (c : Committer)
    (change : Slot → PrivateEntry → Except Error PrivateEntry)
    (objectId : String) (property : String × Json) :
    Except Error (String × Json) :=
  if c.privacy.isPrivate property.1 then
    match property.2 with
    | .array entries => do
        let changed ← mapEntries change objectId property.1 0 entries
        return (property.1, .array changed)
    | _ => .error (.malformed (.notArray objectId property.1))
  else .ok property

/-- Changes the private entries of an object; an object without properties has
none. -/
def mapObject (c : Committer)
    (change : Slot → PrivateEntry → Except Error PrivateEntry)
    (o : GraphObject) : Except Error GraphObject :=
  match o.properties with
  | none => .ok o
  | some properties => do
      let changed ← properties.mapM (c.mapProperty change o.id)
      return { o with properties := some changed }

/-- The entries of a property, the first of which has the given index. -/
def listEntries (objectId property : String) : (index : Nat) → List Json →
    Except Error (List (Slot × PrivateEntry))
  | _, [] => .ok []
  | index, json :: rest => do
      let slot : Slot := ⟨objectId, property, index⟩
      let entry ← readEntry slot json
      let others ← listEntries objectId property (index + 1) rest
      return (slot, entry) :: others

/-- The entries of a property if it is private. -/
def propertyEntries (c : Committer) (objectId : String)
    (property : String × Json) :
    Except Error (List (Slot × PrivateEntry)) :=
  if c.privacy.isPrivate property.1 then
    match property.2 with
    | .array entries => listEntries objectId property.1 0 entries
    | _ => .error (.malformed (.notArray objectId property.1))
  else .ok []

/-- All private entries of an object with their slots. -/
def objectEntries (c : Committer) (o : GraphObject) :
    Except Error (List (Slot × PrivateEntry)) :=
  match o.properties with
  | none => .ok []
  | some properties => do
      let entries ← properties.mapM (c.propertyEntries o.id)
      return entries.flatten

/-- All private entries of a graph with their slots. -/
def entries (c : Committer) (graph : List GraphObject) :
    Except Error (List (Slot × PrivateEntry)) := do
  let entries ← graph.mapM c.objectEntries
  return entries.flatten

/-! ## Views of a graph -/

/-- Commits to an entry of a graph; one without data keeps the hash that it must
have. -/
def commitAt (c : Committer) (slot : Slot) (entry : PrivateEntry) :
    Except Error PrivateEntry :=
  match entry.payload?, entry.hash with
  | some _, _ => c.commit entry
  | none, some _ => .ok entry
  | none, none => .error (.emptyEntry (some slot))

/-- The graph with a hash in every private entry. -/
def commitGraph (c : Committer) (graph : List GraphObject) :
    Except Error (List GraphObject) :=
  graph.mapM (c.mapObject c.commitAt)

/-- The public form of a graph: entries without flag and data. -/
def stripGraph (c : Committer) (graph : List GraphObject) :
    Except Error (List GraphObject) :=
  graph.mapM (c.mapObject fun _ entry => .ok entry.stripped)

/-- The holder's form of a graph: flagged entries without data. -/
def hideGraph (c : Committer) (graph : List GraphObject) :
    Except Error (List GraphObject) :=
  graph.mapM (c.mapObject fun _ entry => .ok entry.hidden)

/-- Whether an entry stands in an object of an id and is committed to a hash. -/
def isCommittedAs (objectId : String) (hash : Word) (slot : Slot)
    (entry : PrivateEntry) : Bool :=
  slot.objectId = objectId && entry.hash = some hash

/-- Puts data back into the entries of an object that are committed to it. -/
def restoreGraph (c : Committer) (graph : List GraphObject) (objectId : String)
    (data : Json) :
    Except Error (List GraphObject) := do
  let hash ← c.hash (PrivateEntry.new data)
  let restored ← graph.mapM (c.mapObject fun slot entry =>
    .ok (if isCommittedAs objectId hash slot entry then
      { entry.withData data with flag := some true } else entry))
  let entries ← c.entries graph
  if entries.any fun found => isCommittedAs objectId hash found.1 found.2
    then return restored
  else .error (.mismatch (.nothingCommitted objectId hash))

/-- The ids of the objects that hold an entry flagged private, in the order of
their first such entry, each once. -/
def privateIds (c : Committer) (graph : List GraphObject) :
    Except Error (List String) := do
  let entries ← c.entries graph
  return ((entries.filter fun found => found.2.isPrivate).map fun found =>
    found.1.objectId).eraseDups

end Committer
end SealedGraph
