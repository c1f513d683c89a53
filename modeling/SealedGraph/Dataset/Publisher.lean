import SealedGraph.Graph.Canonical
import SealedGraph.Private.Committer

/-!
# Publishers

A publisher has valid settings, and makes datasets of documents by them.  It
commits to the private entries of a document, and makes the public view, which
can be distributed, and the view of a holder.
-/

namespace SealedGraph

/-- Settings that have been checked. -/
structure Publisher where
  settings : Settings
  valid : settings.Valid

namespace Publisher

/-- A publisher for settings that pass their check. -/
def ofSettings (settings : Settings) : Except Error Publisher :=
  match h : settings.privacy.check with
  | .ok () => .ok ⟨settings, PrivacySettings.check_eq_ok.mp h⟩
  | .error e => .error e

/-- The part that deals with private entries. -/
def committer (p : Publisher) : Committer := ⟨p.settings.privacy, p.valid⟩

/-! ## Views of a document -/

/-- The document with a hash in every private entry. -/
def commit (p : Publisher) (d : Document) : Except Error Document := do
  let graph ← p.committer.commitGraph d.graph
  return { d with graph := graph }

/-- The public view: private entries have neither flag nor data. -/
def strip (p : Publisher) (d : Document) : Except Error Document := do
  let graph ← p.committer.stripGraph d.graph
  return { d with graph := graph }

/-- The view of a holder: flagged entries have no data. -/
def hide (p : Publisher) (d : Document) : Except Error Document := do
  let graph ← p.committer.hideGraph d.graph
  return { d with graph := graph }

/-- The ids of the objects that hold an entry flagged private. -/
def privateIds (p : Publisher) (d : Document) : Except Error (List String) :=
  p.committer.privateIds d.graph

/-- The digest of the public graph; it becomes the id of a dataset. -/
def publicHash (p : Publisher) (graph : List GraphObject) : Except Error Word :=
  do
  let stripped ← p.committer.stripGraph graph
  return graphHash stripped

end Publisher
end SealedGraph
