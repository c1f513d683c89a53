import SealedGraph.Dataset.Authorship
import SealedGraph.Dataset.Description
import SealedGraph.Dataset.Distribution

/-!
# Preparing a dataset

A raw document becomes a dataset in one go: private entries are committed to,
the digest of the public graph becomes the id, a new header takes over what an
old one said, and root hash and signature follow.  Nothing else of the raw
document is kept.
-/

namespace SealedGraph.Publisher

/-- The type of a dataset. -/
def datasetType : String := "Dataset"

/-- What the header of a raw document says, if there is one. -/
def descriptionOf (d : Document) : Description :=
  match d.header with
  | some header => header.describe
  | none => {}

/-- The dataset of a raw document, before root hash and signature. -/
def draft (p : Publisher) (d : Document) (created : Instant) :
    Except Error Document := do
  let graph ← p.committer.commitGraph d.graph
  let id ← p.publicHash graph
  return {
    id := some id.text
    type := some datasetType
    header := some (p.header (descriptionOf d) created)
    graph := graph }

/-- Makes a signed dataset of a raw document. -/
def prepare (p : Publisher) (d : Document) (key : Ecdsa.PrivateKey)
    (created : Instant) :
    Except Error Document := do
  let draft ← p.draft d created
  let sealed ← p.withRootHash draft
  p.sign sealed key

end SealedGraph.Publisher
