import SealedGraph.Dataset.Instant
import SealedGraph.Dataset.Publisher

/-!
# Descriptions

What a publisher says about a dataset, and the header that is built from it.
The root hash of a new header is still empty.
-/

namespace SealedGraph

/-- What is said about a dataset. -/
structure Description where
  title : String := ""
  description : String := ""
  tags : List String := []
  /-- The version of the format, if one is given. -/
  version : Option String := none
  transpilation : Option Json := none
deriving BEq

/-- What an existing header says; an empty version counts as none. -/
def Header.describe (h : Header) : Description :=
  { title := h.title
    description := h.description
    tags := h.tags
    version := if h.version = "" then none else some h.version
    transpilation := h.transpilation }

namespace Description

/-- The version of the format when none is given. -/
def defaultVersion : String := "1.0"

end Description

namespace ChainSettings

/-- The schemas that a header names: one for identities, one for root hashes. -/
def schemas (s : ChainSettings) : Members ValidationSchema :=
  [("erc725-main", { schemaType := "ethereum-725", networkId := s.networkId }),
    ("merkleRoot",
      { schemaType := "merkle-root"
        networkId := s.networkId
        hubContractAddress := some s.hubContractAddress })]

end ChainSettings

namespace Publisher

/-- The header of a dataset that is created at some time. -/
def header (p : Publisher) (d : Description) (created : Instant) : Header :=
  { version := d.version.getD Description.defaultVersion
    created := created.text
    title := d.title
    description := d.description
    tags := d.tags
    schemas := p.settings.chain.schemas
    integrity := { proofs := [IntegrityProof.merkleRoot ""] }
    creator := { identifiers := [CreatorIdentifier.erc725 p.settings.identity] }
    transpilation := d.transpilation }

end Publisher
end SealedGraph
