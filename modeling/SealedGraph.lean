import SealedGraph.Account.Address
import SealedGraph.Bytes
import SealedGraph.CommandLine.Arguments
import SealedGraph.CommandLine.Command
import SealedGraph.CommandLine.Outcome
import SealedGraph.Dataset.Authorship
import SealedGraph.Dataset.Description
import SealedGraph.Dataset.Distribution
import SealedGraph.Dataset.Instant
import SealedGraph.Dataset.Origin
import SealedGraph.Dataset.Preparation
import SealedGraph.Dataset.Publisher
import SealedGraph.Decimal.Binary64
import SealedGraph.Decimal.Scaling
import SealedGraph.Decimal.Shortest
import SealedGraph.Error
import SealedGraph.Exchange.Key
import SealedGraph.Exchange.Offer
import SealedGraph.Exchange.Sale
import SealedGraph.Graph.Canonical
import SealedGraph.Graph.Document
import SealedGraph.Graph.Header
import SealedGraph.Graph.Object
import SealedGraph.Graph.Relation
import SealedGraph.Hash.Keccak
import SealedGraph.Hash.Sha256
import SealedGraph.Hash.Word
import SealedGraph.Hash.WordJson
import SealedGraph.Hex
import SealedGraph.Json.Members
import SealedGraph.Json.Parser
import SealedGraph.Json.Printer
import SealedGraph.Json.Record
import SealedGraph.Json.Source
import SealedGraph.Json.Value
import SealedGraph.Machine
import SealedGraph.Main
import SealedGraph.Merkle.Inclusion
import SealedGraph.Merkle.Size
import SealedGraph.Merkle.Tree
import SealedGraph.Private.Blocks
import SealedGraph.Private.Committer
import SealedGraph.Private.Entry
import SealedGraph.Proofs.Account.HexTexts
import SealedGraph.Proofs.CommandLine.SaleFiles
import SealedGraph.Proofs.Dataset.HandledDatasets
import SealedGraph.Proofs.Dataset.ObjectProofs
import SealedGraph.Proofs.Dataset.OrderIndependence
import SealedGraph.Proofs.Dataset.PreparedViews
import SealedGraph.Proofs.Dataset.ReceivedSignature
import SealedGraph.Proofs.Dataset.RootBinding
import SealedGraph.Proofs.Dataset.Sealing
import SealedGraph.Proofs.Dataset.Secrecy
import SealedGraph.Proofs.Dataset.SignatureCoverage
import SealedGraph.Proofs.Decimal.Exact
import SealedGraph.Proofs.Decimal.OneRounding
import SealedGraph.Proofs.Exchange.Acceptance
import SealedGraph.Proofs.Exchange.CanonicalPayload
import SealedGraph.Proofs.Exchange.EncodedRoot
import SealedGraph.Proofs.Exchange.HostileOffers
import SealedGraph.Proofs.Exchange.OfferTexts
import SealedGraph.Proofs.Exchange.OneOpening
import SealedGraph.Proofs.Exchange.Opening
import SealedGraph.Proofs.Exchange.Purchase
import SealedGraph.Proofs.Exchange.RestoredGraphs
import SealedGraph.Proofs.Graph.Amendments
import SealedGraph.Proofs.Graph.BuiltHeaders
import SealedGraph.Proofs.Graph.CanonicalForm
import SealedGraph.Proofs.Graph.DocumentRewriting
import SealedGraph.Proofs.Graph.FormattedRecords
import SealedGraph.Proofs.Graph.Formatting
import SealedGraph.Proofs.Graph.HeaderRewriting
import SealedGraph.Proofs.Graph.Likeness
import SealedGraph.Proofs.Graph.Sorting
import SealedGraph.Proofs.Graph.SortingByText
import SealedGraph.Proofs.Graph.StableSorting
import SealedGraph.Proofs.Graph.Survival
import SealedGraph.Proofs.Graph.SurvivingViews
import SealedGraph.Proofs.Hash.HexSpellings
import SealedGraph.Proofs.Hash.WordText
import SealedGraph.Proofs.Json.Amendments
import SealedGraph.Proofs.Json.CanonicalTexts
import SealedGraph.Proofs.Json.FewDigits
import SealedGraph.Proofs.Json.Layouts
import SealedGraph.Proofs.Json.Numbers
import SealedGraph.Proofs.Json.Reading
import SealedGraph.Proofs.Json.Records
import SealedGraph.Proofs.Json.Rereading
import SealedGraph.Proofs.Json.RoundTrip
import SealedGraph.Proofs.Json.Tidy
import SealedGraph.Proofs.Merkle.Binding
import SealedGraph.Proofs.Merkle.Filling
import SealedGraph.Proofs.Merkle.InclusionProofs
import SealedGraph.Proofs.Merkle.LeafChanges
import SealedGraph.Proofs.Merkle.Levels
import SealedGraph.Proofs.Merkle.NodeCount
import SealedGraph.Proofs.Merkle.TreeShape
import SealedGraph.Proofs.Private.BlockArithmetic
import SealedGraph.Proofs.Private.BlockBounds
import SealedGraph.Proofs.Private.BlockLeaves
import SealedGraph.Proofs.Private.Committing
import SealedGraph.Proofs.Private.ExactJoining
import SealedGraph.Proofs.Private.FlaggedObjects
import SealedGraph.Proofs.Private.HexBlocks
import SealedGraph.Proofs.Private.Joining
import SealedGraph.Proofs.Private.ObjectByObject
import SealedGraph.Proofs.Private.ReadableGraphs
import SealedGraph.Proofs.Private.Restoring
import SealedGraph.Proofs.Private.Views
import SealedGraph.Proofs.Private.ViewsOfViews
import SealedGraph.Proofs.Signing.Framing
import SealedGraph.Proofs.Signing.SignatureTexts
import SealedGraph.Settings
import SealedGraph.Signing.Curve
import SealedGraph.Signing.Ecdsa
import SealedGraph.Signing.Message
import SealedGraph.Text.Blank
