import NftLedger.Call.Invocation
import NftLedger.Effect.Json
import NftLedger.Effect.Minted
import NftLedger.Effect.Scan
import NftLedger.Proofs.Reader
import NftLedger.State
import NftLedger.Value.Conforms
import NftLedger.Value.Measure
import NftLedger.Value.Spelling
import NftLedger.Proofs.Descriptor
import NftLedger.Proofs.Key
import NftLedger.Proofs.Spelling
import NftLedger.Proofs.Limits
import NftLedger.Proofs.RoundTrip
import NftLedger.Proofs.Framing
import NftLedger.Proofs.PrefixFree
import NftLedger.Proofs.Conformance
import NftLedger.Proofs.Depth
import NftLedger.Proofs.Canonical
import NftLedger.Effect.Selection
import NftLedger.Proofs.Identity
import NftLedger.Proofs.Selection
import NftLedger.Effect.Rendering
import NftLedger.Proofs.Envelope
import NftLedger.Proofs.Hex
import NftLedger.Proofs.Shape
import NftLedger.Proofs.Stream
import NftLedger.Proofs.Unsupported
import NftLedger.Arguments.History
import NftLedger.Proofs.Named
import NftLedger.Proofs.Listing
import NftLedger.Proofs.History
import NftLedger.Call.Requirements
import NftLedger.Proofs.Outcome
import NftLedger.Call.Field
import NftLedger.Proofs.Fields
import NftLedger.Proofs.Separation
import NftLedger.Proofs.SelfDescribing
import NftLedger.Proofs.Portable
import NftLedger.Proofs.Stopping
import NftLedger.Proofs.Room
import NftLedger.Proofs.MissingInput
import NftLedger.Proofs.Growth
import NftLedger.Identity.Spelling
import NftLedger.Proofs.KindWords
import NftLedger.Proofs.Quotation
import NftLedger.Proofs.Hash
import NftLedger.Proofs.KeyText
import NftLedger.Proofs.CallDocument
import NftLedger.Proofs.TokenConflict
import NftLedger.Effect.Slot
import NftLedger.Proofs.Minted
import NftLedger.Proofs.Expectation
import NftLedger.Schema.History
import NftLedger.Proofs.Printed
import NftLedger.Proofs.Gathering
import NftLedger.Proofs.Properties
import NftLedger.Proofs.Stored
import NftLedger.Proofs.Recovery
