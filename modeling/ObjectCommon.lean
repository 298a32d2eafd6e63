import ObjectCommon.Library.Outcome
import ObjectCommon.Library.OrderedDict
import ObjectCommon.Library.Gregorian
import ObjectCommon.Library.Base64
import ObjectCommon.Library.Base16
import ObjectCommon.Library.Runs
import ObjectCommon.Library.Routine
import ObjectCommon.Library.KeySort
import ObjectCommon.Library.KeyedStore
import ObjectCommon.Python.Text
import ObjectCommon.Python.Json
import ObjectCommon.Python.JsonText
import ObjectCommon.Python.Reorder
import ObjectCommon.Python.Equality
import ObjectCommon.Errors
import ObjectCommon.Python.DateTime
import ObjectCommon.Validation.Scalars
import ObjectCommon.Validation.Mappings
import ObjectCommon.Validation.Private
import ObjectCommon.Schemas.Keywords
import ObjectCommon.Schemas.Documents
import ObjectCommon.Schemas.Agreement
import ObjectCommon.Schemas.Results
import ObjectCommon.Packages
import ObjectCommon.Contracts
import ObjectCommon.Capabilities
import ObjectCommon.Metadata
import ObjectCommon.Ranges
import ObjectCommon.RangeResolution
import ObjectCommon.RangeParts
import ObjectCommon.Immutability
import ObjectCommon.EffectiveImmutability
import ObjectCommon.Payloads.Reference
import ObjectCommon.Payloads.Registry
import ObjectCommon.Payloads.Linearity
import ObjectCommon.Payloads.Transfer
import ObjectCommon.Payloads.Steps
import ObjectCommon.Codec.Signature
import ObjectCommon.Codec.Signed
import ObjectCommon.Codec.Signing
import ObjectCommon.Codec.Issuance
import ObjectCommon.Codec.CanonicalText
import ObjectCommon.Codec.Logical
import ObjectCommon.Deadlines
import ObjectCommon.Catalog.Normalize
import ObjectCommon.Catalog.Request
import ObjectCommon.Catalog.Inversion
import ObjectCommon.Catalog.Canonical
import ObjectCommon.Catalog.Boundary
import ObjectCommon.Catalog.Failures
import ObjectCommon.Catalog.Requirements
import ObjectCommon.Catalog.Ordering
import ObjectCommon.Catalog.Confinement
import ObjectCommon.Catalog.Faithful
import ObjectCommon.Catalog.Integrity
import ObjectCommon.Catalog.WirePath
import ObjectCommon.Catalog.Contract
import ObjectCommon.Catalog.RangeLimits
import ObjectCommon.Catalog.Negotiation
import ObjectCommon.PutState
import ObjectCommon.Codec.Digest
import ObjectCommon.Codec.Accumulation
import ObjectCommon.Payloads.Ledger
import ObjectCommon.Payloads.Content
import ObjectCommon.Payloads.ChunkSize
import ObjectCommon.Payloads.Closing
import ObjectCommon.Payloads.Frame
import ObjectCommon.Catalog.Addressing
import ObjectCommon.Catalog.Reordering
import ObjectCommon.Catalog.Surface
import ObjectCommon.Catalog.Calls
import ObjectCommon.ObjectMetadata
import ObjectCommon.ClientContracts
import ObjectCommon.Multipart
import ObjectCommon.MultipartPlan
import ObjectCommon.MultipartContent
import ObjectCommon.WireValues
import ObjectCommon.Handles
import ObjectCommon.Testing.Runner
import ObjectCommon.Testing.Scripted
import ObjectCommon.Testing.Soundness
import ObjectCommon.Testing.Verdict
import ObjectCommon.Testing.Received
import ObjectCommon.Testing.MemoryTarget
import ObjectCommon.Testing.MemorySteps
import ObjectCommon.Testing.MemoryStore
import ObjectCommon.Testing.MemoryHistory
import ObjectCommon.Testing.MemoryResults
import ObjectCommon.Testing.MemoryHandles
import ObjectCommon.Testing.MemoryRoundTrip
import ObjectCommon.Testing.MemoryRetries
import ObjectCommon.Testing.MemoryRunner
import ObjectCommon.Testing.MemoryConformance
