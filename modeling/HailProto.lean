import HailProto.Core.Bytes
import HailProto.Core.Outcome
import HailProto.Core.Numbers
import HailProto.Core.Table
import HailProto.Core.Count
import HailProto.Core.Transition
import HailProto.Core.Epochs
import HailProto.Core.Pairing
import HailProto.Cbor.Value
import HailProto.Cbor.Reader
import HailProto.Cbor.Writer
import HailProto.Cbor.Canonical
import HailProto.Cbor.Head
import HailProto.Cbor.ReaderCorrect
import HailProto.Cbor.WriterCorrect
import HailProto.Cbor.Roundtrip
import HailProto.Cbor.KeyOrder
import HailProto.Codec.Base64Url
import HailProto.Codec.Text
import HailProto.Codec.Fields
import HailProto.Codec.HailValue
import HailProto.Codec.Address
import HailProto.Codec.Encoding
import HailProto.Codec.Scan
import HailProto.Codec.Preflight
import HailProto.Codec.Decoder
import HailProto.Codec.Reference
import HailProto.Codec.Libraries
import HailProto.Codec.Connections
import HailProto.Codec.Conversations
import HailProto.Codec.Envelopes
import HailProto.Codec.EnvelopeSchema
import HailProto.Codec.DeliveryStatus
import HailProto.Codec.Png
import HailProto.Codec.Assets
import HailProto.Codec.Attachments
import HailProto.Codec.Bodies
import HailProto.Codec.BodySchema
import HailProto.Codec.BodyImages
import HailProto.Codec.Profiles
import HailProto.Codec.Payload
import HailProto.Codec.Agreement
import HailProto.Server.Basic
import HailProto.Grants.Payload
import HailProto.Grants.Store
import HailProto.Grants.Receiver
import HailProto.Grants.Effects
import HailProto.Grants.Lineage
import HailProto.Grants.Consent
import HailProto.Grants.CallStep
import HailProto.Grants.Publisher
import HailProto.Grants.Replication
import HailProto.Grants.Convergence
import HailProto.Grants.Conflicts
import HailProto.Grants.Blocking
import HailProto.Messages.Envelope
import HailProto.Messages.Ambient
import HailProto.Messages.Conversation
import HailProto.Messages.Store
import HailProto.Messages.Delivery
import HailProto.Messages.System
import HailProto.Messages.Acceptance
import HailProto.Messages.Life
import HailProto.Messages.Frame
import HailProto.Messages.Work
import HailProto.Messages.Leases
import HailProto.Messages.Budgets
import HailProto.Messages.ReplyCapability
import HailProto.Messages.Replay
import HailProto.Messages.Membership
import HailProto.Messages.Participation
import HailProto.Federation.Control
import HailProto.Federation.Store
import HailProto.Federation.Coordinator
import HailProto.Federation.Effects
import HailProto.Federation.Outcomes
import HailProto.Federation.Records
import HailProto.Federation.Discipline
import HailProto.Federation.Consent
import HailProto.Custody.Store
import HailProto.Custody.Prepare
import HailProto.Custody.Commit
import HailProto.Custody.System
import HailProto.Custody.Effects
import HailProto.Custody.Journal
import HailProto.Custody.Abandonment
import HailProto.Custody.Fence
import HailProto.Custody.Successors
import HailProto.Custody.Resigning
import HailProto.Core.Loop
import HailProto.Migration.Grants
import HailProto.Migration.GrantCopies
import HailProto.Migration.GrantMerge
import HailProto.Migration.GrantImport
import HailProto.Migration.GrantReissue
import HailProto.Migration.Handshake
import HailProto.Migration.Fence
import HailProto.Migration.FenceEffects
import HailProto.Migration.FenceLifecycle
import HailProto.Migration.ManagedHandshake
import HailProto.Migration.Authorizations
import HailProto.Migration.AuthorizationEffects
import HailProto.Migration.Cancellation
import HailProto.Migration.StaleAuthorization
import HailProto.Directory.Audit
import HailProto.Directory.Resolver
import HailProto.Directory.Retention
import HailProto.Account.Drafts
import HailProto.Account.DraftRevisions
import HailProto.Monitor.PlcMonitor
import HailProto.Monitor.Coverage
import HailProto.Monitor.Attestation
import HailProto.Messages.Atomicity
import HailProto.Core.UnionFind
import HailProto.Server.JsString
import HailProto.Account.ConnectionThreads
import HailProto.Server.Json
import HailProto.Directory.StrictJson
import HailProto.Codec.PngReads
import HailProto.Codec.PngGrammar
import HailProto.Codec.DiagnosticTypes
import HailProto.Content.Acceptance
import HailProto.Access.OneTime
import HailProto.Migration.ImportEnvelopes
import HailProto.Account.MessageThreads
import HailProto.Account.ConnectionInbox
import HailProto.Server.Base64Url
import HailProto.Migration.Wire
import HailProto.Cbor.DagCbor
import HailProto.Codec.NotationFaithful
import HailProto.Codec.Redaction
import HailProto.Codec.SignAgain
import HailProto.Core.References
import HailProto.Messages.Trash
import HailProto.Messages.StoredBodies
import HailProto.Messages.BodyRetention
import HailProto.Core.OrderedMap
import HailProto.Server.RateLimit
import HailProto.Core.Runs
import HailProto.Server.DeepEqual
import HailProto.Content.Builder
import HailProto.Content.Reading
import HailProto.Content.Semantics
import HailProto.Content.Accepted
import HailProto.Content.Draft
import HailProto.Content.Editor
