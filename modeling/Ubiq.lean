import Ubiq.Foundation.Execution
import Ubiq.Foundation.Bytes
import Ubiq.Foundation.Lines
import Ubiq.Foundation.Numeral
import Ubiq.Foundation.Keyed
import Ubiq.Foundation.Format
import Ubiq.Foundation.Table
import Ubiq.Foundation.Lease
import Ubiq.Foundation.SortedTable
import Ubiq.Foundation.Interleaving
import Ubiq.Foundation.ReplayCache
import Ubiq.Settlement.Record
import Ubiq.Settlement.Journal
import Ubiq.Settlement.RecordJson
import Ubiq.Settlement.Projection
import Ubiq.Settlement.Coordinator
import Ubiq.Settlement.System
import Ubiq.Settlement.Refinement
import Ubiq.Settlement.CrashDurability
import Ubiq.Settlement.SettledKeys
import Ubiq.Settlement.Acknowledgement
import Ubiq.Message.Model
import Ubiq.Control.Store
import Ubiq.Control.Fencing
import Ubiq.Shard.Migration
import Ubiq.Shard.Backend
import Ubiq.Shard.System
import Ubiq.Shard.OperatorRaces
import Ubiq.Shard.Cutover
import Ubiq.Shard.DualWrites
import Ubiq.Shard.Ownership
import Ubiq.Security.Proof
import Ubiq.Security.Redelivery
import Ubiq.Security.ReplayRuns
import Ubiq.Security.DPoP
import Ubiq.Foundation.BigEndian
import Ubiq.Core.Event
import Ubiq.Core.Wire
import Ubiq.Core.WireFormat
import Ubiq.Core.WireRoundTrip
import Ubiq.Broker.Messages
import Ubiq.Broker.Kafka
import Ubiq.Broker.RedisStreams
import Ubiq.Control.Outbox
import Ubiq.Server.Ingest
import Ubiq.Cluster.Membership
import Ubiq.Cluster.Reaper
import Ubiq.Delivery.MemoryBroker
import Ubiq.Delivery.Lifecycle
import Ubiq.Locking.LeaseLockTable
import Ubiq.Locking.MutualExclusion
import Ubiq.Cluster.Control
import Ubiq.Foundation.Selection
import Ubiq.Foundation.Ranking
import Ubiq.Cluster.Rendezvous
import Ubiq.Cluster.Placement
import Ubiq.Foundation.Text
import Ubiq.Nats.Protocol
import Ubiq.Nats.Client
import Ubiq.Nats.Bindings
import Ubiq.Foundation.Utf8
import Ubiq.Foundation.JsonString
import Ubiq.Foundation.Json
import Ubiq.Foundation.Fallible
import Ubiq.Config.Features
import Ubiq.Config.Loader
import Ubiq.Config.Declarations
import Ubiq.Config.Reencoding
import Ubiq.Foundation.DepthFirst
import Ubiq.Config.DependencyGraph
import Ubiq.Config.Precedence
import Ubiq.Config.FailClosed
import Ubiq.Config.Formats
import Ubiq.Config.Documented
import Ubiq.Foundation.Base64
import Ubiq.Foundation.GoJson
import Ubiq.Foundation.GoStruct
import Ubiq.Message.EnvelopeJson
import Ubiq.Security.DigestTransport
import Ubiq.Foundation.Slots
import Ubiq.Cluster.Replication
import Ubiq.Transports.Registry
import Ubiq.Contracts.SemanticQueue
import Ubiq.Contracts.Settling
import Ubiq.Contracts.Inflight
import Ubiq.Control.History
import Ubiq.Control.Drain
import Ubiq.Cluster.JoinRetry
import Ubiq.Shard.Backfill
import Ubiq.Settlement.JournalFiles
import Ubiq.Settlement.Corruption
import Ubiq.Foundation.Stateful
import Ubiq.Settlement.ProjectionRuns
import Ubiq.Foundation.Expiry
import Ubiq.Security.ReplayWindow
import Ubiq.Foundation.PairLines
import Ubiq.Nats.Commands
import Ubiq.Nats.JetStream
import Ubiq.Nats.Rejection
import Ubiq.Foundation.EventStream
import Ubiq.Transports.Sse
import Ubiq.Foundation.Framing
import Ubiq.Transports.Tcp
import Ubiq.Supervisor.Tree
import Ubiq.Contracts.Stream
import Ubiq.Contracts.Attempts
import Ubiq.Locking.Capacity
import Ubiq.Security.Idempotency
import Ubiq.Server.Backlog
import Ubiq.Server.Hub
import Ubiq.Control.LeaseLength
import Ubiq.Transports.GoTcp
import Ubiq.Foundation.BinaryFloat
import Ubiq.Shard.SqlRows
import Ubiq.Routing.Capability
import Ubiq.Routing.Registry
import Ubiq.Routing.Router
