import SqdNetwork.Core.Outcome
import SqdNetwork.Core.Script
import SqdNetwork.Core.Machine
import SqdNetwork.Core.Bisect
import SqdNetwork.Core.Columns
import SqdNetwork.Core.Compact
import SqdNetwork.Core.Text
import SqdNetwork.Core.Parse
import SqdNetwork.Core.SortedMap
import SqdNetwork.Core.Spans
import SqdNetwork.Core.Intervals
import SqdNetwork.Core.Wire
import SqdNetwork.Core.BiMap
import SqdNetwork.Core.LruCache
import SqdNetwork.Core.Channels
import SqdNetwork.Core.Permits
import SqdNetwork.DataChunk
import SqdNetwork.DataChunk.FromStr
import SqdNetwork.Assignments.Reader
import SqdNetwork.Assignments.ChunkIdFormat
import SqdNetwork.Assignments.Staging
import SqdNetwork.Assignments.ChunkColumns
import SqdNetwork.Assignments.WorkerBuilder
import SqdNetwork.Assignments.WorkerStaging
import SqdNetwork.Assignments.WorkerRoundTrip
import SqdNetwork.Assignments.PortalBuilder
import SqdNetwork.Assignments.PortalStaging
import SqdNetwork.Assignments.PortalRoundTrip
import SqdNetwork.Assignments.Lookup
import SqdNetwork.Assignments.Accepted
import SqdNetwork.Assignments.Routing
import SqdNetwork.Assignments.Abandoned
import SqdNetwork.Assignments.DatasetLookup
import SqdNetwork.Assignments.RejectedChunks
import SqdNetwork.Assignments.Registered
import SqdNetwork.Assignments.TablesPresent
import SqdNetwork.Assignments.Urls
import SqdNetwork.Assignments.WorkerEntries
import SqdNetwork.Assignments.WorkerIds
import SqdNetwork.Assignments.Holdings
import SqdNetwork.Assignments.Legacy
import SqdNetwork.Assignments.LegacyRouting
import SqdNetwork.Assignments.Timestamps
import SqdNetwork.Assignments.LegacyTimestamps
import SqdNetwork.Messages.Signatures
import SqdNetwork.Messages.RangeSet
import SqdNetwork.Messages.NormalForm
import SqdNetwork.Transport.AddressCache
import SqdNetwork.Transport.NodeWhitelist
import SqdNetwork.Transport.Base
import SqdNetwork.Transport.Bookkeeping
import SqdNetwork.Transport.RegisteredWorkers
import SqdNetwork.Transport.Swarm
import SqdNetwork.Transport.Waiting
import SqdNetwork.Transport.Stranded
import SqdNetwork.Transport.StreamShared
import SqdNetwork.Transport.StreamDialing
import SqdNetwork.Transport.StreamClient
import SqdNetwork.Transport.StreamLimit
import SqdNetwork.Contracts.Merge
import SqdNetwork.Contracts.Accounting
import SqdNetwork.Contracts.Client
import SqdNetwork.Contracts.Migration
import SqdNetwork.DataChunk.RoundTrip
import SqdNetwork.Messages.Verification
import SqdNetwork.Messages.BitString
import SqdNetwork.Core.Burst
import SqdNetwork.Transport.Pubsub
import SqdNetwork.Transport.PubsubOrder
import SqdNetwork.Transport.PubsubRate
import SqdNetwork.Transport.Chasing
import SqdNetwork.Transport.Multiaddr
import SqdNetwork.Transport.CachedAddresses
import SqdNetwork.Assignments.Searches
import SqdNetwork.Core.SemVer
import SqdNetwork.Messages.Versions
import SqdNetwork.Transport.LogListeners
import SqdNetwork.Contracts.RegistryPaging
import SqdNetwork.Assignments.Continuity
import SqdNetwork.Assignments.Offsets
import SqdNetwork.Assignments.Aliasing
import SqdNetwork.Assignments.Conversion
import SqdNetwork.Assignments.Appending
import SqdNetwork.Assignments.Conversion.Source
import SqdNetwork.Assignments.Conversion.Build
import SqdNetwork.Assignments.Conversion.WorkerBlob
import SqdNetwork.Assignments.Conversion.PortalBlob
import SqdNetwork.Assignments.Conversion.Verify
import SqdNetwork.Assignments.Conversion.Migration
import SqdNetwork.Transport.StreamAnswers
import SqdNetwork.Transport.StreamOwners
import SqdNetwork.Core.Mailbox
import SqdNetwork.Core.Refinement
import SqdNetwork.Transport.InboundStreams
import SqdNetwork.Core.ByteStream
import SqdNetwork.Transport.Exchange
import SqdNetwork.Core.Placement
import SqdNetwork.Transport.WorkerActor
import SqdNetwork.Transport.WorkerQueues
import SqdNetwork.Transport.RequestResponse
import SqdNetwork.Transport.Wrapped
import SqdNetwork.Core.Binary32
import SqdNetwork.Transport.Confidence
import SqdNetwork.Transport.Codec
import SqdNetwork.Transport.PortalLogs
import SqdNetwork.Assignments.Headers
import SqdNetwork.Contracts.Allocations
import SqdNetwork.Transport.Joining
import SqdNetwork.Transport.AddressBook
import SqdNetwork.Assignments.NetworkState
import SqdNetwork.Transport.LogRecipients
