import NatsClient.Wire.RoundTrip
import NatsClient.Iterator.TypedSubscription
import NatsClient.JetStream.OrderedPull
import NatsClient.JetStream.OrderedPush
import NatsClient.Connection.Link
import NatsClient.Connection.Promises
import NatsClient.Connection.Pairing
import NatsClient.Connection.Handler
import NatsClient.Connection.Session
import NatsClient.Connection.SidAgreement
import NatsClient.Connection.Table
import NatsClient.Connection.Interest
import NatsClient.Connection.InterestAgreement
import NatsClient.Foundation.OrderedMap
import NatsClient.Wire.DataBuffer
import NatsClient.Wire.Headers
import NatsClient.Connection.Output
import NatsClient.Connection.SubFrames
import NatsClient.Wire.Relay
import NatsClient.Foundation.Base64
import NatsClient.ObjectStore.Digest
import NatsClient.Foundation.Partition
import NatsClient.ObjectStore.Bucket
import NatsClient.ObjectStore.Get
import NatsClient.ObjectStore.FailedPut
import NatsClient.ObjectStore.Clients
import NatsClient.ObjectStore.Safety
import NatsClient.Reconnect.Errors
import NatsClient.Reconnect.Servers
import NatsClient.Reconnect.Dial
import NatsClient.Reconnect.Pool
import NatsClient.Reconnect.Attempts
import NatsClient.Reconnect.Outage
import NatsClient.Reconnect.Reconnection
import NatsClient.Reconnect.Status
import NatsClient.Reconnect.AuthAbort
import NatsClient.Reconnect.FirstConnect
import NatsClient.JetStream.StreamState
import NatsClient.Kv.Bucket
import NatsClient.Kv.Codec
import NatsClient.Kv.Create
import NatsClient.Iterator.Trace
import NatsClient.JetStream.DeliverPolicy
import NatsClient.Kv.Watcher
import NatsClient.Kv.Watch
import NatsClient.Iterator.Ending
import NatsClient.Kv.History
import NatsClient.Connection.PermissionText
import NatsClient.Connection.Permissions
import NatsClient.JetStream.PullMessages
import NatsClient.JetStream.PullMeasure
import NatsClient.JetStream.FetchBound
import NatsClient.JetStream.PullAccounting
import NatsClient.JetStream.StartPolicy
import NatsClient.JetStream.OrderedPullConfig
import NatsClient.Kv.PurgeDeletes
import NatsClient.Iterator.Fifo
import NatsClient.Iterator.Pending
import NatsClient.JetStream.Lister
import NatsClient.Connection.Publishing
import NatsClient.Connection.Requests
import NatsClient.Iterator.Stopping
import NatsClient.Connection.RequestMany
import NatsClient.Iterator.Keeping
import NatsClient.JetStream.Fetch
import NatsClient.Service.Endpoint
import NatsClient.Foundation.Chain
import NatsClient.ObjectStore.Links
import NatsClient.Wire.HeaderStore
import NatsClient.Wire.HeaderBlock
import NatsClient.Reconnect.IpGrammar
import NatsClient.Reconnect.IpParser
import NatsClient.Reconnect.IpAcceptance
import NatsClient.Reconnect.Gossip
import NatsClient.Connection.Writes
import NatsClient.Connection.AutoUnsubscribe
import NatsClient.Connection.Resubscribe
import NatsClient.ObjectStore.Update
import NatsClient.Connection.Correlation
import NatsClient.Wire.HeaderKey
import NatsClient.ObjectStore.Base64Codec
import NatsClient.ObjectStore.DigestText
import NatsClient.Connection.Nuid
import NatsClient.Connection.HeartbeatMonitor
import NatsClient.Connection.Operations
import NatsClient.Connection.Steps
import NatsClient.Connection.Closing
import NatsClient.Connection.Draining
import NatsClient.Connection.Touches
import NatsClient.Connection.Transports
import NatsClient.Connection.Pipeline
import NatsClient.Connection.SubscriptionDrain
import NatsClient.JetStream.JsMsg
import NatsClient.JetStream.ConsumerOpts
import NatsClient.Wire.RawBuffer
import NatsClient.JetStream.StreamPaging
import NatsClient.Connection.ReaderLoop
import NatsClient.Foundation.Pattern
import NatsClient.Version.SemVer
import NatsClient.Version.Features
import NatsClient.Deno.WriteQueue
import NatsClient.Deno.Handshake
import NatsClient.Kv.Counter
import NatsClient.Iterator.Losing
import NatsClient.JetStream.Upstream
import NatsClient.Kv.Keys
import NatsClient.JetStream.IdleHeartbeat
import NatsClient.Service.Control
import NatsClient.Service.Lifecycle
import NatsClient.JetStream.Publish
import NatsClient.JetStream.DeliveryInfo
import NatsClient.Util.Shuffle
import NatsClient.Util.SimpleMutex
import NatsClient.ObjectStore.List
