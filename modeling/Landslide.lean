import Landslide.Database.Batch
import Landslide.Chain.Agreement
import Landslide.Chain.Config
import Landslide.Chain.FaultyVotes
import Landslide.Chain.Pipeline
import Landslide.VM.Progress
import Landslide.VM.SingleChain
import Landslide.VM.Status
import Landslide.VM.Missing
import Landslide.VM.StartUp
import Landslide.VM.Summary
import Landslide.VM.Transparency
import Landslide.VM.CrashSafety
import Landslide.Warp.Payload
import Landslide.Warp.BlockSignatures
import Landslide.Warp.Fetching
import Landslide.Warp.Retry
import Landslide.Uptime.Accounting
import Landslide.Uptime.Bounds
import Landslide.Uptime.Sync
import Landslide.Uptime.Failures
import Landslide.Uptime.NonValidators
import Landslide.Peer.AppRequest
import Landslide.Peer.Bookkeeping
import Landslide.JsonRpc.Handler
import Landslide.Cache.Accounting
import Landslide.Cache.Reference
import Landslide.JsonRpc.Caching
import Landslide.Peer.Unrequested
import Landslide.Validators.Listeners
import Landslide.VM.Pagination
import Landslide.Database.CloseProtocol
import Landslide.Codec.Size
import Landslide.Heap.Map
import Landslide.Sampler.Uniform
import Landslide.Bloom.Filter
import Landslide.Peer.MessageQueue
import Landslide.Net.Send
import Landslide.Net.BloomCoverage
import Landslide.Net.Shutdown
import Landslide.Net.Handshake
import Landslide.Bench.Stake
