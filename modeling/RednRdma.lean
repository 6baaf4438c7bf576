import RednRdma.Lib.Machine
import RednRdma.Lib.Ring
import RednRdma.Lib.Serial
import RednRdma.Utils
import RednRdma.Context
import RednRdma.WorkRequest
import RednRdma.Intf
import RednRdma.Driver
import RednRdma.Verbs
import RednRdma.PostCall
import RednRdma.Shadow
import RednRdma.Completion
import RednRdma.Await
import RednRdma.Setup
import RednRdma.Lookup
import RednRdma.Channel
import RednRdma.EventLoop
import RednRdma.Table
import RednRdma.OffloadChain
import RednRdma.Lib.Bytes
import RednRdma.Segment
import RednRdma.OffloadPatch
import RednRdma.Metadata
import RednRdma.Polling
import RednRdma.Responses
import RednRdma.PostEffect
import RednRdma.Execution
import RednRdma.Drain
import RednRdma.Lib.History
import RednRdma.WaitCount
import RednRdma.Buffers
import RednRdma.Lib.Tickets
import RednRdma.PostOrder
import RednRdma.Lib.Multimap
import RednRdma.Records
import RednRdma.Teardown
import RednRdma.Regions
import RednRdma.Agents
import RednRdma.Exchange
import RednRdma.Handshake
import RednRdma.ResponseWindow
import RednRdma.EnableIndex
import RednRdma.Arming
import RednRdma.Lib.Linked
import RednRdma.Batch
import RednRdma.Wrapper
import RednRdma.Broadcast
import RednRdma.Lib.Circular
import RednRdma.WqeBuilder
import RednRdma.DataSegs
import RednRdma.InlineData
import RednRdma.PrefixPost
import RednRdma.RoundTrip
import RednRdma.Counters
import RednRdma.Bitmap
import RednRdma.BuiltSize
import RednRdma.SetTrigger
import RednRdma.EndianRead
import RednRdma.AddrLookup
import RednRdma.Lib.Traced
import RednRdma.Guards
import RednRdma.GuardedBatch
import RednRdma.GuardedCalls
import RednRdma.Lib.Phase
import RednRdma.CqRing
import RednRdma.SendQueue
import RednRdma.QueueSizes
import RednRdma.RecvQueue
import RednRdma.PollOne
import RednRdma.Device
import RednRdma.DeviceRuns
import RednRdma.PollLoop
import RednRdma.Lib.Marks
import RednRdma.CrossChannel
import RednRdma.Batches
import RednRdma.Uthash
