import Hnet.Blocking
import Hnet.ByteOrder
import Hnet.Callers
import Hnet.CliProgram
import Hnet.ClientProgram
import Hnet.Decimal
import Hnet.EchoRings
import Hnet.Fibers
import Hnet.Five.BitPtr
import Hnet.Five.Config
import Hnet.Five.Linux
import Hnet.Five.ObjectPool
import Hnet.Five.RingBuffer
import Hnet.Five.Time
import Hnet.Five.Xrange
import Hnet.Gaps
import Hnet.Holdings
import Hnet.IoUring
import Hnet.Lts
import Hnet.Memory
import Hnet.Netring.Addr
import Hnet.Netring.Callbacks
import Hnet.Netring.Executor
import Hnet.Netring.Request
import Hnet.OrderStatistics
import Hnet.Poller
import Hnet.Proof.Accounting
import Hnet.Proof.AddrFormat
import Hnet.Proof.AddrText
import Hnet.Proof.AddrValid
import Hnet.Proof.Affinity
import Hnet.Proof.BlockingCalls
import Hnet.Proof.BufferBounds
import Hnet.Proof.Calls
import Hnet.Proof.CliAccounting
import Hnet.Proof.CliProgress
import Hnet.Proof.CliReport
import Hnet.Proof.ClientProgress
import Hnet.Proof.Contexts
import Hnet.Proof.Cookies
import Hnet.Proof.Descriptors
import Hnet.Proof.Destructors
import Hnet.Proof.Drain
import Hnet.Proof.EchoOverRings
import Hnet.Proof.EchoRefinement
import Hnet.Proof.EchoSafety
import Hnet.Proof.EchoView
import Hnet.Proof.FiberRuns
import Hnet.Proof.Fifo
import Hnet.Proof.HeapContents
import Hnet.Proof.Lifetime
import Hnet.Proof.LinkOrder
import Hnet.Proof.LoopDrain
import Hnet.Proof.MemoryBound
import Hnet.Proof.MessageLoop
import Hnet.Proof.NoLeak
import Hnet.Proof.NoLostWakeup
import Hnet.Proof.Operations
import Hnet.Proof.PollMany
import Hnet.Proof.PollerRuns
import Hnet.Proof.PoolStack
import Hnet.Proof.ProtoRoundTrip
import Hnet.Proof.Quantiles
import Hnet.Proof.RangeLoop
import Hnet.Proof.RealStop
import Hnet.Proof.RepliesIntact
import Hnet.Proof.ReplyMatching
import Hnet.Proof.SaveLoad
import Hnet.Proof.Schedule
import Hnet.Proof.ServerFibers
import Hnet.Proof.ServerLoop
import Hnet.Proof.SlotBound
import Hnet.Proof.SlotSharing
import Hnet.Proof.Starvation
import Hnet.Proof.Statistics
import Hnet.Proof.Tagging
import Hnet.Proof.TimeValues
import Hnet.Proof.TimedResult
import Hnet.Proof.Wakeup
import Hnet.Proof.WholeReplies
import Hnet.Proof.WrongTypes
import Hnet.Proto
import Hnet.Ring
import Hnet.RingSubmit
import Hnet.Rounding
import Hnet.ServerFibers
import Hnet.Sockaddr
import Hnet.Strides
import Hnet.Submitter
import Hnet.TaggedWord
import Hnet.TcpServer
import Hnet.UdpClient
import Hnet.UdpEcho
import Hnet.UdpReport
import Hnet.UdpServer
