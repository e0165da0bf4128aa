import Uringcore.Lib.Machine
import Uringcore.Lib.Alternation
import Uringcore.Lib.AssocList
import Uringcore.Lib.BinaryHeap
import Uringcore.Lib.Threads
import Uringcore.Lib.ByteMemory
import Uringcore.Lib.Circular
import Uringcore.Lib.Utf8
import Uringcore.Lib.TextReader
import Uringcore.Lib.IpAddr
import Uringcore.UserData
import Uringcore.Error
import Uringcore.Buffer
import Uringcore.Buffer.Regions
import Uringcore.Buffer.Clients
import Uringcore.State
import Uringcore.State.Generations
import Uringcore.State.Queue
import Uringcore.BufRing
import Uringcore.BufRing.Queue
import Uringcore.BufRing.Memory
import Uringcore.Sockaddr
import Uringcore.Sockaddr.Extent
import Uringcore.Sockaddr.Reply
import Uringcore.FixedFd
import Uringcore.Ring
import Uringcore.Ring.Linked
import Uringcore.Scheduler
import Uringcore.Timer
import Uringcore.Timer.Pending
import Uringcore.Core
import Uringcore.Core.Tick
import Uringcore.Core.Submission
import Uringcore.Core.System
import Uringcore.Core.Conservation
import Uringcore.Core.Ownership
import Uringcore.Core.Credit
import Uringcore.Core.Routing
import Uringcore.Core.Execution
import Uringcore.Core.Timeout
import Uringcore.Core.Atomicity
import Uringcore.Core.Acceptance
import Uringcore.Core.Drain
import Uringcore.Core.Generations
import Uringcore.Core.Replenish
import Uringcore.Core.Messages
import Uringcore.Core.FixedFiles
import Uringcore.Core.KernelFiles
import Uringcore.Core.RegisteredSlice
import Uringcore.Future
import Uringcore.Future.Deadlock
import Uringcore.Future.Fast
import Uringcore.EventLoop.Wakeup
import Uringcore.EventLoop.Readers
import Uringcore.EventLoop.Interest
import Uringcore.EventLoop.Polling
import Uringcore.EventLoop.Running
import Uringcore.EventLoop.Native
import Uringcore.EventLoop.Signals
import Uringcore.EventLoop.Executor
import Uringcore.EventLoop.Transport
import Uringcore.EventLoop.System
import Uringcore.EventLoop.Connecting
import Uringcore.EventLoop.Sendto
import Uringcore.EventLoop.Moves
import Uringcore.EventLoop.Issued
import Uringcore.EventLoop.ConnectionLost
import Uringcore.EventLoop.Leftovers
import Uringcore.EventLoop.Multishot
import Uringcore.EventLoop.Sending
import Uringcore.Pipes
import Uringcore.Datagram
import Uringcore.Metrics
import Uringcore.Core.Statistics
import Uringcore.Core.Lifetime
import Uringcore.Pipes.Ended
import Uringcore.EventLoop.FlowControl
import Uringcore.EventLoop.Accepting
import Uringcore.EventLoop.Servers
import Uringcore.EventLoop.Listening
import Uringcore.EventLoop.Accepted
import Uringcore.EventLoop.Receiving
import Uringcore.EventLoop.Received
import Uringcore.EventLoop.ReceivedOnce
import Uringcore.EventLoop.Handling
import Uringcore.EventLoop.Unwinding
import Uringcore.EventLoop.Awaited
import Uringcore.EventLoop.Woken
import Uringcore.EventLoop.RecvFrom
import Uringcore.EventLoop.SockRecv
import Uringcore.EventLoop.Paused
import Uringcore.EventLoop.WriteBuffer
import Uringcore.EventLoop.Counted
import Uringcore.EventLoop.BufferSizes
import Uringcore.EventLoop.Reuse
import Uringcore.Subprocess
import Uringcore.Pipes.Written
import Uringcore.Subprocess.Delivery
import Uringcore.Subprocess.ExitWaiters
import Uringcore.SslTransport
import Uringcore.SslTransport.Telling
import Uringcore.SslTransport.Session
