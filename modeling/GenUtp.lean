import GenUtp.Lib.Run
import GenUtp.Lib.Network
import GenUtp.Lib.Pipe
import GenUtp.Lib.Locks
import GenUtp.Lib.ExtTerm
import GenUtp.Lib.RefCount
import GenUtp.Lib.Segments
import GenUtp.Lib.Frames
import GenUtp.Lib.StdMap
import GenUtp.WriteQueue
import GenUtp.Terms
import GenUtp.Coder
import GenUtp.SockOpts
import GenUtp.SocketHandler
import GenUtp.UtpHandler
import GenUtp.Delivery
import GenUtp.Step
import GenUtp.SendStream
import GenUtp.ReadStream
import GenUtp.Sockets
import GenUtp.Lifecycle
import GenUtp.Waiters
import GenUtp.CloseHandshake
import GenUtp.Teardown
import GenUtp.Port
import GenUtp.Wakeups
import GenUtp.SendCall
import GenUtp.Listener
import GenUtp.Acceptors
import GenUtp.Arrivals
import GenUtp.Monitors
import GenUtp.AcceptCall
import GenUtp.Requests
import GenUtp.OptionGrammar
import GenUtp.Options
import GenUtp.Getopts
import GenUtp.SocketCalls
import GenUtp.Binding
import GenUtp.ActiveDelivery
import GenUtp.ConnectCall
import GenUtp.RecvCall
import GenUtp.WriteQueues
import GenUtp.Datagrams
import GenUtp.HeaderSplit
import GenUtp.FrameHeader
import GenUtp.OptionOrder
import GenUtp.HeaderMode
import GenUtp.Descriptors
import GenUtp.DriverTerms
import GenUtp.Enqueue
import GenUtp.OptionMerge
import GenUtp.ActiveOnce
import GenUtp.SendDeadline
import GenUtp.OpenPorts
import GenUtp.FrameStream
import GenUtp.Connection
import GenUtp.ClosedPort
import GenUtp.MainHandlers
import GenUtp.ServerPort
import GenUtp.LockOrder
import GenUtp.Wire
import GenUtp.Transfer
import GenUtp.Ownership
import GenUtp.Binaries
