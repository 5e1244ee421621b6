import Wshttp.Lib.Run
import Wshttp.Lib.Fifo
import Wshttp.Lib.History
import Wshttp.Lib.PtrMap
import Wshttp.Lib.Keyed
import Wshttp.Lib.Text
import Wshttp.Lib.Fields
import Wshttp.Lib.Prefixed
import Wshttp.Lib.Callbacks
import Wshttp.Lib.Reclaim
import Wshttp.Lib.Holdings
import Wshttp.Types
import Wshttp.Encoding
import Wshttp.Address
import Wshttp.Address.In4
import Wshttp.Address.In6
import Wshttp.AddressFamily
import Wshttp.Address.Text
import Wshttp.EventLoop.JobQueue
import Wshttp.EventLoop.Batch
import Wshttp.EventLoop.CallGet
import Wshttp.EventLoop.Served
import Wshttp.EventLoop.Progress
import Wshttp.EventLoop.Hosted
import Wshttp.EventLoop.Watcher
import Wshttp.EventLoop.CallEvery
import Wshttp.EventLoop.CallLater
import Wshttp.EventLoop.Tickers
import Wshttp.EventLoop.StopThread
import Wshttp.EventLoop.ClientId
import Wshttp.EventLoop.Deleter
import Wshttp.EventLoop.Shutdown
import Wshttp.Session.Io
import Wshttp.Session.SendHook
import Wshttp.Session.Frame
import Wshttp.Session.Input
import Wshttp.Session.Flush
import Wshttp.Listener.World
import Wshttp.Listener.Accept
import Wshttp.Listener.CloseJobs
import Wshttp.Listener.Ledger
import Wshttp.Listener.OnLoop
import Wshttp.Url
import Wshttp.Url.Accessors
import Wshttp.Url.Interleaved
import Wshttp.Node
import Wshttp.Node.BindArgument
import Wshttp.Node.Socket
import Wshttp.Session.Deferred
import Wshttp.Session.Failures
import Wshttp.Endpoint
import Wshttp.Endpoint.Dial
import Wshttp.Endpoint.Ports
import Wshttp.Endpoint.Listens
import Wshttp.Endpoint.Answers
import Wshttp.Endpoint.Teardown
import Wshttp.Endpoint.Sockets
import Wshttp.Request
import Wshttp.Request.Cursor
import Wshttp.Stream.Calls
import Wshttp.Stream.Hooks
import Wshttp.Stream.OneStream
import Wshttp.Stream.Lifecycle
import Wshttp.Stream.Isolation
import Wshttp.Stream.Descriptors
import Wshttp.Stream.OriginForm
import Wshttp.Stream.Confined
import Wshttp.Stream.FileRead
import Wshttp.Stream.ErrorPage
import Wshttp.Literals
import Wshttp.Stream.Response
import Wshttp.Stream.OnlyErrorPages
import Wshttp.Session.Arrival
import Wshttp.Session.Outbound
import Wshttp.Context
import Wshttp.Context.Alpn
import Wshttp.BufferPrinter
import Wshttp.Format
import Wshttp.Rejected
