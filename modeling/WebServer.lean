import WebServer.Foundation.Block
import WebServer.Foundation.Dispatch
import WebServer.Foundation.Fallible
import WebServer.Foundation.Heap
import WebServer.Foundation.Ledger
import WebServer.Foundation.Lines
import WebServer.Foundation.Loop
import WebServer.Foundation.Monitor
import WebServer.Foundation.MonitorProgress
import WebServer.Foundation.OrderedSet
import WebServer.Foundation.Packing
import WebServer.Foundation.RoundRobin
import WebServer.Foundation.Search
import WebServer.Foundation.Stages
import WebServer.Foundation.Trace
import WebServer.Foundation.Window
import WebServer.Http.Content
import WebServer.Http.ContentLines
import WebServer.Http.Conversation
import WebServer.Http.Decimal
import WebServer.Http.Exchange
import WebServer.Http.Framing
import WebServer.Http.Fresh
import WebServer.Http.GracefulShutdown
import WebServer.Http.HalfClose
import WebServer.Http.HeadEnd
import WebServer.Http.HeadGrammar
import WebServer.Http.IdleChecks
import WebServer.Http.IdleConnections
import WebServer.Http.IdleDeadlines
import WebServer.Http.IdleWatch
import WebServer.Http.Incremental
import WebServer.Http.InputIndices
import WebServer.Http.Isolation
import WebServer.Http.KeepAlive
import WebServer.Http.LineBoundary
import WebServer.Http.Request
import WebServer.Http.RequestLine
import WebServer.Http.Response
import WebServer.Http.RoundTrip
import WebServer.Http.Segmentation
import WebServer.Http.Server
import WebServer.Http.ServerCallbacks
import WebServer.Http.ServerRun
import WebServer.Http.Site
import WebServer.Log.AsyncLogging
import WebServer.Log.AsyncLoggingContent
import WebServer.Log.AsyncLoggingSafety
import WebServer.Log.AsyncLoggingStop
import WebServer.Log.FormatInteger
import WebServer.Log.HeaderCache
import WebServer.Log.LogFile
import WebServer.Log.LogFiles
import WebServer.Log.LogFlush
import WebServer.Log.LogLines
import WebServer.Log.LogStream
import WebServer.Log.LogSystem
import WebServer.Log.Logging
import WebServer.Log.RawFixedBuffer
import WebServer.Log.RecordEnd
import WebServer.Timers.HandleReadRun
import WebServer.Timers.PendingTimers
import WebServer.Timers.Punctuality
import WebServer.Timers.TimerHistory
import WebServer.Timers.TimerLoop
import WebServer.Timers.TimerOwnership
import WebServer.Timers.TimerQueue
import WebServer.Timers.TimerfdArming
import WebServer.Util.Acceptor
import WebServer.Util.Buffer
import WebServer.Util.ByteQueue
import WebServer.Util.ConnectionCallbacks
import WebServer.Util.ConnectionLifecycle
import WebServer.Util.ConnectionOrder
import WebServer.Util.ConnectionReplay
import WebServer.Util.Epoller
import WebServer.Util.EventLoop
import WebServer.Util.IntBuffer
import WebServer.Util.Latch
import WebServer.Util.Lifecycle
import WebServer.Util.LoopSelection
import WebServer.Util.Output
import WebServer.Util.PendingTasks
import WebServer.Util.Pointers
import WebServer.Util.PoolStart
import WebServer.Util.QueueProgress
import WebServer.Util.Registration
import WebServer.Util.ServerActivity
import WebServer.Util.ServerBalance
import WebServer.Util.ServerInvariant
import WebServer.Util.ServerLoops
import WebServer.Util.ServerObjects
import WebServer.Util.ServerQueues
import WebServer.Util.TcpConnection
import WebServer.Util.TcpServer
import WebServer.Util.Teardown
import WebServer.Util.ThreadStart
import WebServer.Util.Unwatched
