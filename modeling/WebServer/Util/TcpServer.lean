import Mathlib.Data.Fintype.Basic
import Mathlib.Data.List.AList
import WebServer.Foundation.Run
import WebServer.Util.ConnectionCallbacks
import WebServer.Util.EventLoop
import WebServer.Util.Lifecycle

/-!
# The TCP server and its loops

A `TcpServer` accepts connections in its base loop, hands them to the loops of its thread
pool, and keeps a pointer to each of them in `connections_` until it is closed. A pointer to
a connection is its index in the list of all connections constructed so far, which is also
the address of its channel. `alive` is the existence of the object, and so of its descriptor:
it may end when no entry of `connections_` and no queued function holds a pointer.

Every loop is an `EventLoop`, and every step of the server is a step of one loop, together
with what the callback or the function started by it does. A callback of a channel is one
step, which ends the callback. A queued function is started and pushes in one step, and ends
in another one. A thread may take other steps between a push and the write to the eventfd,
which only adds runs. The object of a pointer is not tested before it is used.
-/

namespace WebServer.Util

open WebServer.Foundation
open WebServer.Http (HttpContent)

/-- The functions handed to `QueueOneFunc`; `addTimerInLoop` stands for the functions that
hold no pointer to a connection. -/
inductive BaseFunc where
  | connectionEstablished (id : ℕ)
  | handleCloseInLoop (id : ℕ)
  | connectionDestructor (id : ℕ)
  | addTimerInLoop
deriving DecidableEq

/-- The connection to which a function holds a pointer. -/
def BaseFunc.connection : BaseFunc → Option ℕ
  | connectionEstablished id => some id
  | handleCloseInLoop id => some id
  | connectionDestructor id => some id
  | addTimerInLoop => none

/-- The callbacks which `HandleEvent` calls: of the acceptor, of the timer queue, and the read
and write callbacks of a connection. -/
inductive Callback where
  | newConn
  | timer
  | handleMessage (id : ℕ)
  | handleWrite (id : ℕ)
deriving DecidableEq

/-- An event reported by `epoll_wait`: of the eventfd, of the listening socket, of the timer, or
of the descriptor of a connection. -/
inductive Report where
  | wakeup
  | acceptor
  | timer
  | ready (fd : ℕ) (revent : Events)
deriving DecidableEq

/-- `EventLoopThreadPool`, once its threads were started. -/
structure EventLoopThreadPool (Loop : Type) where
  baseLoop : Loop
  loops : List Loop
  next : ℕ

namespace EventLoopThreadPool

variable {Loop : Type}

/-- The loop which `NextLoop()` returns. -/
def nextLoop (pool : EventLoopThreadPool Loop) : Loop :=
  if pool.loops.isEmpty then pool.baseLoop else pool.loops.getD pool.next pool.baseLoop

/-- What `NextLoop()` does to the pool. -/
def advance (pool : EventLoopThreadPool Loop) : EventLoopThreadPool Loop :=
  if pool.loops.isEmpty then pool else { pool with next := (pool.next + 1) % pool.loops.length }

end EventLoopThreadPool

/-- A connection, its loop, whether the object exists, and what happened to it. -/
structure Connection (Loop : Type) extends TcpConnection where
  loop : Loop
  alive : Bool
  history : List (LifecycleEvent Loop)

/-- The connection with the epoller of its loop. -/
def Connection.session {Loop : Type} (c : Connection Loop) (epoller : Epoller) : Session where
  toTcpConnection := c.toTcpConnection
  epoller := epoller
  calls := []

/-- The data members of `TcpServer`, the connections constructed so far, and of every loop the
queue and the epoller. -/
structure TcpServer (Loop : Type) where
  threadPool : EventLoopThreadPool Loop
  connections : AList fun _ : ℕ => ℕ
  objects : List (Connection Loop)
  loops : Loop → EventLoop BaseFunc Callback Loop
  epollers : Loop → Epoller

/-- The steps: a step of a loop that concerns no connection, the return of `epoll_wait`, the end of
a callback of the acceptor or of the timer, the other callbacks, the start of a queued function, a
`Shutdown` by the idle timer, and the end of an object. What the environment decides is part of the
action. -/
inductive ServerAction (Loop : Type) where
  | internal (loop : Loop) (action : LoopAction BaseFunc Callback Loop)
  | poll (loop : Loop) (reports : List Report)
  | callbackDone (loop : Loop)
  | newConn (fd : ℕ) (now : ℤ) (content : HttpContent) (calls : List UserCall)
  | handleMessage (loop : Loop) (data : Option Bytes) (calls : List UserCall)
  | handleWrite (loop : Loop) (result : SendResult)
  | runNext (loop : Loop) (calls : List UserCall)
  | idleShutdown (loop : Loop) (id : ℕ)
  | destroy (id : ℕ)

/-- The steps of a loop that concern no connection. -/
def LoopAction.isInternal {Loop : Type} : LoopAction BaseFunc Callback Loop → Bool
  | .push _ func => func = .addTimerInLoop
  | .ownPush func => func = .addTimerInLoop
  | .poll _ => false
  | .handlerDone => false
  | .runNext => false
  | _ => true

/-- The callback that is running. -/
def LoopPosition.callback : LoopPosition BaseFunc Callback → Option Callback
  | .handling (.other callback :: _) => some callback
  | _ => none

/-- The function that is started next. -/
def LoopPosition.nextFunc : LoopPosition BaseFunc Callback → Option BaseFunc
  | .running (func :: _) => some func
  | _ => none

/-- The callbacks which `HandleEvent` calls for a connection, in this order. -/
def callbacks (address : ℕ) (revent : Events) : List (ActiveChannel Callback) :=
  (if revent.epollin then [.other (.handleMessage address)] else []) ++
    if revent.epollout then [.other (.handleWrite address)] else []

namespace Report

/-- The descriptor of a connection that is reported. -/
def fd? : Report → Option ℕ
  | ready fd _ => some fd
  | _ => none

/-- `epoll_wait` may report this: only the base loop has an acceptor, and a descriptor is reported
for events it is registered for. -/
def possible (epoller : Epoller) (inBaseLoop : Bool) : Report → Bool
  | acceptor => inBaseLoop
  | ready fd revent => match epoller.interest fd with
    | some (event, _) => (revent.epollin → event.epollin) ∧ (revent.epollout → event.epollout)
    | none => false
  | _ => true

/-- The callbacks that follow from an event; the channel is the one that was registered. -/
def active (epoller : Epoller) : Report → List (ActiveChannel Callback)
  | wakeup => [.wakeup]
  | acceptor => [.other .newConn]
  | timer => [.other .timer]
  | ready fd revent => match epoller.interest fd with
    | some (_, address) => callbacks address revent
    | none => []

end Report

namespace TcpServer

variable {Loop : Type} [DecidableEq Loop]

/-- A server whose threads were started and that accepted no connection yet. -/
def new (threadPool : EventLoopThreadPool Loop) : TcpServer Loop where
  threadPool := threadPool
  connections := ∅
  objects := []
  loops _ := .new
  epollers _ := .new

/-- `base_loop_`. -/
def baseLoop (s : TcpServer Loop) : Loop := s.threadPool.baseLoop

/-- One step of a loop. -/
def loopStep (s : TcpServer Loop) (loop : Loop) (action : LoopAction BaseFunc Callback Loop) :
    Option (TcpServer Loop) :=
  ((s.loops loop).step action).map fun next => { s with loops := Function.update s.loops loop next }

/-- The push of a loop's function by its own thread or by the thread of another loop. -/
def queueAction (thread loop : Loop) (func : BaseFunc) : LoopAction BaseFunc Callback Loop :=
  if thread = loop then .ownPush func else .push thread func

/-- `QueueOneFunc(func)` of a loop, called by this thread. -/
def queueOneFunc (s : TcpServer Loop) (thread loop : Loop) (func : BaseFunc) : Option (TcpServer Loop) :=
  s.loopStep loop (queueAction thread loop func)

/-- Write back a connection and the epoller of its loop, and extend its history. -/
def store (s : TcpServer Loop) (id : ℕ) (c : Connection Loop) (session : Session)
    (events : List (LifecycleEvent Loop)) : TcpServer Loop :=
  { s with
    objects := s.objects.set id { c with
      toTcpConnection := session.toTcpConnection, history := c.history ++ events }
    epollers := Function.update s.epollers c.loop session.epoller }

/-- Call a function of a connection. -/
def call (s : TcpServer Loop) (id : ℕ) (events : List (LifecycleEvent Loop)) (function : Session → Session) :
    Option (TcpServer Loop) :=
  s.objects[id]?.map fun c => s.store id c (function (c.session (s.epollers c.loop))) events

/-- The descriptor belongs to a connection that exists. -/
def isOpen (s : TcpServer Loop) (fd : ℕ) : Bool := s.objects.any fun c => c.alive && c.channel.fd = fd

/-- `HandleNewConn(connfd, address)` up to the call of `RunOneFunc`. -/
def addConnection (s : TcpServer Loop) (fd : ℕ) (now : ℤ) (content : HttpContent) : TcpServer Loop :=
  { s with
    threadPool := s.threadPool.advance
    connections := s.connections.insert fd s.objects.length
    objects := s.objects ++ [{
      state := .kDisconnected
      channel := .new s.objects.length fd
      timestamp := now
      inputBuffer := .new
      outputBuffer := .new
      content := content
      loop := s.threadPool.nextLoop
      alive := true
      history := [.handleNewConn (s.connections.lookup fd)] }] }

/-- `RunOneFunc` for `ConnectionEstablished`, called in the base loop. -/
def runConnectionEstablished (s : TcpServer Loop) (id : ℕ) (loop : Loop) (calls : List UserCall) :
    Option (TcpServer Loop) :=
  if loop = s.baseLoop then s.call id [.connectionEstablished s.baseLoop] (·.establish calls)
  else s.queueOneFunc s.baseLoop loop (.connectionEstablished id)

/-- `HandleNewConn(connfd, address)`. -/
def handleNewConn (s : TcpServer Loop) (fd : ℕ) (now : ℤ) (content : HttpContent) (calls : List UserCall) :
    Option (TcpServer Loop) :=
  (s.addConnection fd now content).runConnectionEstablished s.objects.length s.threadPool.nextLoop calls

/-- `HandleClose(ptr)`. -/
def handleClose (s : TcpServer Loop) (thread : Loop) (id : ℕ) : Option (TcpServer Loop) :=
  s.queueOneFunc thread s.baseLoop (.handleCloseInLoop id)

/-- `HandleMessage()` of a connection, with the close callback. -/
def handleMessage (s : TcpServer Loop) (thread : Loop) (id : ℕ) (data : Option Bytes) (calls : List UserCall) :
    Option (TcpServer Loop) :=
  (s.call id [.handleMessage (data = some [])] (·.handleMessage calls data)).bind fun s =>
    if data = some [] then s.handleClose thread id else some s

/-- The erasure in `HandleCloseInLoop(ptr)`. -/
def eraseConnection (s : TcpServer Loop) (id : ℕ) (c : Connection Loop) : TcpServer Loop :=
  { s with
    connections := s.connections.erase c.channel.fd
    objects := s.objects.set id { c with
      history := c.history ++ [.handleCloseInLoop (s.connections.lookup c.channel.fd)] } }

/-- `HandleCloseInLoop(ptr)`. -/
def handleCloseInLoop (s : TcpServer Loop) (thread : Loop) (id : ℕ) : Option (TcpServer Loop) :=
  s.objects[id]?.bind fun c => (s.eraseConnection id c).queueOneFunc thread c.loop (.connectionDestructor id)

/-- Call a function that was queued. -/
def runFunc (s : TcpServer Loop) (thread : Loop) (calls : List UserCall) : BaseFunc → Option (TcpServer Loop)
  | .connectionEstablished id => s.call id [.connectionEstablished thread] (·.establish calls)
  | .handleCloseInLoop id => s.handleCloseInLoop thread id
  | .connectionDestructor id => s.call id [.connectionDestructor thread] (·.connectionDestructor)
  | .addTimerInLoop => some s

/-- `HandleIdleConnection(connection)` when the connection was idle: its pointer is weak. -/
def idleShutdown (s : TcpServer Loop) (id : ℕ) : Option (TcpServer Loop) :=
  s.objects[id]?.bind fun c => if c.alive then s.call id [] (·.shutdown) else none

/-- A pointer to the connection is held by `connections_`, by a queue or by a batch. -/
def Referenced (s : TcpServer Loop) (id : ℕ) : Prop :=
  (∃ entry ∈ s.connections.entries, entry.2 = id) ∨
    ∃ loop, ∃ func ∈ (s.loops loop).toDoList ++ (s.loops loop).funclists, func.connection = some id

/-- With finitely many loops the pointers can be counted. -/
instance [Fintype Loop] (s : TcpServer Loop) (id : ℕ) : Decidable (s.Referenced id) :=
  inferInstanceAs (Decidable (_ ∨ _))

/-- `~TcpConnection()`, which closes the descriptor. -/
def closeConnection (s : TcpServer Loop) (id : ℕ) (c : Connection Loop) : TcpServer Loop :=
  { s with objects := s.objects.set id { c with
      alive := false
      history := c.history ++
        [.close (s.connections.lookup c.channel.fd) ((s.epollers c.loop).channelmap c.channel.fd)] } }

/-- The object ends, at the earliest when the last pointer is gone. -/
def destroy [Fintype Loop] (s : TcpServer Loop) (id : ℕ) : Option (TcpServer Loop) :=
  s.objects[id]?.bind fun c => if c.alive ∧ ¬ s.Referenced id then some (s.closeConnection id c) else none

/-- `epoll_wait` may return these events: each descriptor is reported once. -/
def possible (s : TcpServer Loop) (loop : Loop) (reports : List Report) : Bool :=
  (reports.filterMap Report.fd?).Nodup ∧ reports.all (Report.possible (s.epollers loop) (loop = s.baseLoop))

/-- One step; `none` when it is not enabled. -/
def step [Fintype Loop] (s : TcpServer Loop) : ServerAction Loop → Option (TcpServer Loop)
  | .internal loop action => if action.isInternal then s.loopStep loop action else none
  | .poll loop reports =>
    if s.possible loop reports then s.loopStep loop (.poll (reports.flatMap
      (Report.active (s.epollers loop)))) else none
  | .callbackDone loop =>
    if (s.loops loop).position.callback = some .newConn ∨ (s.loops loop).position.callback = some .timer then
      s.loopStep loop .handlerDone
    else none
  | .newConn fd now content calls =>
    if (s.loops s.baseLoop).position.callback = some .newConn ∧ s.isOpen fd = false then
      (s.handleNewConn fd now content calls).bind (·.loopStep s.baseLoop .handlerDone)
    else none
  | .handleMessage loop data calls =>
    match (s.loops loop).position.callback with
    | some (.handleMessage id) => (s.handleMessage loop id data calls).bind (·.loopStep loop .handlerDone)
    | _ => none
  | .handleWrite loop result =>
    match (s.loops loop).position.callback with
    | some (.handleWrite id) => (s.call id [.handleWrite] (·.handleWrite result)).bind
        (·.loopStep loop .handlerDone)
    | _ => none
  | .runNext loop calls =>
    match (s.loops loop).position.nextFunc with
    | some func => (s.loopStep loop .runNext).bind (·.runFunc loop calls func)
    | none => none
  | .idleShutdown loop id =>
    if (s.loops loop).position.callback = some .timer then s.idleShutdown id else none
  | .destroy id => s.destroy id

end TcpServer

end WebServer.Util
