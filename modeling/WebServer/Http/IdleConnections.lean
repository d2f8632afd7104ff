import WebServer.Http.Isolation
import WebServer.Http.ServerCallbacks
import WebServer.Timers.PendingTimers

/-!
# The connections and the timers of the HTTP server

`ConnectionCallback` starts a timer of eight seconds for every new connection, and
`HandleIdleConnection` shuts the connection down if it was not active for more than this time.
Otherwise it does nothing: the branch that would start the next timer is commented out.

The connections and the timer queue take steps in any order. Other timers may be in the queue.
-/

namespace WebServer.Http

open WebServer.Timers (TimerQueue TimerAction TimerRequest addTime)
open WebServer.Util (Session UserCall Epoller)

/-- The callbacks of timers: the idle check of a connection, or another function. -/
inductive TimerCallback where
  | handleIdleConnection (connection : ℕ)
  | other
deriving DecidableEq

/-- The connection which a callback checks. -/
def TimerCallback.checks : TimerCallback → Option ℕ
  | handleIdleConnection connection => some connection
  | other => none

/-- Only the idle check of a connection checks it. -/
theorem TimerCallback.checks_eq_some {callback : TimerCallback} {id : ℕ} :
    callback.checks = some id ↔ callback = .handleIdleConnection id := by
  cases callback with
  | handleIdleConnection connection => simp [checks]
  | other => simp [checks]

/-- `kIdleConnectionTimeOuts`. -/
def kIdleConnectionTimeOuts : ℚ := 8

/-- The timer queue of the server's loop, the connections that exist under their numbers, and how
many were established. -/
structure HttpLoop where
  timerQueue : TimerQueue TimerCallback
  connections : ℕ → Option Session
  established : ℕ

/-- What can happen: a connection is established, an event or a shutdown of a connection, the end of
its object, another timer is made, and the timer queue takes a step. -/
inductive HttpLoopAction where
  | connectionEstablished (fd : ℕ) (constructed : ℤ) (content : HttpContent) (epoller : Epoller) (timer : ℕ)
      (inThreadLoop : Bool)
  | connection (id : ℕ) (event : ConnectionEvent)
  | destroyed (id : ℕ)
  | otherTimer (timer : ℕ) (inThreadLoop : Bool) (request : TimerRequest)
  | timers (action : TimerAction TimerCallback)

/-- The event at this time. -/
def ConnectionEvent.atTime (now : ℤ) : ConnectionEvent → ConnectionEvent
  | readable data inputs => readable data { inputs with now }
  | writable result => writable result
  | idleShutdown => idleShutdown

namespace HttpLoop

/-- A server without connections. -/
def new (wall monotonic : ℤ) : HttpLoop := ⟨.new wall monotonic, fun _ => none, 0⟩

/-- The last activity is more than the time out ago. -/
def isIdle (s : HttpLoop) (connection : Session) : Bool :=
  addTime connection.timestamp kIdleConnectionTimeOuts < s.timerQueue.wall

/-- `HandleIdleConnection(connection)`. -/
def handleIdleConnection (s : HttpLoop) (id : ℕ) : HttpLoop :=
  match s.connections id with
  | some connection =>
    if s.isIdle connection
    then { s with connections := Function.update s.connections id (some connection.shutdown) }
    else s
  | none => s

/-- The connection which an action checks. -/
def checked (s : HttpLoop) : HttpLoopAction → Option ℕ
  | .timers action => (s.timerQueue.firing action).bind fun timer => timer.callback.checks
  | _ => none

end HttpLoop

namespace HttpServer

/-- `ConnectionCallback(connection)`. -/
def connectionCallback (server : HttpServer) (s : HttpLoop) (id timer : ℕ) (inThreadLoop : Bool) :
    Option HttpLoop :=
  if server.autoCloseIdleconnection then
    (s.timerQueue.step (.addTimer timer inThreadLoop (.runAfter kIdleConnectionTimeOuts)
      (.handleIdleConnection id))).map fun timerQueue => { s with timerQueue }
  else some s

/-- Perform one action. The object of a connected connection does not end. -/
def loopStep (server : HttpServer) (s : HttpLoop) : HttpLoopAction → Option HttpLoop
  | .connectionEstablished fd constructed content epoller timer inThreadLoop =>
    let connection := Session.started s.established fd constructed content epoller
    server.connectionCallback { s with
      connections := Function.update s.connections s.established (some connection)
      established := s.established + 1 } s.established timer inThreadLoop
  | .connection id event =>
    match s.connections id with
    | some connection => (server.connectionStep connection (event.atTime s.timerQueue.wall)).map fun connection' =>
        { s with connections := Function.update s.connections id (some connection') }
    | none => none
  | .destroyed id =>
    match s.connections id with
    | some connection =>
      if connection.state = .kConnected then none
      else some { s with connections := Function.update s.connections id none }
    | none => none
  | .otherTimer timer inThreadLoop request =>
    (s.timerQueue.step (.addTimer timer inThreadLoop request .other)).map fun timerQueue => { s with timerQueue }
  | .timers action =>
    if action.makesTimer then none
    else (s.timerQueue.step action).map fun timerQueue =>
      match s.checked (.timers action) with
      | some id => HttpLoop.handleIdleConnection { s with timerQueue } id
      | none => { s with timerQueue }

end HttpServer

/-- No call of a callback takes a connection back to `kConnected`. -/
theorem connected_of_call {s : Session} {call : UserCall} (h : (s.call call).state = .kConnected) :
    s.state = .kConnected := by
  cases call with
  | send message result => exact (Session.sameInput_send s message result).state.symm.trans h
  | shutdown => cases (Session.sameInput_shutdown s).state.symm.trans h
  | change timestamp inputBuffer content => exact h

/-- No callback takes a connection back to `kConnected`. -/
theorem connected_of_callAll {s : Session} {calls : List UserCall} (h : (s.callAll calls).state = .kConnected) :
    s.state = .kConnected := by
  induction calls generalizing s with
  | nil => exact h
  | cons call rest ih => exact connected_of_call (ih h)

/-- No event takes a connection back to `kConnected`. -/
theorem connected_of_connectionStep {server : HttpServer} {s s' : Session} {event : ConnectionEvent}
    (hstep : server.connectionStep s event = some s') (h : s'.state = .kConnected) : s.state = .kConnected := by
  cases event with
  | readable data inputs =>
    obtain ⟨-, hhandle⟩ := Option.ite_none_right_eq_some.mp hstep
    obtain ⟨calls, rfl⟩ := HttpServer.handleMessage_calls hhandle
    cases data with
    | none => exact h
    | some bytes =>
      cases bytes with
      | nil => cases h
      | cons first rest =>
        have hread := connected_of_callAll (s := { s with inputBuffer := s.inputBuffer.readFd (first :: rest) }) h
        exact hread
  | writable result =>
    obtain rfl := Option.some.inj hstep
    exact (Session.sameInput_handleWrite s result).state.symm.trans h
  | idleShutdown =>
    obtain rfl := Option.some.inj hstep
    cases (Session.sameInput_shutdown s).state.symm.trans h

namespace HttpLoop

variable {server : HttpServer} {s s' : HttpLoop}

/-- `HandleIdleConnection` shuts a connection down if it exists and is idle. -/
theorem handleIdleConnection_eq (s : HttpLoop) (id : ℕ) : s.handleIdleConnection id = { s with
    connections := Function.update s.connections id ((s.connections id).map fun connection =>
      if s.isIdle connection then connection.shutdown else connection) } := by
  rw [handleIdleConnection]
  cases hlive : s.connections id with
  | none =>
    rw [Option.map_none, ← hlive, Function.update_eq_self]
    simp only [hlive]
  | some connection =>
    simp only [Option.map_some]
    split
    · rfl
    · rw [← hlive, Function.update_eq_self]

/-- What a step of a server which closes idle connections does. -/
inductive LoopEffect (s : HttpLoop) : HttpLoopAction → HttpLoop → Prop where
  | connectionEstablished {fd : ℕ} {constructed : ℤ} {content : HttpContent} {epoller : Epoller} {timer : ℕ}
      {inThreadLoop : Bool} {queue : TimerQueue TimerCallback} (connection : Session)
      (step : s.timerQueue.step (.addTimer timer inThreadLoop (.runAfter kIdleConnectionTimeOuts)
        (.handleIdleConnection s.established)) = some queue) :
      LoopEffect s (.connectionEstablished fd constructed content epoller timer inThreadLoop)
        ⟨queue, Function.update s.connections s.established (some connection), s.established + 1⟩
  | connection {id : ℕ} {event : ConnectionEvent} {before after : Session} (live : s.connections id = some before)
      (connected : after.state = .kConnected → before.state = .kConnected) :
      LoopEffect s (.connection id event) { s with connections := Function.update s.connections id (some after) }
  | destroyed {id : ℕ} : LoopEffect s (.destroyed id)
    { s with connections := Function.update s.connections id none }
  | otherTimer {timer : ℕ} {inThreadLoop : Bool} {request : TimerRequest} {queue : TimerQueue TimerCallback}
      (step : s.timerQueue.step (.addTimer timer inThreadLoop request .other) = some queue) :
      LoopEffect s (.otherTimer timer inThreadLoop request) { s with timerQueue := queue }
  | timers {action : TimerAction TimerCallback} {queue : TimerQueue TimerCallback} {after : ℕ → Option Session}
      (makes : action.makesTimer = false) (step : s.timerQueue.step action = some queue)
      (connections : ∀ id, after id = (s.connections id).map fun connection =>
        if s.checked (.timers action) = some id ∧ s.isIdle connection then connection.shutdown else connection) :
      LoopEffect s (.timers action) ⟨queue, after, s.established⟩

/-- Every step has one of these effects. -/
theorem loopEffect_of_step (hauto : server.autoCloseIdleconnection = true) (howned : TimerQueue.Owned s.timerQueue)
    {action : HttpLoopAction} (hstep : server.loopStep s action = some s') : LoopEffect s action s' := by
  cases action with
  | connectionEstablished fd constructed content epoller timer inThreadLoop =>
    rw [HttpServer.loopStep, HttpServer.connectionCallback, if_pos hauto] at hstep
    obtain ⟨queue, hqueue, rfl⟩ := Option.map_eq_some_iff.mp hstep
    exact .connectionEstablished _ hqueue
  | connection id event =>
    rw [HttpServer.loopStep] at hstep
    split at hstep
    · next before hlive =>
      obtain ⟨after, hevent, rfl⟩ := Option.map_eq_some_iff.mp hstep
      exact .connection hlive (connected_of_connectionStep hevent)
    · cases hstep
  | destroyed id =>
    rw [HttpServer.loopStep] at hstep
    split at hstep
    · obtain ⟨-, hs'⟩ := Option.ite_none_left_eq_some.mp hstep
      obtain rfl := Option.some.inj hs'
      exact .destroyed
    · cases hstep
  | otherTimer timer inThreadLoop request =>
    obtain ⟨queue, hqueue, rfl⟩ := Option.map_eq_some_iff.mp hstep
    exact .otherTimer hqueue
  | timers action =>
    obtain ⟨hmakes, hmap⟩ := Option.ite_none_left_eq_some.mp hstep
    obtain ⟨queue, hqueue, hs'⟩ := Option.map_eq_some_iff.mp hmap
    have hnot : action.makesTimer = false := Bool.not_eq_true _ ▸ hmakes
    cases hchecked : s.checked (.timers action) with
    | none =>
      rw [hchecked] at hs'
      subst hs'
      refine .timers hnot hqueue fun id => ?_
      simp [hchecked]
    | some checked =>
      obtain ⟨timer, hfiring, -⟩ := Option.bind_eq_some_iff.mp hchecked
      have hwall := TimerQueue.wall_of_firing howned hqueue hfiring
      have hidle : ({ s with timerQueue := queue } : HttpLoop).isIdle = s.isIdle := by
        funext connection
        rw [isIdle, isIdle, hwall]
      rw [hchecked] at hs'
      simp only [handleIdleConnection_eq, hidle] at hs'
      subst hs'
      refine .timers hnot hqueue fun id => ?_
      rcases eq_or_ne id checked with rfl | hne
      · simp [hchecked]
      · simp [hchecked, hne, hne.symm]

end HttpLoop

end WebServer.Http
