import WebServer.Util.LoopSelection
import WebServer.Util.ServerInvariant

/-!
# The loops of the accepted connections

`HandleNewConn` takes the loop of a connection from `NextLoop()`. Nothing else moves the cursor of
the pool or changes the loop of a connection, so the loops of the connections, in the order in which
these are accepted, are what consecutive calls of `NextLoop()` return. The balance of the calls is
therefore the balance of the connections, whatever else the loops do in between.
-/

namespace WebServer.Util

open WebServer.Foundation
open WebServer.Http (HttpContent)

/-- The last of the next calls of `NextLoop()`. -/
theorem EventLoopThreadPool.selections_concat {Loop : Type} (pool : EventLoopThreadPool Loop) (k : ℕ) :
    pool.selections (k + 1) = pool.selections k ++ [(EventLoopThreadPool.advance^[k] pool).nextLoop] := by
  induction k generalizing pool with
  | zero => rfl
  | succ k ih => rw [selections, ih, selections, List.cons_append, Function.iterate_succ_apply]

namespace TcpServer

variable {Loop : Type} [DecidableEq Loop] {s s' : TcpServer Loop} {thread loop : Loop} {id : ℕ}

/-- The loops of the connections, in the order in which these were accepted. -/
def assigned (s : TcpServer Loop) : List Loop := s.objects.map Connection.loop

/-- The cursor and the loops of the connections stay as they are. -/
structure KeepsLoops (s s' : TcpServer Loop) : Prop where
  threadPool : s'.threadPool = s.threadPool
  assigned : s'.assigned = s.assigned

omit [DecidableEq Loop] in
/-- One part of a step after the other. -/
theorem KeepsLoops.trans {s t u : TcpServer Loop} (h : KeepsLoops s t) (h' : KeepsLoops t u) : KeepsLoops s u :=
  ⟨h'.threadPool.trans h.threadPool, h'.assigned.trans h.assigned⟩

omit [DecidableEq Loop] in
/-- A connection that is written back keeps its loop. -/
theorem map_loop_set {objects : List (Connection Loop)} {c d : Connection Loop} (hid : objects[id]? = some c)
    (hloop : d.loop = c.loop) : (objects.set id d).map Connection.loop = objects.map Connection.loop := by
  obtain ⟨hlt, rfl⟩ := List.getElem?_eq_some_iff.mp hid
  have hmapped : id < (objects.map Connection.loop).length := by rwa [List.length_map]
  have hsame : d.loop = (objects.map Connection.loop)[id] := by rw [hloop, List.getElem_map]
  rw [List.map_set, hsame, List.set_getElem_self]

/-- A step of a loop. -/
theorem keepsLoops_loopStep {action : LoopAction BaseFunc Callback Loop} (h : s.loopStep loop action = some s') :
    KeepsLoops s s' := by
  obtain ⟨next, -, rfl⟩ := loopStep_eq_some h
  exact ⟨rfl, rfl⟩

/-- A function of a connection. -/
theorem keepsLoops_call {events : List (LifecycleEvent Loop)} {function : Session → Session}
    (h : s.call id events function = some s') : KeepsLoops s s' := by
  obtain ⟨c, hid, rfl⟩ := Option.map_eq_some_iff.mp h
  exact ⟨rfl, map_loop_set hid rfl⟩

/-- The callback for input, with the push of `HandleCloseInLoop`. -/
theorem keepsLoops_handleMessage {data : Option Bytes} {calls : List UserCall}
    (h : s.handleMessage thread id data calls = some s') : KeepsLoops s s' := by
  obtain ⟨t, hcall, hclose⟩ := Option.bind_eq_some_iff.mp h
  have hfirst := keepsLoops_call hcall
  split at hclose
  · exact hfirst.trans (keepsLoops_loopStep hclose)
  · obtain rfl := Option.some.inj hclose
    exact hfirst

/-- The erasure of a connection, with the push of `ConnectionDestructor`. -/
theorem keepsLoops_handleCloseInLoop (h : s.handleCloseInLoop thread id = some s') : KeepsLoops s s' := by
  obtain ⟨c, hid, hqueue⟩ := Option.bind_eq_some_iff.mp h
  have herase : KeepsLoops s (s.eraseConnection id c) := ⟨rfl, map_loop_set hid rfl⟩
  exact herase.trans (keepsLoops_loopStep hqueue)

/-- A function that was queued. -/
theorem keepsLoops_runFunc {calls : List UserCall} {func : BaseFunc} (h : s.runFunc thread calls func = some s') :
    KeepsLoops s s' := by
  cases func with
  | connectionEstablished id =>
    rw [runFunc] at h
    exact keepsLoops_call h
  | handleCloseInLoop id => exact keepsLoops_handleCloseInLoop h
  | connectionDestructor id =>
    rw [runFunc] at h
    exact keepsLoops_call h
  | addTimerInLoop =>
    obtain rfl := Option.some.inj h
    exact ⟨rfl, rfl⟩

/-- A `Shutdown` by the idle timer. -/
theorem keepsLoops_idleShutdown (h : s.idleShutdown id = some s') : KeepsLoops s s' := by
  obtain ⟨c, -, hcall⟩ := Option.bind_eq_some_iff.mp h
  split at hcall
  · exact keepsLoops_call hcall
  · cases hcall

omit [DecidableEq Loop] in
/-- The end of an object. -/
theorem keepsLoops_destroy [Fintype Loop] (h : s.destroy id = some s') : KeepsLoops s s' := by
  obtain ⟨c, hid, hclose⟩ := Option.bind_eq_some_iff.mp h
  split at hclose
  · obtain rfl := Option.some.inj hclose
    exact ⟨rfl, map_loop_set hid rfl⟩
  · cases hclose

/-- `HandleNewConn` gives the connection the loop which `NextLoop()` returns. -/
structure Accepts (s s' : TcpServer Loop) : Prop where
  threadPool : s'.threadPool = s.threadPool.advance
  assigned : s'.assigned = s.assigned ++ [s.threadPool.nextLoop]

/-- An accepted connection. -/
theorem accepts_handleNewConn {fd : ℕ} {now : ℤ} {content : HttpContent} {calls : List UserCall}
    (h : s.handleNewConn fd now content calls = some s') : Accepts s s' := by
  have hadd : Accepts s (s.addConnection fd now content) := ⟨rfl, List.map_append⟩
  have hkeeps : KeepsLoops (s.addConnection fd now content) s' := by
    rw [handleNewConn, runConnectionEstablished] at h
    split at h
    · exact keepsLoops_call h
    · exact keepsLoops_loopStep h
  exact ⟨hkeeps.threadPool.trans hadd.threadPool, hkeeps.assigned.trans hadd.assigned⟩

/-- A step accepts a connection, or it keeps the cursor and the loops of all connections. -/
theorem keepsLoops_or_accepts [Fintype Loop] {action : ServerAction Loop} (h : s.step action = some s') :
    KeepsLoops s s' ∨ Accepts s s' := by
  cases stepped_of_step h with
  | internal _ hstep => exact .inl (keepsLoops_loopStep hstep)
  | poll _ hstep => exact .inl (keepsLoops_loopStep hstep)
  | callbackDone _ hstep => exact .inl (keepsLoops_loopStep hstep)
  | newConn _ _ hcall hdone =>
    have haccepts := accepts_handleNewConn hcall
    have hkeeps := keepsLoops_loopStep hdone
    exact .inr ⟨hkeeps.threadPool.trans haccepts.threadPool, hkeeps.assigned.trans haccepts.assigned⟩
  | handleMessage _ hcall hdone => exact .inl ((keepsLoops_handleMessage hcall).trans (keepsLoops_loopStep hdone))
  | handleWrite _ hcall hdone => exact .inl ((keepsLoops_call hcall).trans (keepsLoops_loopStep hdone))
  | runNext _ hstart hcall => exact .inl ((keepsLoops_loopStep hstart).trans (keepsLoops_runFunc hcall))
  | idleShutdown _ hcall => exact .inl (keepsLoops_idleShutdown hcall)
  | destroy hended => exact .inl (keepsLoops_destroy hended)

/-- The connections have the loops which the calls of `NextLoop()` returned, and the cursor is where these
left it. -/
structure InTurn (threadPool : EventLoopThreadPool Loop) (s : TcpServer Loop) : Prop where
  assigned : s.assigned = threadPool.selections s.assigned.length
  threadPool : s.threadPool = EventLoopThreadPool.advance^[s.assigned.length] threadPool

/-- Every step keeps the connections in turn. -/
theorem inTurn_step [Fintype Loop] {threadPool : EventLoopThreadPool Loop} (s : TcpServer Loop)
    (action : ServerAction Loop) (s' : TcpServer Loop) (h : InTurn threadPool s) (hstep : s.step action = some s') :
    InTurn threadPool s' := by
  obtain hkeeps | haccepts := keepsLoops_or_accepts hstep
  · constructor
    · rw [hkeeps.assigned]
      exact h.assigned
    · rw [hkeeps.threadPool, hkeeps.assigned]
      exact h.threadPool
  · have hlength : s'.assigned.length = s.assigned.length + 1 := by
      rw [haccepts.assigned, List.length_append, List.length_singleton]
    constructor
    · rw [hlength, EventLoopThreadPool.selections_concat, ← h.assigned, ← h.threadPool]
      exact haccepts.assigned
    · rw [hlength, haccepts.threadPool, h.threadPool, Function.iterate_succ_apply']

/-- In every run of a server the connections, in the order of their acceptance, have the loops which the pool
returns one after another. -/
theorem assigned_run [Fintype Loop] {threadPool : EventLoopThreadPool Loop} {actions : List (ServerAction Loop)}
    (hrun : run step (new threadPool) actions = some s) :
    s.assigned = threadPool.selections s.assigned.length :=
  (run_invariant inTurn_step ⟨rfl, rfl⟩ hrun).assigned

/-- In every run of a server with threads, any section of the accepted connections is spread evenly over the
loops of the threads. -/
theorem connections_balanced [Fintype Loop] {threadPool : EventLoopThreadPool Loop}
    (hnodup : threadPool.loops.Nodup) (hnext : threadPool.next < threadPool.loops.length)
    {actions : List (ServerAction Loop)} (hrun : run step (new threadPool) actions = some s) {passed : List Loop}
    (hpassed : passed <:+: s.assigned) : Balanced threadPool.loops passed := by
  rw [assigned_run hrun] at hpassed
  exact EventLoopThreadPool.selections_balanced hnodup hnext hpassed

end TcpServer

end WebServer.Util
