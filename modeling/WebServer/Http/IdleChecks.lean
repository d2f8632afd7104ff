import WebServer.Foundation.Trace
import WebServer.Http.IdleWatch

/-!
# What an idle check does

A check compares the time when bytes were last read on its connection with the clock. If that was more than
eight seconds ago it shuts the connection down, and otherwise it does nothing. No connection is checked twice,
so a connection that is active shortly before its check stays open, and one that is not is shut down once.
-/

namespace WebServer.Util.Session

/-- Buffering output is no activity. -/
theorem timestamp_bufferUnsent (s : Session) (unsent : Bytes) :
    (s.bufferUnsent unsent).timestamp = s.timestamp := by
  have hbuffered (outputBuffer : IntBuffer) : (s.bufferOutput outputBuffer).timestamp = s.timestamp := by
    rw [bufferOutput]
    split
    · rfl
    · rfl
  rw [bufferUnsent]
  split
  · exact hbuffered _
  · rfl

/-- `Send` is no activity. -/
theorem timestamp_send (s : Session) (message : Bytes) (result : SendResult) :
    (s.send message result).timestamp = s.timestamp := by
  have hsent (len : ℤ) : ((s.record (.send message)).sendOrBuffer message len result).timestamp = s.timestamp := by
    rw [sendOrBuffer]
    split
    · cases result with
      | accepted count =>
        rw [sendDirectly]
        exact timestamp_bufferUnsent _ _
      | wouldBlock => rfl
      | failed => rfl
    · exact timestamp_bufferUnsent _ _
  exact hsent _

/-- `Shutdown` is no activity. -/
theorem timestamp_shutdown (s : Session) : s.shutdown.timestamp = s.timestamp := by
  rw [shutdown]
  split
  · rfl
  · rfl

/-- `HandleWrite` is no activity. -/
theorem timestamp_handleWrite (s : Session) (result : SendResult) :
    (s.handleWrite result).timestamp = s.timestamp := by
  have hfinish (s : Session) : s.finishWrite.timestamp = s.timestamp := by
    rw [finishWrite]
    split
    · split
      · exact timestamp_shutdown _
      · rfl
    · rfl
  rw [handleWrite]
  split
  · cases result with
    | accepted count => exact hfinish _
    | wouldBlock => rfl
    | failed => rfl
  · rfl

end WebServer.Util.Session

namespace WebServer.Http

open WebServer.Foundation
open WebServer.Timers (TimerQueue TimerAction addTime)
open WebServer.Util (Session ascii)

/-- The time when an event brings bytes. -/
def ConnectionEvent.activity : ConnectionEvent → Option ℤ
  | readable (some (_ :: _)) inputs => some inputs.now
  | _ => none

namespace HttpServer

variable {server : HttpServer} {s s' : Session}

/-- An answer is no activity. -/
theorem timestamp_answer (server : HttpServer) (inputs : CallbackInputs) (parseok : Bool) (s : Session) :
    (server.answer inputs parseok s).timestamp = s.timestamp := by
  have hresponse (s : Session) (request : HttpRequest) :
      (server.dealWithRequest request inputs s).timestamp = s.timestamp := by
    rw [dealWithRequest]
    split
    · exact (Session.timestamp_shutdown _).trans (Session.timestamp_send _ _ _)
    · exact Session.timestamp_send _ _ _
  have hcomplete (s : Session) : (server.answerComplete inputs s).timestamp = s.timestamp := by
    rw [answerComplete]
    split
    · exact hresponse _ _
    · rfl
  rw [answer, hcomplete]
  split
  · rfl
  · exact (Session.timestamp_shutdown _).trans (Session.timestamp_send _ _ _)

/-- With `auto_close_idleconnection_` on, `timestamp_` is the time when bytes were last read. -/
theorem timestamp_connectionStep (hauto : server.autoCloseIdleconnection = true) {event : ConnectionEvent}
    (hstep : server.connectionStep s event = some s') : s'.timestamp = event.activity.getD s.timestamp := by
  cases event with
  | readable data inputs =>
    obtain ⟨-, hhandle⟩ := Option.ite_none_right_eq_some.mp hstep
    match data with
    | none => exact Option.some.inj hhandle ▸ rfl
    | some [] => exact Option.some.inj hhandle ▸ rfl
    | some (first :: rest) =>
      rw [handleMessage, messageCallback, if_pos hauto, parseInput] at hhandle
      split at hhandle
      · exact Option.some.inj hhandle ▸ rfl
      · split at hhandle
        · rw [← Option.some.inj hhandle, timestamp_answer]
          rfl
        · cases hhandle
  | writable result => exact Option.some.inj hstep ▸ s.timestamp_handleWrite result
  | idleShutdown => exact Option.some.inj hstep ▸ s.timestamp_shutdown

end HttpServer

namespace HttpLoop

variable {server : HttpServer} {s s' : HttpLoop} {id : ℕ}

/-- The times when a connection is active in a step: when it is constructed, and when bytes are read on it. -/
def activeAt (id : ℕ) (s : HttpLoop) : HttpLoopAction → List ℤ
  | .connectionEstablished _ constructed _ _ _ _ => if s.established = id then [constructed] else []
  | .connection other event => if other = id then (event.atTime s.timerQueue.wall).activity.toList else []
  | _ => []

/-- The connections that are checked in a step. -/
def checkedIn (s : HttpLoop) (action : HttpLoopAction) : List ℕ := (s.checked action).toList

/-- A connection that exists was last active at its timestamp. -/
def LastActive (id : ℕ) (times : List ℤ) (s : HttpLoop) : Prop :=
  ∀ connection, s.connections id = some connection → times.getLast? = some connection.timestamp

/-- Every step keeps the time of the last activity. -/
theorem lastActive_step (hauto : server.autoCloseIdleconnection = true) (times : List ℤ) (s : HttpLoop)
    (action : HttpLoopAction) (s' : HttpLoop) (h : LastActive id times s)
    (hstep : server.loopStep s action = some s') :
    LastActive id (times ++ activeAt id s action) s' := by
  intro connection hlive
  cases action with
  | connectionEstablished fd constructed content epoller timer inThreadLoop =>
    rw [HttpServer.loopStep, HttpServer.connectionCallback, if_pos hauto] at hstep
    obtain ⟨queue, -, rfl⟩ := Option.map_eq_some_iff.mp hstep
    rw [activeAt]
    split
    · next heq =>
      subst heq
      simp only [Function.update_self] at hlive
      rw [List.getLast?_concat, ← Option.some.inj hlive]
      rfl
    · next hne =>
      simp only [Function.update_of_ne (Ne.symm hne)] at hlive
      rw [List.append_nil]
      exact h connection hlive
  | connection other event =>
    rw [HttpServer.loopStep] at hstep
    split at hstep
    · next before hbefore =>
      obtain ⟨after, hevent, rfl⟩ := Option.map_eq_some_iff.mp hstep
      have htime := HttpServer.timestamp_connectionStep hauto hevent
      rw [activeAt]
      split
      · next heq =>
        subst heq
        simp only [Function.update_self] at hlive
        rw [← Option.some.inj hlive, htime]
        cases (event.atTime s.timerQueue.wall).activity with
        | none =>
          rw [Option.toList_none, List.append_nil]
          exact h before hbefore
        | some time => exact List.getLast?_concat
      · next hne =>
        simp only [Function.update_of_ne (Ne.symm hne)] at hlive
        rw [List.append_nil]
        exact h connection hlive
    · cases hstep
  | destroyed other =>
    have hquiet : activeAt id s (.destroyed other) = [] := rfl
    rw [hquiet, List.append_nil]
    rw [HttpServer.loopStep] at hstep
    split at hstep
    · obtain ⟨-, hs'⟩ := Option.ite_none_left_eq_some.mp hstep
      obtain rfl := Option.some.inj hs'
      rcases eq_or_ne id other with rfl | hne
      · simp at hlive
      · simp only [Function.update_of_ne hne] at hlive
        exact h connection hlive
    · cases hstep
  | otherTimer timer inThreadLoop request =>
    obtain ⟨queue, -, rfl⟩ := Option.map_eq_some_iff.mp hstep
    have hquiet : activeAt id s (.otherTimer timer inThreadLoop request) = [] := rfl
    rw [hquiet, List.append_nil]
    exact h connection hlive
  | timers action =>
    obtain ⟨-, hmap⟩ := Option.ite_none_left_eq_some.mp hstep
    obtain ⟨queue, -, rfl⟩ := Option.map_eq_some_iff.mp hmap
    have hquiet : activeAt id s (.timers action) = [] := rfl
    rw [hquiet, List.append_nil]
    split at hlive
    · next checked hchecked =>
      rw [handleIdleConnection_eq] at hlive
      rcases eq_or_ne id checked with rfl | hne
      · simp only [Function.update_self] at hlive
        obtain ⟨before, hbefore, rfl⟩ := Option.map_eq_some_iff.mp hlive
        rw [h before hbefore]
        split
        · rw [Session.timestamp_shutdown]
        · rfl
      · simp only [Function.update_of_ne hne] at hlive
        exact h connection hlive
    · exact h connection hlive

/-- A check that runs was pending. -/
theorem checks_of_checked {queue queue' : TimerQueue TimerCallback} {established : ℕ}
    (h : OneCheck queue established)
    {action : TimerAction TimerCallback} (hstep : queue.step action = some queue')
    (hchecked : (queue.firing action).bind (fun timer => timer.callback.checks) = some id) :
    ∃ timer, Checks queue timer id := by
  obtain ⟨fired, hfiring, hcallback⟩ := Option.bind_eq_some_iff.mp hchecked
  cases TimerQueue.pendingChange_of_step h.owned hstep with
  | stays makes pending requests ran firing => cases firing.symm.trans hfiring
  | made fresh pending requests ran => cases hfiring
  | @fired pair timer _ due expiration live pending requests ran firing =>
    obtain rfl := Option.some.inj (firing.symm.trans hfiring)
    exact ⟨pair.timer, timer, live, TimerCallback.checks_eq_some.mp hcallback⟩
  | restarted live repeats pending requests ran firing => cases firing.symm.trans hfiring

/-- The connections that were checked, each once, have no check any more. -/
structure CheckedOnce (checked : List ℕ) (s : HttpLoop) : Prop where
  oneCheck : OneCheck s.timerQueue s.established
  nodup : checked.Nodup
  gone : ∀ id ∈ checked, id < s.established ∧ ∀ timer, ¬ Checks s.timerQueue timer id

/-- No step checks a connection again. -/
theorem checkedOnce_step (hauto : server.autoCloseIdleconnection = true) (checked : List ℕ) (s : HttpLoop)
    (action : HttpLoopAction) (s' : HttpLoop) (h : CheckedOnce checked s)
    (hstep : server.loopStep s action = some s') : CheckedOnce (checked ++ checkedIn s action) s' := by
  have hone := oneCheck_step hauto s action s' h.oneCheck hstep
  cases loopEffect_of_step hauto h.oneCheck.owned hstep with
  | connectionEstablished connection step =>
    change CheckedOnce (checked ++ []) _
    rw [List.append_nil]
    refine ⟨hone, h.nodup, fun id hmem => ?_⟩
    obtain ⟨hless, hover⟩ := h.gone id hmem
    refine ⟨Nat.lt_succ_of_lt hless, fun timer hcheck => ?_⟩
    rcases (checks_addTimer h.oneCheck.owned step timer id).mp hcheck with ⟨-, hadded⟩ | hold
    · cases hadded
      exact Nat.lt_irrefl _ hless
    · exact hover timer hold
  | connection live connected =>
    change CheckedOnce (checked ++ []) _
    rw [List.append_nil]
    exact ⟨hone, h.nodup, h.gone⟩
  | destroyed =>
    change CheckedOnce (checked ++ []) _
    rw [List.append_nil]
    exact ⟨hone, h.nodup, h.gone⟩
  | otherTimer step =>
    change CheckedOnce (checked ++ []) _
    rw [List.append_nil]
    refine ⟨hone, h.nodup, fun id hmem => ⟨(h.gone id hmem).1, fun timer hcheck => ?_⟩⟩
    rcases (checks_addTimer h.oneCheck.owned step timer id).mp hcheck with ⟨-, hadded⟩ | hold
    · cases hadded
    · exact (h.gone id hmem).2 timer hold
  | @timers action queue after makes step connections =>
    have hchecks := checks_step h.oneCheck makes step
    have hover (id : ℕ) (hmem : id ∈ checked) : id < s.established ∧ ∀ timer, ¬ Checks queue timer id :=
      ⟨(h.gone id hmem).1, fun timer hcheck => (h.gone id hmem).2 timer ((hchecks timer id).mp hcheck).1⟩
    cases hfound : s.checked (.timers action) with
    | none =>
      rw [checkedIn, hfound, Option.toList_none, List.append_nil]
      exact ⟨hone, h.nodup, hover⟩
    | some id =>
      obtain ⟨timer, hcheck⟩ := checks_of_checked h.oneCheck step hfound
      rw [checkedIn, hfound, Option.toList_some]
      refine ⟨hone, List.nodup_append.mpr ⟨h.nodup, List.nodup_singleton id, ?_⟩, ?_⟩
      · intro other hmem last hlast heq
        rw [List.mem_singleton.mp hlast] at heq
        exact (h.gone other hmem).2 timer (heq ▸ hcheck)
      · intro other hmem
        rcases List.mem_append.mp hmem with hold | hnew
        · exact hover other hold
        · obtain rfl := List.mem_singleton.mp hnew
          exact ⟨h.oneCheck.known timer other hcheck, fun timer' hcheck' =>
            ((hchecks timer' other).mp hcheck').2 hfound⟩

/-- A check shuts its connection down if it is idle, and does nothing else. -/
theorem connections_of_checked (hauto : server.autoCloseIdleconnection = true)
    (howned : TimerQueue.Owned s.timerQueue)
    {action : HttpLoopAction} (hstep : server.loopStep s action = some s') (hchecked : s.checked action = some id)
    (other : ℕ) : s'.connections other = (s.connections other).map fun connection =>
      if other = id ∧ s.isIdle connection then connection.shutdown else connection := by
  cases loopEffect_of_step hauto howned hstep with
  | timers makes step connections =>
    refine (connections other).trans ?_
    simp only [hchecked, Option.some.injEq, eq_comm]
  | _ => cases hchecked

/-- In every run of the HTTP server with `auto_close_idleconnection_` on no connection is checked twice; and a
check in any state of the run shuts its connection down, if it still exists and was constructed and had bytes
read for the last time more than eight seconds ago, and leaves all connections as they are otherwise. -/
theorem idle_run (hauto : server.autoCloseIdleconnection = true) {wall monotonic : ℤ}
    {actions : List HttpLoopAction}
    (hrun : run server.loopStep (new wall monotonic) actions = some s) :
    (trace server.loopStep checkedIn (new wall monotonic) actions).Nodup ∧
    ∀ action s' id, server.loopStep s action = some s' → s.checked action = some id →
      (∀ other, other ≠ id → s'.connections other = s.connections other) ∧
      ∀ connection, s.connections id = some connection → ∃ last,
        (trace server.loopStep (activeAt id) (new wall monotonic) actions).getLast? = some last ∧
        s'.connections id =
          some (if addTime last kIdleConnectionTimeOuts < s.timerQueue.wall then connection.shutdown else
            connection) := by
  have hnew : CheckedOnce [] (new wall monotonic) := ⟨oneCheck_new wall monotonic, .nil, List.forall_mem_nil _⟩
  have honce := run_invariant_trace (checkedOnce_step hauto) hnew hrun
  refine ⟨honce.nodup, fun action s' id hstep hchecked => ?_⟩
  have hconnections := connections_of_checked hauto honce.oneCheck.owned hstep hchecked
  constructor
  · intro other hne
    rw [hconnections]
    simp [hne]
  · intro connection hlive
    have hnever : LastActive id [] (new wall monotonic) := fun _ hlive => (by cases hlive)
    have hlast := run_invariant_trace (lastActive_step hauto) hnever hrun
    refine ⟨connection.timestamp, hlast connection hlive, ?_⟩
    rw [hconnections, hlive, Option.map_some]
    simp only [true_and, isIdle, decide_eq_true_eq]

/-- A connection that was silent for more than eight seconds is shut down by its check. -/
theorem idle_run_silent : ∃ s s' connection,
    run (HttpServer.defaultServer true).loopStep (new 0 0) ((checkRun 1000000 9500000).take 6) = some s ∧
      (HttpServer.defaultServer true).loopStep s (.timers .next) = some s' ∧
        s.connections 0 = some connection ∧ s'.connections 0 = some connection.shutdown := by
  have hends : ((run (HttpServer.defaultServer true).loopStep (new 0 0) ((checkRun 1000000 9500000).take 6)).bind
      fun s => ((HttpServer.defaultServer true).loopStep s (.timers .next)).map fun _ =>
        (s.checked (.timers .next), (s.connections 0).isSome, s.timerQueue.wall)) = some (some 0, true,
          9500000) := by
    decide +kernel
  have htimes : trace (HttpServer.defaultServer true).loopStep (activeAt 0) (new 0 0)
      ((checkRun 1000000 9500000).take 6) = [0, 1000000] := by decide +kernel
  obtain ⟨s, hrun, hmap⟩ := Option.bind_eq_some_iff.mp hends
  obtain ⟨s', hstep, hfound⟩ := Option.map_eq_some_iff.mp hmap
  obtain ⟨hchecked, hrest⟩ := Prod.mk.inj hfound
  obtain ⟨hlive, hwall⟩ := Prod.mk.inj hrest
  obtain ⟨connection, hconnection⟩ := Option.isSome_iff_exists.mp hlive
  obtain ⟨last, hlast, hafter⟩ := ((idle_run rfl hrun).2 _ s' 0 hstep hchecked).2 connection hconnection
  rw [htimes] at hlast
  obtain rfl := Option.some.inj hlast
  rw [hwall, if_pos (by decide +kernel)] at hafter
  exact ⟨s, s', connection, hrun, hstep, hconnection, hafter⟩

end HttpLoop

end WebServer.Http
