import WebServer.Foundation.Trace
import WebServer.Http.IdleChecks
import WebServer.Timers.TimerHistory

/-!
# When idle checks run

The check of a connection runs eight seconds after the connection was established, as soon as the loop comes
to it. So whenever the loop has nothing to do, the connections that were checked are exactly those which were
established at least eight seconds ago.
-/

namespace WebServer.Http

open WebServer.Foundation
open WebServer.Timers (TimerQueue TimerAction Timer addTime)
open WebServer.Util (ascii)

/-- What is seen of the connections: one is established at a time, or checked. -/
inductive WatchEvent where
  | established (id : ℕ) (time : ℤ)
  | checked (id : ℕ)
deriving DecidableEq

namespace HttpLoop

variable {server : HttpServer} {s s' : HttpLoop} {action : HttpLoopAction}

/-- Both clocks advance by the same amount. -/
def clocksAgree (s : HttpLoop) : HttpLoopAction → Bool
  | .timers action => s.timerQueue.clocksAgree action
  | _ => true

/-- `ResetTimer` is not called for an expiration which is so long ago that the difference leaves `int64_t`. -/
def DifferenceFits (s : HttpLoop) : HttpLoopAction → Prop
  | .timers action => s.timerQueue.DifferenceFits action
  | _ => True

instance (s : HttpLoop) : (action : HttpLoopAction) → Decidable (s.DifferenceFits action)
  | .timers action => inferInstanceAs (Decidable (s.timerQueue.DifferenceFits action))
  | .connectionEstablished _ _ _ _ _ _ => isTrue trivial
  | .connection _ _ => isTrue trivial
  | .destroyed _ => isTrue trivial
  | .otherTimer _ _ _ => isTrue trivial

/-- The queue has a check of the connection for this time. -/
def ChecksAt (queue : TimerQueue TimerCallback) (id : ℕ) (time : ℤ) : Prop :=
  ∃ address timer, queue.pending address = some timer ∧ timer.callback = .handleIdleConnection id ∧
    timer.expiration = time

/-- The connections whose check runs in a step of the queue. -/
def checkedBy (queue : TimerQueue TimerCallback) (action : TimerAction TimerCallback) : Option ℕ :=
  (queue.firing action).bind fun timer => timer.callback.checks

/-- The invariant: the check of a connection waits until eight seconds after the connection was established. -/
structure Deadlines (events : List WatchEvent) (s : HttpLoop) : Prop where
  timely : s.timerQueue.Timely
  oneCheck : OneCheck s.timerQueue s.established
  known : ∀ id time, .established id time ∈ events → id < s.established
  checkedKnown : ∀ id, .checked id ∈ events → id < s.established
  waits : ∀ id time, .established id time ∈ events →
    .checked id ∈ events ∨ ChecksAt s.timerQueue id (addTime time kIdleConnectionTimeOuts)
  due : ∀ id time, .established id time ∈ events → .checked id ∈ events →
    addTime time kIdleConnectionTimeOuts ≤ s.timerQueue.wall

/-- A check goes on to wait unless it runs. -/
theorem ChecksAt.step {queue queue' : TimerQueue TimerCallback} {established id : ℕ} {time : ℤ}
    (h : OneCheck queue established) {action : TimerAction TimerCallback} (hstep : queue.step action = some queue')
    (hcheck : ChecksAt queue id time) : ChecksAt queue' id time ∨ checkedBy queue action = some id := by
  obtain ⟨address, timer, hpending, hcallback, rfl⟩ := hcheck
  have honce := h.oneShot address timer id (TimerQueue.heap_of_pending hpending) hcallback
  rcases TimerQueue.pending_of_step h.owned hstep hpending honce with hkept | hfiring
  · exact Or.inl ⟨address, timer, hkept, hcallback, rfl⟩
  · refine Or.inr ?_
    rw [checkedBy, hfiring, Option.bind_some, TimerCallback.checks_eq_some, hcallback]

/-- A check that runs is due. -/
theorem ChecksAt.le_of_checked {queue queue' : TimerQueue TimerCallback} {established id : ℕ} {time : ℤ}
    (h : OneCheck queue established) (htimely : queue.Timely) {action : TimerAction TimerCallback}
    (hstep : queue.step action = some queue') (hcheck : ChecksAt queue id time)
    (hchecked : checkedBy queue action = some id) : time ≤ queue.wall := by
  obtain ⟨address, timer, hpending, hcallback, rfl⟩ := hcheck
  obtain ⟨fired, hfiring, hchecks⟩ := Option.bind_eq_some_iff.mp hchecked
  obtain ⟨hdue, address', hpending'⟩ := TimerQueue.expiration_le_of_firing h.owned htimely.requested hstep hfiring
  have hsame := h.one address address' id ⟨timer, hpending, hcallback⟩
    ⟨fired, hpending', TimerCallback.checks_eq_some.mp hchecks⟩
  subst hsame
  obtain rfl := Option.some.inj (hpending.symm.trans hpending')
  exact hdue

/-- Every step of the timer queue keeps the deadlines, and notes the check that it runs. -/
theorem Deadlines.step {events : List WatchEvent} (h : Deadlines events s) {action : TimerAction TimerCallback}
    {queue : TimerQueue TimerCallback}
    (hmeets : s.timerQueue.clocksAgree action = true ∧ s.timerQueue.DifferenceFits action)
    (hstep : s.timerQueue.step action = some queue) (hone : OneCheck queue s.established)
    (connections : ℕ → Option Util.Session) :
    Deadlines (events ++ (checkedBy s.timerQueue action).toList.map .checked)
      ⟨queue, connections, s.established⟩ := by
  have hestablished (id : ℕ) (time : ℤ)
      (hmem : .established id time ∈ events ++ (checkedBy s.timerQueue action).toList.map WatchEvent.checked) :
      .established id time ∈ events := by
    simpa using hmem
  have hchecked (id : ℕ) (hmem : .checked id ∈ events ++ (checkedBy s.timerQueue action).toList.map
    WatchEvent.checked) :
      .checked id ∈ events ∨ checkedBy s.timerQueue action = some id := by
    simpa using hmem
  have hwall := TimerQueue.wall_le_of_step h.oneCheck.owned (TimerQueue.clockAdvances_of_agree hmeets.1) hstep
  refine ⟨TimerQueue.timely_step _ _ _ h.timely hmeets hstep, hone, fun id time hmem => ?_, fun id hmem => ?_,
    fun id time hmem => ?_, fun id time hmem hcheck => ?_⟩
  · exact h.known id time (hestablished id time hmem)
  · rcases hchecked id hmem with hold | hnow
    · exact h.checkedKnown id hold
    · obtain ⟨timer, hcheck⟩ := checks_of_checked h.oneCheck hstep hnow
      exact h.oneCheck.known timer id hcheck
  · rcases h.waits id time (hestablished id time hmem) with hold | hwaits
    · exact Or.inl (List.mem_append_left _ hold)
    · rcases hwaits.step h.oneCheck hstep with hkept | hnow
      · exact Or.inr hkept
      · exact Or.inl (List.mem_append_right _ (by simp [hnow]))
  · have hbefore := hestablished id time hmem
    rcases hchecked id hcheck with hold | hnow
    · exact (h.due id time hbefore hold).trans hwall
    · rcases h.waits id time hbefore with hold | hwaits
      · exact (h.due id time hbefore hold).trans hwall
      · exact (hwaits.le_of_checked h.oneCheck h.timely hstep hnow).trans hwall

/-- A connection that is established gets its check. -/
theorem Deadlines.established {events : List WatchEvent} (h : Deadlines events s) {timer : ℕ} {inThreadLoop : Bool}
    {queue : TimerQueue TimerCallback} (hstep : s.timerQueue.step (.addTimer timer inThreadLoop
      (.runAfter kIdleConnectionTimeOuts) (.handleIdleConnection s.established)) = some queue)
    (hone : OneCheck queue (s.established + 1)) (connections : ℕ → Option Util.Session) :
    Deadlines (events ++ [.established s.established s.timerQueue.wall])
      ⟨queue, connections, s.established + 1⟩ := by
  have hevent (id : ℕ) (time : ℤ)
      (hmem : .established id time ∈ events ++ [.established s.established s.timerQueue.wall]) :
      .established id time ∈ events ∨ id = s.established ∧ time = s.timerQueue.wall := by
    simpa using hmem
  have hchecked (id : ℕ) (hmem : .checked id ∈ events ++ [.established s.established s.timerQueue.wall]) :
      .checked id ∈ events := by
    simpa using hmem
  have hwall := TimerQueue.wall_le_of_step h.oneCheck.owned rfl hstep
  refine ⟨TimerQueue.timely_step _ _ _ h.timely ⟨rfl, fun _ hmem => (by cases hmem)⟩ hstep, hone,
    fun id time hmem => ?_, fun id hmem => ?_,
    fun id time hmem => ?_, fun id time hmem hcheck => ?_⟩
  · rcases hevent id time hmem with hold | ⟨rfl, -⟩
    · exact Nat.lt_succ_of_lt (h.known id time hold)
    · exact Nat.lt_succ_self _
  · exact Nat.lt_succ_of_lt (h.checkedKnown id (hchecked id hmem))
  · rcases hevent id time hmem with hold | ⟨rfl, rfl⟩
    · rcases h.waits id time hold with hbefore | hwaits
      · exact Or.inl (List.mem_append_left _ hbefore)
      · rcases hwaits.step h.oneCheck hstep with hkept | hnow
        · exact Or.inr hkept
        · cases hnow
    · refine Or.inr ?_
      cases TimerQueue.pendingChange_of_step h.oneCheck.owned hstep with
      | stays makes pending requests ran firing => cases makes
      | made fresh pending requests ran =>
        exact ⟨timer, _, (congrFun pending timer).trans (Function.update_self _ _ _), rfl, rfl⟩
  · have hbefore := hchecked id hcheck
    rcases hevent id time hmem with hold | ⟨rfl, -⟩
    · exact (h.due id time hold hbefore).trans hwall
    · exact absurd (h.checkedKnown _ hbefore) (lt_irrefl _)

end HttpLoop

end WebServer.Http
