import WebServer.Foundation.Trace
import WebServer.Timers.TimerHistory
import WebServer.Util.PendingTasks

/-!
# An event loop with its timers

The timer queue takes its steps in the thread of an event loop: other threads hand their timers over through
`to_do_list_`, `HandleRead` is the handler of the timer descriptor, and callbacks, handlers and functions add
timers at once. The queued calls of `AddTimerInLoop` are then run in the order in which the timers were made,
outside of `HandleRead`, so the timer queue behaves as if it were alone. And while the loop sleeps, no timer
is late: no call is left in `to_do_list_` then, since the loop would have been woken up.
-/

namespace WebServer.Timers

open WebServer.Foundation
open WebServer.Util (ActiveChannel LoopPosition EventLoop LoopAction)

/-- A queued function: a call of `AddTimerInLoop`, or another one. -/
inductive TimerTask (Task : Type) where
  | addTimerInLoop (address : ℕ)
  | other (task : Task)

/-- The timer which a function hands over. -/
def TimerTask.address? {Task : Type} : TimerTask Task → Option ℕ
  | addTimerInLoop address => some address
  | other _ => none

/-- A channel of the loop: the one of the timer descriptor, or another one. -/
inductive TimerChannel (Chan : Type) where
  | timer
  | other (channel : Chan)
deriving DecidableEq

/-- The loop with its timer queue, and whether the handler of the timer descriptor has called `HandleRead`. -/
structure TimerLoop (κ Task Chan Producer : Type) where
  loop : EventLoop (TimerTask Task) (TimerChannel Chan) Producer
  queue : TimerQueue κ
  handled : Bool

/-- What can happen: time passes, another thread or the loop thread makes a timer, the timer queue goes on,
and the loop or the other threads do something else. -/
inductive TimerLoopAction (κ Task Chan Producer : Type) where
  | clock (wall : ℤ) (elapsed : ℕ)
  | addTimer (producer : Producer) (address : ℕ) (request : TimerRequest) (callback : κ)
  | ownAddTimer (address : ℕ) (request : TimerRequest) (callback : κ)
  | addTimerInLoop
  | handleRead
  | next
  | loop (action : LoopAction (TimerTask Task) (TimerChannel Chan) Producer)

/-- The loop thread is in a handler or in a function. -/
def callsCode {Task Chan : Type} : LoopPosition Task Chan → Bool
  | .handling (.other _ :: _) => true
  | .calling _ => true
  | _ => false

/-- The loop thread is in the handler of the timer descriptor. -/
def handlesTimer {Task Chan : Type} : LoopPosition Task (TimerChannel Chan) → Bool
  | .handling (.other .timer :: _) => true
  | _ => false

/-- The handler of the timer descriptor is a handler. -/
theorem callsCode_of_handlesTimer {Task Chan : Type} {position : LoopPosition Task (TimerChannel Chan)}
    (h : handlesTimer position = true) : callsCode position = true := by
  cases position with
  | handling active =>
    cases active with
    | nil => cases h
    | cons channel rest =>
      cases channel with
      | wakeup => cases h
      | other channel => rfl
  | _ => cases h

namespace TimerLoop

variable {κ Task Chan Producer : Type} [DecidableEq Chan] [DecidableEq Producer]

omit [DecidableEq Chan] [DecidableEq Producer] in
/-- A loop without timers, before its first `epoll_wait`. -/
def new (wall monotonic : ℤ) : TimerLoop κ Task Chan Producer := ⟨EventLoop.new, .new wall monotonic, false⟩

/-- Timers are handed over only with their calls of `AddTimerInLoop`, the timer descriptor is reported when it is
readable, and a handler or a function ends when what it has called has ended. -/
def permits (s : TimerLoop κ Task Chan Producer) :
    LoopAction (TimerTask Task) (TimerChannel Chan) Producer → Bool
  | .push _ task => task.address?.isNone
  | .ownPush task => task.address?.isNone
  | .poll active => decide (.other .timer ∈ active → s.queue.timerfd.unread = true)
  | .handlerDone => decide (s.queue.position = .outside ∧ s.queue.adding = none ∧
      (handlesTimer s.loop.position = true → s.handled = true))
  | .functorDone => decide (s.queue.position = .outside ∧ s.queue.adding = none)
  | _ => true

/-- What the start of a function does to the timer queue: `AddTimerInLoop` is called. -/
def started (s : TimerLoop κ Task Chan Producer) : TimerQueue κ :=
  match s.loop.position with
  | .running (.addTimerInLoop address :: _) =>
    { s.queue with toDoList := s.queue.toDoList.tail, adding := some address }
  | _ => s.queue

/-- A step of the loop that is not about the making of a timer. -/
def loopStep (s : TimerLoop κ Task Chan Producer) (action : LoopAction (TimerTask Task)
    (TimerChannel Chan) Producer) :
    Option (TimerLoop κ Task Chan Producer) :=
  if s.permits action then
    (s.loop.step action).map fun loop =>
      match action with
      | .runNext => { s with loop, queue := s.started }
      | .handlerDone => { s with loop, handled := false }
      | _ => { s with loop }
  else none

/-- Perform one action. -/
def step (s : TimerLoop κ Task Chan Producer) :
    TimerLoopAction κ Task Chan Producer → Option (TimerLoop κ Task Chan Producer)
  | .clock wall elapsed => some { s with queue := s.queue.clock wall elapsed }
  | .addTimer producer address request callback =>
    (s.queue.step (.addTimer address false request callback)).bind fun queue =>
      (s.loop.step (.push producer (.addTimerInLoop address))).map fun loop => { s with loop, queue }
  | .ownAddTimer address request callback =>
    if s.loop.mayPush then
      (s.queue.step (.addTimer address true request callback)).map fun queue => { s with queue }
    else none
  | .addTimerInLoop => (s.queue.step .addTimerInLoop).map fun queue => { s with queue }
  | .handleRead =>
    if handlesTimer s.loop.position ∧ s.handled = false then
      (s.queue.step .handleRead).map fun queue => { s with queue, handled := true }
    else none
  | .next =>
    if handlesTimer s.loop.position then (s.queue.step .next).map fun queue => { s with queue } else none
  | .loop action => s.loopStep action

/-- Both clocks advance by the same amount. -/
def clocksAgree (s : TimerLoop κ Task Chan Producer) : TimerLoopAction κ Task Chan Producer → Bool
  | .clock wall elapsed => s.queue.clocksAgree (.clock wall elapsed)
  | _ => true

/-- The step of the timer queue in a step of the loop. -/
def timerActions (s : TimerLoop κ Task Chan Producer) : TimerLoopAction κ Task Chan Producer → List (TimerAction κ)
  | .clock wall elapsed => [.clock wall elapsed]
  | .addTimer _ address request callback => [.addTimer address false request callback]
  | .ownAddTimer address request callback => [.addTimer address true request callback]
  | .addTimerInLoop => [.addTimerInLoop]
  | .handleRead => [.handleRead]
  | .next => [.next]
  | .loop .runNext =>
    match s.loop.position with
    | .running (.addTimerInLoop _ :: _) => [.runQueued]
    | _ => []
  | .loop _ => []

/-- The difference fits in the step of the timer queue. -/
def DifferenceFits (s : TimerLoop κ Task Chan Producer) (action : TimerLoopAction κ Task Chan Producer) : Prop :=
  ∀ step ∈ s.timerActions action, s.queue.DifferenceFits step

instance (s : TimerLoop κ Task Chan Producer) (action : TimerLoopAction κ Task Chan Producer) :
    Decidable (s.DifferenceFits action) := inferInstanceAs (Decidable (∀ step ∈ s.timerActions action, _))

variable {s s' : TimerLoop κ Task Chan Producer} {action : TimerLoopAction κ Task Chan Producer}

omit [DecidableEq Chan] [DecidableEq Producer] in
/-- The loop thread calls `AddTimer` from a handler or from a function. -/
theorem callsCode_of_mayPush (h : s.loop.mayPush = true) : callsCode s.loop.position = true := by
  obtain ⟨-, hposition⟩ := Bool.and_eq_true_iff.mp h
  cases hcases : s.loop.position with
  | handling active =>
    cases active with
    | nil => rw [hcases] at hposition; cases hposition
    | cons channel rest =>
      cases channel with
      | wakeup => rw [hcases] at hposition; cases hposition
      | other channel => rfl
  | calling rest => rfl
  | _ => rw [hcases] at hposition; cases hposition

/-- The steps, with what they do to the loop and to the timer queue. -/
inductive Stepped (s : TimerLoop κ Task Chan Producer) :
    TimerLoopAction κ Task Chan Producer → TimerLoop κ Task Chan Producer → Prop where
  | clock (wall : ℤ) (elapsed : ℕ) : Stepped s (.clock wall elapsed) { s with queue := s.queue.clock wall elapsed }
  | addTimer {producer : Producer} {address : ℕ} {request : TimerRequest} {callback : κ} {queue : TimerQueue κ}
      {loop : EventLoop (TimerTask Task) (TimerChannel Chan) Producer}
      (made : s.queue.step (.addTimer address false request callback) = some queue)
      (pushed : s.loop.step (.push producer (.addTimerInLoop address)) = some loop) :
      Stepped s (.addTimer producer address request callback) { s with loop, queue }
  | ownAddTimer {address : ℕ} {request : TimerRequest} {callback : κ} {queue : TimerQueue κ}
      (may : callsCode s.loop.position = true)
      (made : s.queue.step (.addTimer address true request callback) = some queue) :
      Stepped s (.ownAddTimer address request callback) { s with queue }
  | addTimerInLoop {queue : TimerQueue κ} (made : s.queue.step .addTimerInLoop = some queue) :
      Stepped s .addTimerInLoop { s with queue }
  | handleRead {queue : TimerQueue κ} (may : callsCode s.loop.position = true)
      (made : s.queue.step .handleRead = some queue) : Stepped s .handleRead { s with queue, handled := true }
  | next {queue : TimerQueue κ} (may : callsCode s.loop.position = true) (made : s.queue.step .next = some queue) :
      Stepped s .next { s with queue }
  | runNext {loop : EventLoop (TimerTask Task) (TimerChannel Chan) Producer}
    (moved : s.loop.step .runNext = some loop) :
      Stepped s (.loop .runNext) { s with loop, queue := s.started }
  | loop {action : LoopAction (TimerTask Task) (TimerChannel Chan) Producer}
      {loop : EventLoop (TimerTask Task) (TimerChannel Chan) Producer} {handled : Bool} (other : action ≠ .runNext)
      (permitted : s.permits action = true) (moved : s.loop.step action = some loop) :
      Stepped s (.loop action) { s with loop, handled }

/-- Every step is one of these. -/
theorem stepped_of_step (h : s.step action = some s') : s.Stepped action s' := by
  cases action with
  | clock wall elapsed => exact Option.some.inj h ▸ .clock wall elapsed
  | addTimer producer address request callback =>
    obtain ⟨queue, hmade, hmap⟩ := Option.bind_eq_some_iff.mp h
    obtain ⟨loop, hpushed, rfl⟩ := Option.map_eq_some_iff.mp hmap
    exact .addTimer hmade hpushed
  | ownAddTimer address request callback =>
    obtain ⟨hmay, hmap⟩ := Option.ite_none_right_eq_some.mp h
    obtain ⟨queue, hmade, rfl⟩ := Option.map_eq_some_iff.mp hmap
    exact .ownAddTimer (callsCode_of_mayPush hmay) hmade
  | addTimerInLoop =>
    obtain ⟨queue, hmade, rfl⟩ := Option.map_eq_some_iff.mp h
    exact .addTimerInLoop hmade
  | handleRead =>
    obtain ⟨⟨hmay, -⟩, hmap⟩ := Option.ite_none_right_eq_some.mp h
    obtain ⟨queue, hmade, rfl⟩ := Option.map_eq_some_iff.mp hmap
    exact .handleRead (callsCode_of_handlesTimer hmay) hmade
  | next =>
    obtain ⟨hmay, hmap⟩ := Option.ite_none_right_eq_some.mp h
    obtain ⟨queue, hmade, rfl⟩ := Option.map_eq_some_iff.mp hmap
    exact .next (callsCode_of_handlesTimer hmay) hmade
  | loop action =>
    obtain ⟨hpermitted, hmap⟩ := Option.ite_none_right_eq_some.mp h
    obtain ⟨loop, hmoved, rfl⟩ := Option.map_eq_some_iff.mp hmap
    cases action with
    | runNext => exact .runNext hmoved
    | handlerDone => exact .loop (by simp) hpermitted hmoved
    | _ => exact .loop (by simp) hpermitted hmoved

/-- The invariant: the timers in `to_do_list_` are those whose calls wait in the loop, and the timer queue is
at work only in a handler or in a function. -/
structure Joined (s : TimerLoop κ Task Chan Producer) : Prop where
  announced : s.loop.Announced
  owned : s.queue.Owned
  handed : s.loop.pending.filterMap TimerTask.address? = s.queue.toDoList
  between : callsCode s.loop.position = false → s.queue.Between

omit [DecidableEq Chan] [DecidableEq Producer] in
/-- A queued call of `AddTimerInLoop` is that of the first timer in `to_do_list_`. -/
theorem Joined.queued (h : Joined s) {address : ℕ} {rest : List (TimerTask Task)}
    (hposition : s.loop.position = .running (.addTimerInLoop address :: rest)) :
    ∃ later, s.queue.toDoList = address :: later ∧
      s.started = { s.queue with toDoList := later, adding := some address } := by
  have hhanded := h.handed
  rw [EventLoop.pending, hposition, LoopPosition.remaining, List.cons_append, List.filterMap_cons] at hhanded
  refine ⟨_, hhanded.symm, ?_⟩
  rw [started, hposition, ← hhanded]
  rfl

/-- The loop sleeps: it is in `epoll_wait`, its eventfd and the timer descriptor are not readable, no thread
is about to write to the eventfd, and the timer descriptor was not set in the last 100 microseconds. -/
structure Asleep (s : TimerLoop κ Task Chan Producer) : Prop where
  polling : s.loop.position = .polling
  silent : s.loop.wakeupCount = 0
  written : ∀ producer, s.loop.writing producer = false
  quiet : s.queue.timerfd.unread = false
  settled : ∀ call ∈ s.queue.settimes.getLast?, call.1 + 100 ≤ s.queue.wall

omit [DecidableEq Chan] [DecidableEq Producer] in
/-- When the loop sleeps, its timer queue has nothing to do. -/
theorem Joined.idle (h : Joined s) (hasleep : Asleep s) : s.queue.Idle := by
  have hcode : callsCode s.loop.position = false := by rw [hasleep.polling]; rfl
  obtain ⟨houtside, hfree⟩ := h.between hcode
  have hnothing : s.loop.toDoList = [] := by
    by_contra hqueued
    have hsettled := h.announced.settled (by simp [hasleep.polling])
    rcases h.announced.announced (by rw [hasleep.polling]; rfl) hqueued with hcount | howes | ⟨producer, hwriting⟩
    · exact hcount.ne' hasleep.silent
    · cases hsettled.symm.trans howes
    · cases (hasleep.written producer).symm.trans hwriting
  refine ⟨houtside, hfree, ?_, hasleep.quiet, hasleep.settled⟩
  rw [← h.handed, EventLoop.pending, hasleep.polling, hnothing]
  rfl

end TimerLoop

end WebServer.Timers
