import WebServer.Foundation.Run
import Mathlib.Logic.Function.Basic

/-!
# The task queue of an event loop

`EventLoop` holds the queue, the flag `calling_functors_`, the counter of the eventfd, and
the program position of the loop thread. Other threads queue a function in two steps, the
push under the mutex and the write to the eventfd, and other steps may come between them.
The loop thread uses the same function; it writes only while `calling_functors_` is set, and
it does nothing else before the write.

What the event handlers and the functions do besides queueing is left to the layers above:
a handler is a channel that is handled, and a function is a task that is run.
-/

namespace WebServer.Util

open WebServer.Foundation

/-- A channel reported by `epoll_wait`: the one of the eventfd, or another one. -/
inductive ActiveChannel (Chan : Type) where
  | wakeup
  | other (channel : Chan)
deriving DecidableEq

/-- The program position of the loop thread: in `epoll_wait`, before the handler of the first
active channel, in `DoToDoList` before the swap, between two functions, or in a function. -/
inductive LoopPosition (Task Chan : Type) where
  | polling
  | handling (active : List (ActiveChannel Chan))
  | swapping
  | running (rest : List Task)
  | calling (rest : List Task)

namespace LoopPosition

variable {Task Chan : Type}

/-- The functions of the batch that were not started yet. -/
def remaining : LoopPosition Task Chan → List Task
  | running rest => rest
  | calling rest => rest
  | _ => []

/-- The loop thread is in `DoToDoList`. -/
def inDoToDoList : LoopPosition Task Chan → Bool
  | polling => false
  | handling _ => false
  | _ => true

/-- The loop thread enters `epoll_wait` before it swaps the queue the next time. -/
def pollsFirst : LoopPosition Task Chan → Bool
  | handling _ => false
  | swapping => false
  | _ => true

end LoopPosition

/-- The data members of `EventLoop` that concern the queue, the batch `funclists` of
`DoToDoList`, the eventfd, the position of the loop thread, the threads between their push and
their write, and the functions that were started. -/
structure EventLoop (Task Chan Producer : Type) where
  toDoList : List Task
  callingFunctors : Bool
  funclists : List Task
  wakeupCount : ℕ
  position : LoopPosition Task Chan
  owesWrite : Bool
  writing : Producer → Bool
  ran : List Task

/-- The steps of the loop thread and of the other threads. -/
inductive LoopAction (Task Chan Producer : Type) where
  | push (producer : Producer) (task : Task)
  | write (producer : Producer)
  | poll (active : List (ActiveChannel Chan))
  | handleRead
  | ownPush (task : Task)
  | ownWrite
  | handlerDone
  | beginFunctors
  | swap
  | runNext
  | functorDone
  | endFunctors

/-- The function an action pushes. -/
def LoopAction.pushed {Task Chan Producer : Type} : LoopAction Task Chan Producer → List Task
  | push _ task => [task]
  | ownPush task => [task]
  | _ => []

namespace EventLoop

variable {Task Chan Producer : Type} [DecidableEq Chan] [DecidableEq Producer]

/-- The largest value of an eventfd counter. -/
def maxCount : ℕ := 0xfffffffffffffffe

/-- A loop that is about to call `epoll_wait` for the first time. -/
def new : EventLoop Task Chan Producer where
  toDoList := []
  callingFunctors := false
  funclists := []
  wakeupCount := 0
  position := .polling
  owesWrite := false
  writing _ := false
  ran := []

/-- The first part of `QueueOneFunc(func)`: the push under the mutex. -/
def queue (s : EventLoop Task Chan Producer) (task : Task) : EventLoop Task Chan Producer :=
  { s with toDoList := s.toDoList ++ [task] }

/-- The test of `QueueOneFunc` whether the eventfd is written. -/
def needsWrite (s : EventLoop Task Chan Producer) (inThreadLoop : Bool) : Bool := !inThreadLoop || s.callingFunctors

/-- Write one to the eventfd, which fails at the largest count. -/
def notify (s : EventLoop Task Chan Producer) : EventLoop Task Chan Producer :=
  { s with wakeupCount := if s.wakeupCount < maxCount then s.wakeupCount + 1 else s.wakeupCount }

/-- The loop thread may push: it is in the handler of another channel or in a function, and
not in a call of `QueueOneFunc` already. -/
def mayPush (s : EventLoop Task Chan Producer) : Bool :=
  !s.owesWrite && match s.position with
    | .handling (.other _ :: _) => true
    | .calling _ => true
    | _ => false

/-- One step; `none` when it is not the turn of the thread. -/
def step (s : EventLoop Task Chan Producer) (action : LoopAction Task Chan Producer) :
    Option (EventLoop Task Chan Producer) :=
  match action, s.position with
  | .push producer task, _ =>
    if s.writing producer then none
    else some { s.queue task with writing := Function.update s.writing producer (s.needsWrite false) }
  | .write producer, _ =>
    if s.writing producer then some { s.notify with writing := Function.update s.writing producer false } else none
  | .poll active, .polling =>
    if .wakeup ∈ active ∧ s.wakeupCount = 0 then none else some { s with position := .handling active }
  | .handleRead, .handling (.wakeup :: active) => some { s with wakeupCount := 0, position := .handling active }
  | .ownPush task, _ => if s.mayPush then some { s.queue task with owesWrite := s.needsWrite true } else none
  | .ownWrite, _ => if s.owesWrite then some { s.notify with owesWrite := false } else none
  | .handlerDone, .handling (.other _ :: active) =>
    if s.owesWrite then none else some { s with position := .handling active }
  | .beginFunctors, .handling [] => some { s with callingFunctors := true, position := .swapping }
  | .swap, .swapping => some { s with funclists := s.toDoList, toDoList := [], position := .running s.toDoList }
  | .runNext, .running (task :: rest) => some { s with ran := s.ran ++ [task], position := .calling rest }
  | .functorDone, .calling rest => if s.owesWrite then none else some { s with position := .running rest }
  | .endFunctors, .running [] =>
    some { s with callingFunctors := false, funclists := [], position := .polling }
  | _, _ => none

/-- The functions started, the rest of the batch, and the queue. -/
def queued (s : EventLoop Task Chan Producer) : List Task := s.ran ++ s.position.remaining ++ s.toDoList

/-- The facts that tie the flags to the position of the loop thread, and the wakeup to the
queue: unless a swap comes before the next `epoll_wait`, queued functions are announced. -/
structure Announced (s : EventLoop Task Chan Producer) : Prop where
  calling : s.callingFunctors = s.position.inDoToDoList
  owes : s.owesWrite → ∃ rest, s.position = .calling rest
  announced : s.position.pollsFirst → s.toDoList ≠ [] →
    0 < s.wakeupCount ∨ s.owesWrite ∨ ∃ producer, s.writing producer

omit [DecidableEq Chan] [DecidableEq Producer] in
/-- A write leaves the counter positive. -/
theorem notify_pos (s : EventLoop Task Chan Producer) : 0 < s.notify.wakeupCount := by
  rw [notify]
  split
  · exact Nat.succ_pos _
  · next hmax =>
    have hlarge : 0 < maxCount := by decide
    exact Nat.lt_of_lt_of_le hlarge (Nat.not_lt.mp hmax)

omit [DecidableEq Chan] [DecidableEq Producer] in
/-- A loop starts with an empty queue. -/
theorem announced_new : Announced (new : EventLoop Task Chan Producer) where
  calling := rfl
  owes := by simp [new]
  announced := by simp [new]

/-- The steps, with the conditions under which they are taken. -/
inductive Stepped (s : EventLoop Task Chan Producer) :
    LoopAction Task Chan Producer → EventLoop Task Chan Producer → Prop where
  | push (producer : Producer) (task : Task) (idle : s.writing producer = false) : Stepped s (.push producer task)
      { s.queue task with writing := Function.update s.writing producer (s.needsWrite false) }
  | write (producer : Producer) (owes : s.writing producer = true) : Stepped s (.write producer)
      { s.notify with writing := Function.update s.writing producer false }
  | poll (active : List (ActiveChannel Chan)) (position : s.position = .polling)
      (reported : .wakeup ∈ active → 0 < s.wakeupCount) :
      Stepped s (.poll active) { s with position := .handling active }
  | handleRead (active : List (ActiveChannel Chan)) (position : s.position = .handling (.wakeup :: active)) :
      Stepped s .handleRead { s with wakeupCount := 0, position := .handling active }
  | ownPush (task : Task) (may : s.mayPush = true) : Stepped s (.ownPush task)
      { s.queue task with owesWrite := s.needsWrite true }
  | ownWrite (owes : s.owesWrite = true) : Stepped s .ownWrite { s.notify with owesWrite := false }
  | handlerDone (channel : Chan) (active : List (ActiveChannel Chan))
      (position : s.position = .handling (.other channel :: active)) (settled : s.owesWrite = false) :
      Stepped s .handlerDone { s with position := .handling active }
  | beginFunctors (position : s.position = .handling []) :
      Stepped s .beginFunctors { s with callingFunctors := true, position := .swapping }
  | swap (position : s.position = .swapping) :
      Stepped s .swap { s with funclists := s.toDoList, toDoList := [], position := .running s.toDoList }
  | runNext (task : Task) (rest : List Task) (position : s.position = .running (task :: rest)) :
      Stepped s .runNext { s with ran := s.ran ++ [task], position := .calling rest }
  | functorDone (rest : List Task) (position : s.position = .calling rest) (settled : s.owesWrite = false) :
      Stepped s .functorDone { s with position := .running rest }
  | endFunctors (position : s.position = .running []) :
      Stepped s .endFunctors { s with callingFunctors := false, funclists := [], position := .polling }

/-- Every step is one of these. -/
theorem stepped_of_step {s s' : EventLoop Task Chan Producer} {action : LoopAction Task Chan Producer}
    (h : s.step action = some s') : s.Stepped action s' := by
  unfold step at h
  split at h
  · split at h
    · cases h
    · next hidle =>
      cases h
      exact .push _ _ (by simpa using hidle)
  · split at h
    · next howes =>
      cases h
      exact .write _ howes
    · cases h
  · next hposition =>
    split at h
    · cases h
    · next hreported =>
      cases h
      exact .poll _ hposition fun hmem => Nat.pos_of_ne_zero fun hzero => hreported ⟨hmem, hzero⟩
  · next hposition =>
    cases h
    exact .handleRead _ hposition
  · split at h
    · next hmay =>
      cases h
      exact .ownPush _ hmay
    · cases h
  · split at h
    · next howes =>
      cases h
      exact .ownWrite howes
    · cases h
  · next hposition =>
    split at h
    · cases h
    · next hsettled =>
      cases h
      exact .handlerDone _ _ hposition (by simpa using hsettled)
  · next hposition =>
    cases h
    exact .beginFunctors hposition
  · next hposition =>
    cases h
    exact .swap hposition
  · next hposition =>
    cases h
    exact .runNext _ _ hposition
  · next hposition =>
    split at h
    · cases h
    · next hsettled =>
      cases h
      exact .functorDone _ hposition (by simpa using hsettled)
  · next hposition =>
    cases h
    exact .endFunctors hposition
  · cases h

/-- A step extends what was queued by what it pushes. -/
theorem queued_step {s s' : EventLoop Task Chan Producer} {action : LoopAction Task Chan Producer}
    (h : s.step action = some s') : s'.queued = s.queued ++ action.pushed := by
  cases stepped_of_step h with
  | push producer task hidle => simp [queued, queue, LoopAction.pushed]
  | write producer howes => simp [queued, notify, LoopAction.pushed]
  | poll active hposition hreported => simp [queued, hposition, LoopAction.pushed, LoopPosition.remaining]
  | handleRead active hposition => simp [queued, hposition, LoopAction.pushed, LoopPosition.remaining]
  | ownPush task hmay => simp [queued, queue, LoopAction.pushed]
  | ownWrite howes => simp [queued, notify, LoopAction.pushed]
  | handlerDone channel active hposition hsettled =>
    simp [queued, hposition, LoopAction.pushed, LoopPosition.remaining]
  | beginFunctors hposition => simp [queued, hposition, LoopAction.pushed, LoopPosition.remaining]
  | swap hposition => simp [queued, hposition, LoopAction.pushed, LoopPosition.remaining]
  | runNext task rest hposition => simp [queued, hposition, LoopAction.pushed, LoopPosition.remaining]
  | functorDone rest hposition hsettled => simp [queued, hposition, LoopAction.pushed, LoopPosition.remaining]
  | endFunctors hposition => simp [queued, hposition, LoopAction.pushed, LoopPosition.remaining]

omit [DecidableEq Chan] [DecidableEq Producer] in
/-- Outside a function the loop thread owes no write. -/
theorem Announced.settled {s : EventLoop Task Chan Producer} (hs : s.Announced)
    (hposition : ∀ rest, s.position ≠ .calling rest) : s.owesWrite = false := by
  by_contra howes
  obtain ⟨rest, hrest⟩ := hs.owes (by simpa using howes)
  exact hposition rest hrest

/-- A step keeps the queued functions announced. -/
theorem announced_step (s : EventLoop Task Chan Producer) (action : LoopAction Task Chan Producer)
    (s' : EventLoop Task Chan Producer) (hs : s.Announced) (h : s.step action = some s') : s'.Announced := by
  cases stepped_of_step h with
  | push producer task hidle =>
    exact ⟨hs.calling, hs.owes, fun _ _ => Or.inr (Or.inr ⟨producer, by simp [needsWrite]⟩)⟩
  | write producer howes => exact ⟨hs.calling, hs.owes, fun _ _ => Or.inl s.notify_pos⟩
  | poll active hposition hreported =>
    have hsettled := hs.settled (by simp [hposition])
    exact ⟨hs.calling.trans (by rw [hposition]; rfl), by simp [hsettled], fun hpolls => by cases hpolls⟩
  | handleRead active hposition =>
    have hsettled := hs.settled (by simp [hposition])
    exact ⟨hs.calling.trans (by rw [hposition]; rfl), by simp [hsettled], fun hpolls => by cases hpolls⟩
  | ownPush task hmay =>
    cases hposition : s.position with
    | calling rest =>
      have hcalling : s.callingFunctors = true := by rw [hs.calling, hposition]; rfl
      exact ⟨hs.calling, fun _ => ⟨rest, hposition⟩, fun _ _ => Or.inr (Or.inl (by simp [needsWrite, hcalling]))⟩
    | handling active =>
      have hcalling : s.callingFunctors = false := by rw [hs.calling, hposition]; rfl
      refine ⟨hs.calling, by simp [needsWrite, hcalling], fun hpolls => ?_⟩
      simp [queue, hposition, LoopPosition.pollsFirst] at hpolls
    | _ => simp [mayPush, hposition] at hmay
  | ownWrite howes => exact ⟨hs.calling, by simp, fun _ _ => Or.inl s.notify_pos⟩
  | handlerDone channel active hposition hsettled =>
    exact ⟨hs.calling.trans (by rw [hposition]; rfl), by simp [hsettled], fun hpolls => by cases hpolls⟩
  | beginFunctors hposition =>
    have hsettled := hs.settled (by simp [hposition])
    exact ⟨rfl, by simp [hsettled], fun hpolls => by cases hpolls⟩
  | swap hposition =>
    have hsettled := hs.settled (by simp [hposition])
    exact ⟨hs.calling.trans (by rw [hposition]; rfl), by simp [hsettled], fun _ hqueue => absurd rfl hqueue⟩
  | runNext task rest hposition =>
    have hsettled := hs.settled (by simp [hposition])
    exact ⟨hs.calling.trans (by rw [hposition]; rfl),
      by simp [hsettled], fun _ => hs.announced (by rw [hposition]; rfl)⟩
  | functorDone rest hposition hsettled =>
    exact ⟨hs.calling.trans (by rw [hposition]; rfl),
      by simp [hsettled], fun _ => hs.announced (by rw [hposition]; rfl)⟩
  | endFunctors hposition =>
    have hsettled := hs.settled (by simp [hposition])
    exact ⟨rfl, by simp [hsettled], fun _ => hs.announced (by rw [hposition]; rfl)⟩

/-- A run extends what was queued by what its actions push. -/
theorem queued_run {s t : EventLoop Task Chan Producer} {actions : List (LoopAction Task Chan Producer)}
    (hrun : run step s actions = some t) : t.queued = s.queued ++ actions.flatMap LoopAction.pushed :=
  run_extends (fun _ _ _ => queued_step) hrun

/-- In every run of a loop and the threads that queue functions, the functions started so far,
the rest of the batch and the queue are together exactly the functions pushed, in the order in
which they were pushed; and when the loop thread is in `epoll_wait` with a nonempty queue, the
eventfd counter is positive or a thread is between its push and its write. -/
theorem queue_run {s : EventLoop Task Chan Producer} {actions : List (LoopAction Task Chan Producer)}
    (hrun : run step new actions = some s) :
    s.ran ++ s.position.remaining ++ s.toDoList = actions.flatMap LoopAction.pushed ∧
    (s.position = .polling → s.toDoList ≠ [] → 0 < s.wakeupCount ∨ ∃ producer, s.writing producer = true) := by
  refine ⟨queued_run hrun, fun hposition hqueue => ?_⟩
  have hs := run_invariant announced_step announced_new hrun
  have hsettled := hs.settled (by simp [hposition])
  rcases hs.announced (by rw [hposition]; rfl) hqueue with hcount | howes | hwriting
  · exact Or.inl hcount
  · simp [hsettled] at howes
  · exact Or.inr hwriting

/-- A function queued by another thread wakes the loop up and is run. -/
theorem queue_wakeup : ∃ s : EventLoop ℕ Unit Unit,
    run step new [.push () 7, .write (), .poll [.wakeup], .handleRead, .beginFunctors, .swap, .runNext,
      .ownPush 8, .ownWrite, .functorDone, .endFunctors] = some s ∧ s.ran = [7] ∧ s.toDoList = [8] ∧
      (0 < s.wakeupCount ∨ ∃ producer, s.writing producer = true) := by
  have hrun : run step (new : EventLoop ℕ Unit Unit) [.push () 7, .write (), .poll [.wakeup], .handleRead,
      .beginFunctors, .swap, .runNext, .ownPush 8, .ownWrite, .functorDone, .endFunctors] = some _ := rfl
  exact ⟨_, hrun, rfl, rfl, (queue_run hrun).2 rfl (List.cons_ne_nil _ _)⟩

end EventLoop

end WebServer.Util
