import WebServer.Util.EventLoop

/-!
# Functions that wait in an event loop

The functions that were queued and not started yet are the rest of the batch and the queue.
A push adds one at the end, and starting a function takes the first one away. The rest of
the batch stands in `funclists`, which keeps what the functions hold.
-/

namespace WebServer.Util.EventLoop

variable {Task Chan Producer : Type} [DecidableEq Chan] [DecidableEq Producer]

/-- The functions that were queued and not started yet. -/
def pending (s : EventLoop Task Chan Producer) : List Task := s.position.remaining ++ s.toDoList

/-- The rest of the batch stands in `funclists`. -/
def Held (s : EventLoop Task Chan Producer) : Prop := s.position.remaining ⊆ s.funclists

variable {s s' : EventLoop Task Chan Producer} {action : LoopAction Task Chan Producer}

/-- Unless a function is started, a step adds what it pushes. -/
theorem pending_step (h : s.step action = some s') (hstart : action ≠ .runNext) :
    s'.pending = s.pending ++ action.pushed := by
  cases stepped_of_step h with
  | push producer task hidle => simp [pending, queue, LoopAction.pushed]
  | write producer howes => simp [pending, notify, LoopAction.pushed]
  | poll active hposition hreported => simp [pending, hposition, LoopAction.pushed, LoopPosition.remaining]
  | handleRead active hposition => simp [pending, hposition, LoopAction.pushed, LoopPosition.remaining]
  | ownPush task hmay => simp [pending, queue, LoopAction.pushed]
  | ownWrite howes => simp [pending, notify, LoopAction.pushed]
  | handlerDone channel active hposition hsettled =>
    simp [pending, hposition, LoopAction.pushed, LoopPosition.remaining]
  | beginFunctors hposition => simp [pending, hposition, LoopAction.pushed, LoopPosition.remaining]
  | swap hposition => simp [pending, hposition, LoopAction.pushed, LoopPosition.remaining]
  | runNext task rest hposition => exact absurd rfl hstart
  | functorDone rest hposition hsettled => simp [pending, hposition, LoopAction.pushed, LoopPosition.remaining]
  | endFunctors hposition => simp [pending, hposition, LoopAction.pushed, LoopPosition.remaining]

/-- Starting a function takes the first one away, and what it holds stays in `funclists`. -/
theorem runNext_step (h : s.step .runNext = some s') : ∃ task rest, s.position = .running (task :: rest) ∧
    s'.position = .calling rest ∧ s.pending = task :: s'.pending := by
  cases stepped_of_step h with
  | runNext task rest hposition =>
    exact ⟨task, rest, hposition, rfl, by simp [pending, hposition, LoopPosition.remaining]⟩

omit [DecidableEq Chan] [DecidableEq Producer] in
/-- A loop whose batch is over holds everything that remains of it. -/
theorem held_of_remaining (h : s.position.remaining = []) : s.Held := by
  rw [Held, h]
  exact List.nil_subset _

/-- Every step keeps the rest of the batch in `funclists`. -/
theorem held_step (hs : s.Held) (h : s.step action = some s') : s'.Held := by
  cases stepped_of_step h with
  | push producer task hidle => exact hs
  | write producer howes => exact hs
  | ownPush task hmay => exact hs
  | ownWrite howes => exact hs
  | swap hposition => exact List.Subset.refl _
  | runNext task rest hposition =>
    rw [Held, hposition] at hs
    exact List.Subset.trans (List.subset_cons_self task rest) hs
  | functorDone rest hposition hsettled =>
    rw [Held, hposition] at hs
    exact hs
  | _ => exact held_of_remaining rfl

/-- The callbacks to come were reported or stood behind those that are over. -/
theorem handling_step (h : s.step action = some s') {active : List (ActiveChannel Chan)}
    (hposition' : s'.position = .handling active) :
    action = .poll active ∨ ∃ before, s.position = .handling (before ++ active) := by
  cases stepped_of_step h with
  | push producer task hidle => exact Or.inr ⟨[], hposition'⟩
  | write producer howes => exact Or.inr ⟨[], hposition'⟩
  | ownPush task hmay => exact Or.inr ⟨[], hposition'⟩
  | ownWrite howes => exact Or.inr ⟨[], hposition'⟩
  | poll reported hposition hreported =>
    cases hposition'
    exact Or.inl rfl
  | handleRead rest hposition =>
    cases hposition'
    exact Or.inr ⟨[.wakeup], hposition⟩
  | handlerDone channel rest hposition hsettled =>
    cases hposition'
    exact Or.inr ⟨[.other channel], hposition⟩
  | _ => cases hposition'

/-- A push does not move the loop. -/
theorem position_of_pushed {task : Task} (hpushed : action.pushed = [task]) (h : s.step action = some s') :
    s'.position = s.position := by
  cases stepped_of_step h with
  | push producer task hidle => rfl
  | ownPush task hmay => rfl
  | _ => cases hpushed

/-- The end of a callback leaves those behind it. -/
theorem handlerDone_step (h : s.step .handlerDone = some s') : ∃ channel active,
    s.position = .handling (.other channel :: active) ∧ s'.position = .handling active := by
  cases stepped_of_step h with
  | handlerDone channel active hposition hsettled => exact ⟨channel, active, hposition, rfl⟩

end WebServer.Util.EventLoop
