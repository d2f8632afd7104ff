import WebServer.Foundation.Trace
import WebServer.Util.QueueProgress
import WebServer.Util.ServerActivity

/-!
# Every loop of a server is an event loop

A step of a server is, for each of its loops, a few steps of an event loop, which `loopActions` reads off it. So a
run of a server is a run of each loop, and what was proved about one event loop and the threads that queue
functions holds there, whatever the connections do: no function that is handed to a loop is lost, called twice or
overtaken, none waits for longer than two returns of `epoll_wait`, and the loop does not sleep on its queue.
-/

namespace WebServer.Util

open WebServer.Foundation
open WebServer.Http (HttpContent)

/-- `epoll_wait` of this loop returns. -/
def ServerAction.polls {Loop : Type} [DecidableEq Loop] (loop : Loop) : ServerAction Loop → Bool
  | poll other _ => other = loop
  | _ => false

/-- A function is started. -/
def LoopAction.isRunNext {Task Chan Producer : Type} : LoopAction Task Chan Producer → Bool
  | runNext => true
  | _ => false

/-- The queue is swapped. -/
def LoopAction.isSwap {Task Chan Producer : Type} : LoopAction Task Chan Producer → Bool
  | swap => true
  | _ => false

/-- `NextLoop()` leaves the base loop the same. -/
theorem EventLoopThreadPool.baseLoop_advance {Loop : Type} (pool : EventLoopThreadPool Loop) :
    pool.advance.baseLoop = pool.baseLoop := by
  rw [advance]
  split
  · rfl
  · rfl

namespace EventLoop

variable {Task Chan Producer : Type} [DecidableEq Chan] [DecidableEq Producer] {s s' : EventLoop Task Chan Producer}

/-- Only the start of a function adds to those that were started. -/
theorem ran_step {action : LoopAction Task Chan Producer} (h : s.step action = some s')
    (hstart : action.isRunNext = false) : s'.ran = s.ran := by
  cases stepped_of_step h with
  | runNext task rest hposition => cases hstart
  | _ => rfl

/-- Where no function is started, those that were started stay the same. -/
theorem ran_run {actions : List (LoopAction Task Chan Producer)} (hrun : run step s actions = some s')
    (hstart : ∀ action ∈ actions, action.isRunNext = false) : s'.ran = s.ran := by
  induction actions generalizing s with
  | nil => exact congrArg ran (Option.some.inj hrun).symm
  | cons action rest ih =>
    obtain ⟨hnow, hlater⟩ := List.forall_mem_cons.mp hstart
    obtain ⟨t, hstep, hrest⟩ := run_cons_eq_some.mp hrun
    rw [ih hrest hlater, ran_step hstep hnow]

/-- Only a swap makes a batch. -/
theorem funclists_step {action : LoopAction Task Chan Producer} (h : s.step action = some s')
    (hswap : action.isSwap = false) : s'.funclists ⊆ s.funclists := by
  cases stepped_of_step h with
  | swap hposition => cases hswap
  | endFunctors hposition => exact List.nil_subset _
  | _ => exact List.Subset.refl _

/-- Where the queue is not swapped, nothing is added to the batch. -/
theorem funclists_run {actions : List (LoopAction Task Chan Producer)} (hrun : run step s actions = some s')
    (hswap : ∀ action ∈ actions, action.isSwap = false) : s'.funclists ⊆ s.funclists := by
  induction actions generalizing s with
  | nil => exact Option.some.inj hrun ▸ List.Subset.refl _
  | cons action rest ih =>
    obtain ⟨hnow, hlater⟩ := List.forall_mem_cons.mp hswap
    obtain ⟨t, hstep, hrest⟩ := run_cons_eq_some.mp hrun
    exact List.Subset.trans (ih hrest hlater) (funclists_step hstep hnow)

end EventLoop

namespace TcpServer

variable {Loop : Type} [DecidableEq Loop]

/-- What an action of one loop is for another one. -/
def inLoop (loop other : Loop) (action : LoopAction BaseFunc Callback Loop) :
    List (LoopAction BaseFunc Callback Loop) :=
  if other = loop then [action] else []

/-- The actions of which a step consists for a loop. -/
def loopActions (loop : Loop) (s : TcpServer Loop) : ServerAction Loop → List (LoopAction BaseFunc Callback Loop)
  | .internal other action => inLoop loop other action
  | .poll other reports => inLoop loop other (.poll (reports.flatMap (Report.active (s.epollers other))))
  | .callbackDone other => inLoop loop other .handlerDone
  | .newConn _ _ _ _ =>
    (if s.threadPool.nextLoop = s.baseLoop then []
      else inLoop loop s.threadPool.nextLoop
        (queueAction s.baseLoop s.threadPool.nextLoop (.connectionEstablished s.objects.length))) ++
      inLoop loop s.baseLoop .handlerDone
  | .handleMessage other data _ =>
    (match (s.loops other).position.callback with
      | some (.handleMessage id) =>
        if data = some [] then inLoop loop s.baseLoop (queueAction other s.baseLoop (.handleCloseInLoop id)) else []
      | _ => []) ++ inLoop loop other .handlerDone
  | .handleWrite other _ => inLoop loop other .handlerDone
  | .runNext other _ =>
    inLoop loop other .runNext ++
      match (s.loops other).position.nextFunc with
      | some (.handleCloseInLoop id) =>
        match s.objects[id]? with
        | some c => inLoop loop c.loop (queueAction other c.loop (.connectionDestructor id))
        | none => []
      | _ => []
  | .idleShutdown _ _ => []
  | .destroy _ => []

variable {s s' t : TcpServer Loop} {loop other thread : Loop} {id : ℕ}

/-- A loop gets from one state of the server to another one by these actions. -/
def Moves (loop : Loop) (s s' : TcpServer Loop) (acts : List (LoopAction BaseFunc Callback Loop)) : Prop :=
  run EventLoop.step (s.loops loop) acts = some (s'.loops loop)

/-- A loop that is left alone stays where it is. -/
theorem Moves.stays (h : s'.loops = s.loops) : Moves loop s s' [] := by rw [Moves, h, run_nil]

/-- One part of a step after the other. -/
theorem Moves.trans {acts acts' : List (LoopAction BaseFunc Callback Loop)} (h : Moves loop s t acts)
    (h' : Moves loop t s' acts') : Moves loop s s' (acts ++ acts') :=
  run_append_eq_some.mpr ⟨_, h, h'⟩

/-- A step of one loop. -/
theorem moves_loopStep {action : LoopAction BaseFunc Callback Loop} (h : s.loopStep other action = some s') :
    Moves loop s s' (inLoop loop other action) := by
  obtain ⟨next, hnext, rfl⟩ := loopStep_eq_some h
  rw [Moves, inLoop]
  change _ = some (Function.update s.loops other next loop)
  split
  · next heq =>
    subst heq
    rw [Function.update_self, run_cons, hnext]
    rfl
  · next hne => rw [Function.update_of_ne (Ne.symm hne), run_nil]

/-- A function of a connection leaves the loops alone. -/
theorem moves_call {events : List (LifecycleEvent Loop)} {function : Session → Session}
    (h : s.call id events function = some s') : Moves loop s s' [] := by
  obtain ⟨c, -, rfl⟩ := Option.map_eq_some_iff.mp h
  exact .stays rfl

/-- `HandleNewConn` queues `ConnectionEstablished` in the loop of the connection, unless it calls it. -/
theorem moves_newConn {fd : ℕ} {now : ℤ} {content : HttpContent} {calls : List UserCall}
    (h : s.handleNewConn fd now content calls = some t) (hdone : t.loopStep s.baseLoop .handlerDone = some s') :
    Moves loop s s' (loopActions loop s (.newConn fd now content calls)) := by
  have hadded : Moves loop s (s.addConnection fd now content) [] := .stays rfl
  have hbase : (s.addConnection fd now content).baseLoop = s.baseLoop := s.threadPool.baseLoop_advance
  rw [handleNewConn, runConnectionEstablished, hbase] at h
  rw [loopActions]
  refine Moves.trans ?_ (moves_loopStep hdone)
  split at h
  · next hhere =>
    rw [if_pos hhere]
    exact hadded.trans (moves_call h)
  · next hthere =>
    rw [if_neg hthere]
    exact hadded.trans (moves_loopStep h)

/-- `HandleMessage` queues `HandleCloseInLoop` in the base loop at the end of the stream. -/
theorem moves_handleMessage {data : Option Bytes} {calls : List UserCall}
    (hcallback : (s.loops thread).position.callback = some (.handleMessage id))
    (h : s.handleMessage thread id data calls = some t) (hdone : t.loopStep thread .handlerDone = some s') :
    Moves loop s s' (loopActions loop s (.handleMessage thread data calls)) := by
  obtain ⟨u, hcall, hclose⟩ := Option.bind_eq_some_iff.mp h
  have hcalled : Moves loop s u [] := moves_call hcall
  have hbase : u.baseLoop = s.baseLoop := by
    obtain ⟨c, -, rfl⟩ := Option.map_eq_some_iff.mp hcall
    rfl
  simp only [loopActions, hcallback]
  refine Moves.trans ?_ (moves_loopStep hdone)
  split at hclose
  · next hend =>
    rw [handleClose, hbase] at hclose
    rw [if_pos hend]
    exact hcalled.trans (moves_loopStep hclose)
  · next hmore =>
    rw [if_neg hmore]
    exact Option.some.inj hclose ▸ hcalled

/-- `HandleCloseInLoop` queues `ConnectionDestructor` in the loop of the connection; the other functions queue
nothing. -/
theorem moves_runNext {calls : List UserCall} {func : BaseFunc}
    (hnext : (s.loops thread).position.nextFunc = some func) (hstart : s.loopStep thread .runNext = some t)
    (h : t.runFunc thread calls func = some s') : Moves loop s s' (loopActions loop s (.runNext thread calls)) := by
  have hobjects := objects_loopStep hstart
  simp only [loopActions, hnext]
  refine Moves.trans (moves_loopStep hstart) ?_
  cases func with
  | connectionEstablished id => exact moves_call (show t.call id _ (·.establish calls) = some s' from h)
  | handleCloseInLoop id =>
    obtain ⟨c, hid, hqueue⟩ := Option.bind_eq_some_iff.mp h
    have herased : Moves loop t (t.eraseConnection id c) [] := .stays rfl
    simp only [← hobjects, hid]
    exact herased.trans (moves_loopStep hqueue)
  | connectionDestructor id => exact moves_call (show t.call id _ (·.connectionDestructor) = some s' from h)
  | addTimerInLoop => exact Option.some.inj h ▸ .stays rfl

/-- A step of a server moves each loop by actions of its own. -/
theorem moves_step [Fintype Loop] {action : ServerAction Loop} (hstep : s.step action = some s') (loop : Loop) :
    Moves loop s s' (loopActions loop s action) := by
  cases stepped_of_step hstep with
  | internal hfree hstep => exact moves_loopStep hstep
  | poll hpossible hstep => exact moves_loopStep hstep
  | callbackDone hcallback hstep => exact moves_loopStep hstep
  | newConn hcallback hclosed hcall hdone => exact moves_newConn hcall hdone
  | handleMessage hcallback hcall hdone => exact moves_handleMessage hcallback hcall hdone
  | handleWrite hcallback hcall hdone => exact (moves_call hcall).trans (moves_loopStep hdone)
  | runNext hnext hstart hcall => exact moves_runNext hnext hstart hcall
  | idleShutdown hcallback hcall =>
    obtain ⟨c, -, hshutdown⟩ := Option.bind_eq_some_iff.mp hcall
    split at hshutdown
    · exact moves_call hshutdown
    · cases hshutdown
  | destroy hended =>
    obtain ⟨c, -, hclose⟩ := Option.bind_eq_some_iff.mp hended
    split at hclose
    · exact Option.some.inj hclose ▸ .stays rfl
    · cases hclose

/-- A run of a server moves each loop by a run of its own. -/
theorem moves_run [Fintype Loop] {actions : List (ServerAction Loop)} (hrun : run step s actions = some t)
    (loop : Loop) : Moves loop s t (trace step (loopActions loop) s actions) :=
  run_trace (f := fun u : TcpServer Loop => u.loops loop) (fun _ _ _ hstep => moves_step hstep loop) hrun

/-- The action of a loop is an action of this loop only. -/
theorem mem_inLoop {action action' : LoopAction BaseFunc Callback Loop} :
    action' ∈ inLoop loop other action ↔ other = loop ∧ action' = action := by
  rw [inLoop]
  split
  · next heq => simp [heq]
  · next hne => simp [hne]

/-- A step consists of a step of the loop that takes it, and of pushes. -/
theorem forall_loopActions [Fintype Loop] {action : ServerAction Loop} (hstep : s.step action = some s')
    {P : LoopAction BaseFunc Callback Loop → Prop} (hpush : ∀ thread target func,
      P (queueAction thread target func))
    (hdone : P .handlerDone) (hinternal : ∀ inner, action = .internal loop inner → inner.isInternal = true →
      P inner)
    (hpoll : action.polls loop = true → ∀ active, P (.poll active))
    (hstart : ∀ calls, action = .runNext loop calls → P .runNext) :
      ∀ inner ∈ loopActions loop s action, P inner := by
  cases stepped_of_step hstep with
  | internal hfree hstep =>
    intro inner hmem
    obtain ⟨rfl, rfl⟩ := mem_inLoop.mp hmem
    exact hinternal _ rfl hfree
  | poll hpossible hstep =>
    intro inner hmem
    obtain ⟨rfl, rfl⟩ := mem_inLoop.mp hmem
    exact hpoll (decide_eq_true rfl) _
  | callbackDone hcallback hstep =>
    intro inner hmem
    exact (mem_inLoop.mp hmem).2 ▸ hdone
  | newConn hcallback hclosed hcall hdone' =>
    rw [loopActions, List.forall_mem_append]
    refine ⟨fun inner hmem => ?_, fun inner hmem => (mem_inLoop.mp hmem).2 ▸ hdone⟩
    split at hmem
    · cases hmem
    · exact (mem_inLoop.mp hmem).2 ▸ hpush _ _ _
  | handleMessage hcallback hcall hdone' =>
    simp only [loopActions, hcallback, List.forall_mem_append]
    refine ⟨fun inner hmem => ?_, fun inner hmem => (mem_inLoop.mp hmem).2 ▸ hdone⟩
    split at hmem
    · exact (mem_inLoop.mp hmem).2 ▸ hpush _ _ _
    · cases hmem
  | handleWrite hcallback hcall hdone' =>
    intro inner hmem
    exact (mem_inLoop.mp hmem).2 ▸ hdone
  | @runNext other func calls _ _ hnext hstart' hcall =>
    simp only [loopActions, hnext, List.forall_mem_append]
    refine ⟨fun inner hmem => ?_, fun inner hmem => ?_⟩
    · obtain ⟨rfl, rfl⟩ := mem_inLoop.mp hmem
      exact hstart calls rfl
    · cases func with
      | handleCloseInLoop id =>
        simp only at hmem
        split at hmem
        · exact (mem_inLoop.mp hmem).2 ▸ hpush _ _ _
        · cases hmem
      | _ => cases hmem
  | idleShutdown hcallback hcall => exact List.forall_mem_nil _
  | destroy hended => exact List.forall_mem_nil _

/-- A push is no return of `epoll_wait`, and no start of a function. -/
theorem isPoll_queueAction (thread loop : Loop) (func : BaseFunc) :
    (queueAction thread loop func).isPoll = false ∧ (queueAction thread loop func).isRunNext = false := by
  rw [queueAction]
  split
  · exact ⟨rfl, rfl⟩
  · exact ⟨rfl, rfl⟩

omit [DecidableEq Loop] in
/-- A step of a loop that concerns no connection is no return of `epoll_wait`, and no start of a function. -/
theorem isPoll_of_isInternal {action : LoopAction BaseFunc Callback Loop} (h : action.isInternal = true) :
    action.isPoll = false ∧ action.isRunNext = false := by
  cases action with
  | poll active => cases h
  | runNext => cases h
  | _ => exact ⟨rfl, rfl⟩

/-- `epoll_wait` of a loop returns in the steps that say so. -/
theorem countP_loopActions [Fintype Loop] {action : ServerAction Loop} (hstep : s.step action = some s')
    (loop : Loop) :
    (loopActions loop s action).countP LoopAction.isPoll = if action.polls loop then 1 else 0 := by
  cases hpolls : action.polls loop with
  | true =>
    cases action with
    | poll other reports =>
      obtain rfl : other = loop := of_decide_eq_true hpolls
      rw [loopActions, inLoop, if_pos rfl]
      rfl
    | _ => cases hpolls
  | false =>
    refine List.countP_eq_zero.mpr fun inner hmem => Bool.eq_false_iff.mp ?_
    refine forall_loopActions (P := fun inner => inner.isPoll = false) hstep ?_ rfl ?_ ?_ ?_ inner hmem
    · exact fun thread target func => (isPoll_queueAction thread target func).1
    · exact fun inner _ hinternal => (isPoll_of_isInternal hinternal).1
    · exact fun htrue => absurd (hpolls.symm.trans htrue) Bool.false_ne_true
    · exact fun _ _ => rfl

/-- A function is started in a loop by the step that starts it, and by no other one. -/
theorem ran_step [Fintype Loop] {action : ServerAction Loop} (hstep : s.step action = some s')
    (hother : ∀ calls, action ≠ .runNext loop calls) : (s'.loops loop).ran = (s.loops loop).ran := by
  refine EventLoop.ran_run (moves_step hstep loop) (forall_loopActions hstep ?_ rfl ?_ ?_ ?_)
  · exact fun thread target func => (isPoll_queueAction thread target func).2
  · exact fun inner _ hinternal => (isPoll_of_isInternal hinternal).2
  · exact fun _ _ => rfl
  · exact fun calls heq => absurd heq (hother calls)

/-- The function that is started is the next one of the batch. -/
theorem ran_runNext {calls : List UserCall} {func : BaseFunc}
    (hnext : (s.loops loop).position.nextFunc = some func) (hstart : s.loopStep loop .runNext = some t)
    (h : t.runFunc loop calls func = some s') : (s'.loops loop).ran = (s.loops loop).ran ++ [func] := by
  have hstarted : (t.loops loop).ran = (s.loops loop).ran ++ [func] := by
    obtain ⟨next, hrun, rfl⟩ := loopStep_eq_some hstart
    change (Function.update s.loops loop next loop).ran = _
    rw [Function.update_self]
    cases EventLoop.stepped_of_step hrun with
    | runNext task rest hposition =>
      rw [hposition] at hnext
      rw [← Option.some.inj hnext]
  rw [← hstarted]
  cases func with
  | connectionEstablished id =>
    exact EventLoop.ran_run (moves_call (show t.call id _ (·.establish calls) = some s' from h)) (by simp)
  | handleCloseInLoop id =>
    obtain ⟨c, hid, hqueue⟩ := Option.bind_eq_some_iff.mp h
    refine EventLoop.ran_run (moves_loopStep (s := t.eraseConnection id c) hqueue) fun inner hmem => ?_
    exact (mem_inLoop.mp hmem).2 ▸ (isPoll_queueAction _ _ _).2
  | connectionDestructor id =>
    exact EventLoop.ran_run (moves_call (show t.call id _ (·.connectionDestructor) = some s' from h)) (by simp)
  | addTimerInLoop => rw [Option.some.inj h]

/-- The returns of `epoll_wait` in a run are those of the loop in its run. -/
theorem countP_run [Fintype Loop] {actions : List (ServerAction Loop)} (hrun : run step s actions = some t)
    (loop : Loop) :
    (trace step (loopActions loop) s actions).countP LoopAction.isPoll = actions.countP (·.polls loop) :=
  countP_trace (fun _ _ _ hstep => countP_loopActions hstep loop) hrun

/-- When `epoll_wait` of a loop has returned twice, everything that waited in the loop before was started. -/
theorem served_run [Fintype Loop] {more : List (ServerAction Loop)} (hrun : run step s more = some t)
    (hpolls : 2 ≤ more.countP (·.polls loop)) : (s.loops loop).queued <+: (t.loops loop).ran :=
  EventLoop.served_run (moves_run hrun loop) (countP_run hrun loop ▸ hpolls)

/-- What is in the batch of a loop was there before, or it waited in the queue. -/
theorem funclists_step [Fintype Loop] {action : ServerAction Loop} (hstep : s.step action = some s') (loop : Loop) :
    (s'.loops loop).funclists ⊆ (s.loops loop).funclists ∨ (s'.loops loop).funclists ⊆ (s.loops loop).toDoList := by
  by_cases hswap : action = .internal loop .swap
  · subst hswap
    have hmoves := moves_step hstep loop
    rw [Moves, loopActions, inLoop, if_pos rfl, run_cons_eq_some] at hmoves
    obtain ⟨next, hnext, hrest⟩ := hmoves
    rw [← Option.some.inj hrest]
    cases EventLoop.stepped_of_step hnext with
    | swap hposition => exact Or.inr (List.Subset.refl _)
  · refine Or.inl (EventLoop.funclists_run (moves_step hstep loop) (forall_loopActions hstep ?_ rfl ?_ ?_ ?_))
    · intro thread target func
      rw [queueAction]
      split
      · rfl
      · rfl
    · intro inner hinner hinternal
      cases inner with
      | swap => exact absurd hinner hswap
      | _ => rfl
    · exact fun _ _ => rfl
    · exact fun _ _ => rfl

/-- In every run of a server, and for each of its loops: the functions that were started, the rest of the batch and
the queue are those which the threads of all loops pushed, in this order; while the loop is in `epoll_wait` with
functions in its queue, its eventfd is readable or a thread is about to write to it; and when `epoll_wait` has
returned twice, everything that waited was started, in order. -/
theorem loops_run [Fintype Loop] {threadPool : EventLoopThreadPool Loop} {actions : List (ServerAction Loop)}
    (hrun : run step (new threadPool) actions = some s) (loop : Loop) :
    (s.loops loop).ran ++ (s.loops loop).pending =
      (trace step (loopActions loop) (new threadPool) actions).flatMap LoopAction.pushed ∧
    ((s.loops loop).position = .polling → (s.loops loop).toDoList ≠ [] →
      0 < (s.loops loop).wakeupCount ∨ ∃ producer, (s.loops loop).writing producer = true) ∧
    ∀ more t, run step s more = some t → 2 ≤ more.countP (·.polls loop) →
      (s.loops loop).ran ++ (s.loops loop).pending <+: (t.loops loop).ran := by
  have hqueued : (s.loops loop).queued = (s.loops loop).ran ++ (s.loops loop).pending := List.append_assoc _ _ _
  obtain ⟨hpushed, hawake⟩ := EventLoop.queue_run (moves_run hrun loop)
  rw [← hqueued]
  exact ⟨hpushed, hawake, fun more t hmore hpolls => served_run hmore hpolls⟩

/-- The functions that are pushed in the loop of a worker while a descriptor is used twice. -/
theorem loops_run_reused : ∃ s : TcpServer Bool, run step (new ⟨false, [true], 0⟩) reuseActions = some s ∧
    (s.loops true).ran = [.connectionEstablished 0, .connectionDestructor 0] ∧
      (trace step (loopActions true) (new ⟨false, [true], 0⟩) reuseActions).flatMap LoopAction.pushed =
        [.connectionEstablished 0, .connectionDestructor 0, .connectionEstablished 1] := by
  have hrun : run step (new ⟨false, [true], 0⟩) reuseActions = some _ := rfl
  exact ⟨_, hrun, rfl, (loops_run hrun true).1.symm⟩

end TcpServer

end WebServer.Util
