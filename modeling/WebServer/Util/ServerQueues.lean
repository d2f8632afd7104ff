import WebServer.Foundation.Dispatch
import WebServer.Util.PendingTasks
import WebServer.Util.ServerObjects

/-!
# The queues of a server

For a connection that was accepted, is closing or was erased one function waits: its
`ConnectionEstablished`, its `HandleCloseInLoop` or its `ConnectionDestructor`, once and in
the loop that has to run it. Callbacks wait only for connections that are established in
their loop, or, for the write callback behind a read callback, closed since.
-/

namespace WebServer.Util

open WebServer.Foundation

/-- The function that waits for a connection, and the loop it waits in. -/
def Phase.task {Loop : Type} (baseLoop loop : Loop) (id : ℕ) : Phase → Option (Loop × BaseFunc)
  | accepted => some (loop, .connectionEstablished id)
  | closing => some (baseLoop, .handleCloseInLoop id)
  | erased => some (loop, .connectionDestructor id)
  | _ => none

namespace TcpServer

variable {Loop : Type} [DecidableEq Loop]

/-- The function that waits for each connection. -/
def due (baseLoop : Loop) (located : ℕ → Option (Loop × ℕ)) (phase : ℕ → Phase) (id : ℕ) :
    Option (Loop × BaseFunc) :=
  (located id).bind fun place => (phase id).task baseLoop place.1 id

/-- The functions that wait in each loop. -/
def pendings (loops : Loop → EventLoop BaseFunc Callback Loop) (loop : Loop) : List BaseFunc := (loops loop).pending

/-- The callbacks that wait in a loop: one read callback at most for a connection, and only for
connections of this loop in a phase that handles it. -/
structure Runnable (located : ℕ → Option (Loop × ℕ)) (phase : ℕ → Phase) (loop : Loop)
    (callbacks : List (ActiveChannel Callback)) : Prop where
  once : ∀ id, callbacks.count (.other (.handleMessage id)) ≤ 1
  reads : ∀ id, .other (.handleMessage id) ∈ callbacks → phase id = .established ∧ ∃ fd,
    located id = some (loop, fd)
  writes : ∀ id, .other (.handleWrite id) ∈ callbacks →
    (2 ≤ (phase id).rank ∧ (phase id).rank ≤ 4) ∧ ∃ fd, located id = some (loop, fd)

/-- The callbacks that wait in all loops. -/
def Active (loops : Loop → EventLoop BaseFunc Callback Loop) (located : ℕ → Option (Loop × ℕ)) (phase : ℕ → Phase) :
    Prop :=
  ∀ loop callbacks, (loops loop).position = .handling callbacks → Runnable located phase loop callbacks

variable {loops : Loop → EventLoop BaseFunc Callback Loop} {located : ℕ → Option (Loop × ℕ)} {phase : ℕ → Phase}
  {expected : ℕ → Option (Loop × BaseFunc)} {loop : Loop} {id : ℕ} {func : BaseFunc}
  {next : EventLoop BaseFunc Callback Loop} {action : LoopAction BaseFunc Callback Loop}

omit [DecidableEq Loop] in
/-- What waits follows a change of one connection. -/
theorem due_update (baseLoop : Loop) {fd : ℕ} {after : Phase} :
    due baseLoop (Function.update located id (some (loop, fd))) (Function.update phase id after) =
      Function.update (due baseLoop located phase) id (after.task baseLoop loop id) := by
  funext other
  by_cases heq : other = id
  · subst heq
    simp only [due, Function.update_self, Option.bind_some]
  · simp only [due, Function.update_of_ne heq]

/-- A step of one loop changes what waits in this loop. -/
theorem pendings_update : pendings (Function.update loops loop next) = Function.update
    (pendings loops) loop next.pending := by
  funext other
  by_cases heq : other = loop
  · subst heq
    simp only [pendings, Function.update_self]
  · simp only [pendings, Function.update_of_ne heq]

/-- Unless a function is started, a step that pushes nothing for a connection keeps what waits for
the connections. -/
theorem scheduled_step (h : Scheduled BaseFunc.connection (pendings loops) expected) (hstart : action ≠ .runNext)
    (hpushed : ∀ func ∈ action.pushed, func.connection = none) (hstep : (loops loop).step action = some next) :
    Scheduled BaseFunc.connection (pendings (Function.update loops loop next)) expected := by
  have hpending : next.pending = (loops loop).pending ++ action.pushed := EventLoop.pending_step hstep hstart
  apply h.congr
  intro place task htask
  rw [pendings_update]
  by_cases heq : place = loop
  · subst heq
    rw [Function.update_self, hpending, List.count_append]
    apply Nat.add_eq_left.mpr
    rw [List.count_eq_zero]
    exact fun hmem => htask (hpushed task hmem)
  · rw [Function.update_of_ne heq]

/-- `QueueOneFunc` adds a function for a connection for which none waits. -/
theorem scheduled_push (h : Scheduled BaseFunc.connection (pendings loops) expected)
    (hfunc : func.connection = some id) (hnone : expected id = none)
    (hpushed : action.pushed = [func]) (hstep : (loops loop).step action = some next) :
    Scheduled BaseFunc.connection (pendings (Function.update loops loop next))
      (Function.update expected id (some (loop, func))) := by
  have hpending : next.pending = (loops loop).pending ++ [func] := by
    rw [← hpushed]
    exact EventLoop.pending_step hstep fun heq => by simp [heq, LoopAction.pushed] at hpushed
  rw [pendings_update, hpending]
  exact h.push hfunc hnone

/-- Starting a function takes it out of its loop, where it was due. -/
theorem scheduled_runNext (h : Scheduled BaseFunc.connection (pendings loops) expected)
    (hnext : (loops loop).position.nextFunc = some func) (hfunc : func.connection = some id)
    (hstep : (loops loop).step .runNext = some next) :
    expected id = some (loop, func) ∧
      Scheduled BaseFunc.connection (pendings (Function.update loops loop next))
        (Function.update expected id none) := by
  obtain ⟨task, rest, hposition, -, hpending⟩ := EventLoop.runNext_step hstep
  rw [hposition] at hnext
  obtain rfl := Option.some.inj hnext
  have hqueue : pendings loops loop = task :: next.pending := hpending
  refine ⟨h.due_of_mem hfunc (hqueue ▸ List.mem_cons_self), ?_⟩
  rw [pendings_update]
  exact h.pop hfunc hqueue

/-- Starting a function that concerns no connection. -/
theorem scheduled_runOther (h : Scheduled BaseFunc.connection (pendings loops) expected)
    (hnext : (loops loop).position.nextFunc = some func) (hfunc : func.connection = none)
    (hstep : (loops loop).step .runNext = some next) :
    Scheduled BaseFunc.connection (pendings (Function.update loops loop next)) expected := by
  obtain ⟨task, rest, hposition, -, hpending⟩ := EventLoop.runNext_step hstep
  rw [hposition] at hnext
  obtain rfl := Option.some.inj hnext
  apply h.congr
  intro place task' htask
  rw [pendings_update]
  by_cases heq : place = loop
  · subst heq
    have hne : task ≠ task' := fun heq => htask (heq ▸ hfunc)
    rw [Function.update_self, pendings, hpending, List.count_cons_of_ne hne]
  · rw [Function.update_of_ne heq]

/-- A step of one loop keeps the batches. -/
theorem held_update (h : ∀ loop, (loops loop).Held) (hstep : (loops loop).step action = some next) (other : Loop) :
    (Function.update loops loop next other).Held := by
  by_cases heq : other = loop
  · subst heq
    rw [Function.update_self]
    exact EventLoop.held_step (h other) hstep
  · rw [Function.update_of_ne heq]
    exact h other

omit [DecidableEq Loop] in
/-- Which functions wait for a connection, in which phase, and where. -/
theorem due_eq_some {baseLoop : Loop} (h : due baseLoop located phase id = some (loop, func)) :
    ∃ place fd, located id = some (place, fd) ∧
      (phase id = .accepted ∧ loop = place ∧ func = .connectionEstablished id ∨
        phase id = .closing ∧ loop = baseLoop ∧ func = .handleCloseInLoop id ∨
        phase id = .erased ∧ loop = place ∧ func = .connectionDestructor id) := by
  obtain ⟨⟨place, fd⟩, hlocated, htask⟩ := Option.bind_eq_some_iff.mp h
  refine ⟨place, fd, hlocated, ?_⟩
  cases hphase : phase id with
  | accepted =>
    rw [hphase] at htask
    cases htask
    exact Or.inl ⟨rfl, rfl, rfl⟩
  | closing =>
    rw [hphase] at htask
    cases htask
    exact Or.inr (Or.inl ⟨rfl, rfl, rfl⟩)
  | erased =>
    rw [hphase] at htask
    cases htask
    exact Or.inr (Or.inr ⟨rfl, rfl, rfl⟩)
  | _ => simp [hphase, Phase.task] at htask

omit [DecidableEq Loop] in
/-- The callbacks that are left may be run. -/
theorem Runnable.suffix {before callbacks : List (ActiveChannel Callback)}
    (h : Runnable located phase loop (before ++ callbacks)) : Runnable located phase loop callbacks where
  once id := by
    have hcount := h.once id
    rw [List.count_append] at hcount
    omega
  reads id hmem := h.reads id (List.mem_append_right before hmem)
  writes id hmem := h.writes id (List.mem_append_right before hmem)

/-- A step of one loop adds no callbacks but those that `epoll_wait` reports. -/
theorem Active.step (h : Active loops located phase)
    (hpolled : ∀ active, action = .poll active → Runnable located phase loop active)
    (hstep : (loops loop).step action = some next) : Active (Function.update loops loop next) located phase := by
  intro other callbacks hposition
  by_cases heq : other = loop
  · subst heq
    rw [Function.update_self] at hposition
    rcases EventLoop.handling_step hstep hposition with hreported | ⟨before, hbefore⟩
    · exact hpolled callbacks hreported
    · exact (h other _ hbefore).suffix
  · rw [Function.update_of_ne heq] at hposition
    exact h other callbacks hposition

omit [DecidableEq Loop] in
/-- The phase of a connection may change to one that handles the callbacks which wait for it. -/
theorem Active.change (h : Active loops located phase) {after : Phase}
    (hreads : after = .established ∨ ∀ loop callbacks, (loops loop).position = .handling callbacks →
      .other (.handleMessage id) ∉ callbacks)
    (hwrites : (2 ≤ after.rank ∧ after.rank ≤ 4) ∨ ∀ loop callbacks, (loops loop).position = .handling callbacks →
      .other (.handleWrite id) ∉ callbacks) :
    Active loops located (Function.update phase id after) := by
  intro loop callbacks hposition
  have hrunnable := h loop callbacks hposition
  refine ⟨hrunnable.once, fun other hmem => ?_, fun other hmem => ?_⟩
  · by_cases heq : other = id
    · subst heq
      rw [Function.update_self]
      exact ⟨hreads.resolve_right fun habsent => habsent loop callbacks hposition hmem,
        (hrunnable.reads other hmem).2⟩
    · rw [Function.update_of_ne heq]
      exact hrunnable.reads other hmem
  · by_cases heq : other = id
    · subst heq
      rw [Function.update_self]
      exact ⟨hwrites.resolve_right fun habsent => habsent loop callbacks hposition hmem,
        (hrunnable.writes other hmem).2⟩
    · rw [Function.update_of_ne heq]
      exact hrunnable.writes other hmem

omit [DecidableEq Loop] in
/-- No read callback waits for a connection that is not established. -/
theorem Active.not_reads (h : Active loops located phase) (hphase : phase id ≠ .established) (loop : Loop)
    (callbacks : List (ActiveChannel Callback)) (hposition : (loops loop).position = .handling callbacks) :
    .other (.handleMessage id) ∉ callbacks := fun hmem => hphase ((h loop callbacks hposition).reads id hmem).1

omit [DecidableEq Loop] in
/-- No write callback waits for a connection that is not established yet, or that is destructed. -/
theorem Active.not_writes (h : Active loops located phase) (hphase : ¬ (2 ≤ (phase id).rank ∧ (phase id).rank ≤ 4))
    (loop : Loop) (callbacks : List (ActiveChannel Callback))
    (hposition : (loops loop).position = .handling callbacks) :
    .other (.handleWrite id) ∉ callbacks := fun hmem => hphase ((h loop callbacks hposition).writes id hmem).1

omit [DecidableEq Loop] in
/-- A connection that is located nowhere may be located. -/
theorem Active.locate (h : Active loops located phase) (hnone : located id = none) (place : Loop × ℕ) :
    Active loops (Function.update located id (some place)) phase := by
  intro loop callbacks hposition
  have hrunnable := h loop callbacks hposition
  have hkeep (other : ℕ) (hother : ∃ fd, located other = some (loop, fd)) :
      ∃ fd, Function.update located id (some place) other = some (loop, fd) := by
    obtain ⟨fd, hfd⟩ := hother
    have hne : other ≠ id := fun heq => by simp [heq, hnone] at hfd
    exact ⟨fd, by rw [Function.update_of_ne hne, hfd]⟩
  exact ⟨hrunnable.once, fun other hmem => (hrunnable.reads other hmem).imp_right (hkeep other),
    fun other hmem => (hrunnable.writes other hmem).imp_right (hkeep other)⟩

/-- A read callback that ends was the only one for its connection. -/
theorem Active.readDone (h : Active loops located phase)
    (hcallback : (loops loop).position.callback = some (.handleMessage id))
    (hstep : (loops loop).step .handlerDone = some next) (other : Loop) (callbacks : List (ActiveChannel Callback))
    (hposition : (Function.update loops loop next other).position = .handling callbacks) :
    .other (.handleMessage id) ∉ callbacks := by
  obtain ⟨callback, active, hbefore, hafter⟩ := EventLoop.handlerDone_step hstep
  rw [hbefore] at hcallback
  obtain rfl := Option.some.inj hcallback
  have hrunnable := h loop _ hbefore
  intro hmem
  by_cases heq : other = loop
  · subst heq
    rw [Function.update_self, hafter] at hposition
    cases hposition
    have hcount := hrunnable.once id
    rw [List.count_cons_self] at hcount
    exact absurd (List.count_pos_iff.mpr hmem) (by omega)
  · rw [Function.update_of_ne heq] at hposition
    obtain ⟨-, fd, hfd⟩ := hrunnable.reads id List.mem_cons_self
    obtain ⟨-, fd', hfd'⟩ := (h other callbacks hposition).reads id hmem
    rw [hfd] at hfd'
    exact heq (congrArg Prod.fst (Option.some.inj hfd')).symm

/-- While a loop starts a function, no write callback waits for its connections. -/
theorem Active.not_writes_runNext (h : Active loops located phase) {fd : ℕ}
    (hlocated : located id = some (loop, fd))
    (hstep : (loops loop).step .runNext = some next) (other : Loop) (callbacks : List (ActiveChannel Callback))
    (hposition : (Function.update loops loop next other).position = .handling callbacks) :
    .other (.handleWrite id) ∉ callbacks := by
  obtain ⟨task, rest, -, hafter, -⟩ := EventLoop.runNext_step hstep
  intro hmem
  by_cases heq : other = loop
  · subst heq
    rw [Function.update_self, hafter] at hposition
    cases hposition
  · rw [Function.update_of_ne heq] at hposition
    obtain ⟨-, fd', hfd'⟩ := (h other callbacks hposition).writes id hmem
    rw [hlocated] at hfd'
    exact heq (congrArg Prod.fst (Option.some.inj hfd')).symm

omit [DecidableEq Loop] in
/-- A callback that follows from an event is of the connection that is registered. -/
theorem mem_active {epoller : Epoller} {report : Report} {callback : Callback}
    (hcallback : callback = .handleMessage id ∨ callback = .handleWrite id)
    (hmem : .other callback ∈ report.active epoller) :
    ∃ fd revent event, report = .ready fd revent ∧ epoller.interest fd = some (event, id) := by
  cases report with
  | ready fd revent =>
    cases hentry : epoller.interest fd with
    | none => simp [Report.active, hentry] at hmem
    | some entry =>
      obtain ⟨event, address⟩ := entry
      simp only [Report.active, hentry, callbacks] at hmem
      refine ⟨fd, revent, event, rfl, ?_⟩
      rcases hcallback with rfl | rfl
      · have haddress : id = address := by
          simp at hmem
          exact hmem.2
        rw [haddress, hentry]
      · have haddress : id = address := by
          simp at hmem
          exact hmem.2
        rw [haddress, hentry]
  | _ => rcases hcallback with rfl | rfl <;> simp [Report.active] at hmem

/-- An event leads to one read callback at most for a connection, and only if it is of the descriptor
under which the connection is registered. -/
theorem count_active_le {epoller : Epoller} {fd : ℕ}
    (hfd : ∀ other event, epoller.interest other = some (event, id) → other = fd) (reports : List Report) :
    (reports.flatMap (Report.active epoller)).count (.other (.handleMessage id)) ≤
      (reports.filterMap Report.fd?).count fd := by
  induction reports with
  | nil => exact Nat.le_refl 0
  | cons report rest ih =>
    rw [List.flatMap_cons, List.count_append]
    by_cases hmem : .other (.handleMessage id) ∈ report.active epoller
    · obtain ⟨other, revent, event, rfl, hentry⟩ := mem_active (Or.inl rfl) hmem
      have hone : ((Report.ready other revent).active epoller).count (.other (.handleMessage id)) ≤ 1 := by
        simp only [Report.active, hentry, callbacks]
        cases revent.epollin <;> cases revent.epollout <;> simp
      rw [hfd other event hentry] at hone ⊢
      have hhead : (Report.ready fd revent :: rest).filterMap Report.fd? = fd :: rest.filterMap Report.fd? := rfl
      rw [hhead, List.count_cons_self]
      omega
    · rw [List.count_eq_zero.mpr hmem, Nat.zero_add]
      apply Nat.le_trans ih
      cases report with
      | ready other revent =>
        have hhead : (Report.ready other revent :: rest).filterMap Report.fd? =
          other :: rest.filterMap Report.fd? := rfl
        rw [hhead, List.count_cons]
        exact Nat.le_add_right _ _
      | _ => exact Nat.le_refl _

/-- Callbacks that follow from the events of an `epoll_wait` may be run. -/
theorem runnable_reports {objects : List (Connection Loop)} {epollers : Loop → Epoller}
    (h : Objects objects epollers phase) {reports : List Report} (honce : (reports.filterMap Report.fd?).Nodup) :
    Runnable (TcpServer.located objects) phase loop (reports.flatMap (Report.active (epollers loop))) := by
  have hregistered {id : ℕ} {callback : Callback} (hcallback : callback = .handleMessage id ∨
    callback = .handleWrite id)
      (hmem : .other callback ∈ reports.flatMap (Report.active (epollers loop))) :
      phase id = .established ∧ ∃ fd, TcpServer.located objects id = some (loop, fd) := by
    obtain ⟨report, -, hactive⟩ := List.mem_flatMap.mp hmem
    obtain ⟨fd, revent, event, -, hentry⟩ := mem_active hcallback hactive
    exact (h.registered hentry).imp_right fun hlocated => ⟨fd, hlocated⟩
  refine ⟨fun id => ?_, fun id hmem => hregistered (Or.inl rfl) hmem, fun id hmem => ?_⟩
  · by_cases hmem : .other (.handleMessage id) ∈ reports.flatMap (Report.active (epollers loop))
    · obtain ⟨-, fd, hfd⟩ := hregistered (Or.inl rfl) hmem
      have hunique (other : ℕ) (event : Events) (hentry : (epollers loop).interest other = some (event, id)) :
          other = fd := by
        have hother := (h.registered hentry).2
        rw [hfd] at hother
        exact (congrArg Prod.snd (Option.some.inj hother)).symm
      exact (count_active_le hunique reports).trans (List.nodup_iff_count_le_one.mp honce fd)
    · exact Nat.le_trans (Nat.le_of_eq (List.count_eq_zero.mpr hmem)) (Nat.zero_le 1)
  · obtain ⟨hphase, hlocated⟩ := hregistered (Or.inr rfl) hmem
    exact ⟨by rw [hphase]; decide, hlocated⟩

end TcpServer

end WebServer.Util
