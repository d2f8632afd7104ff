import WebServer.Util.ServerQueues

/-!
# The invariant of a server

`Managed` ties `connections_`, the connections, the queues and the callbacks together by the
phase of each connection. Between the parts of one step the function that waits for a
connection and its phase disagree for a moment, and the callbacks are judged by an earlier
phase; `Coherent` is the invariant with these as parameters. Each part of a step preserves it.
-/

namespace WebServer.Util

open WebServer.Foundation
open WebServer.Http (HttpContent)

/-- `connections_` has an entry for a connection in this phase. -/
def Phase.isMapped : Phase → Bool
  | accepted => true
  | established => true
  | closing => true
  | _ => false

/-- A function of a connection that leads from one phase to another. -/
structure Leads (function : Session → Session) (before after : Phase) : Prop where
  stays : ∀ t, Session.Local t (function t)
  keeps : ∀ t, t.epoller.InStep t.channel → before.Expects t.channel →
    (function t).epoller.InStep (function t).channel ∧ after.Expects (function t).channel

namespace Leads

/-- An established connection is watched for input. -/
theorem reading_iff {t : Session} :
    t.Reading ↔ t.epoller.InStep t.channel ∧ Phase.established.Expects t.channel :=
  ⟨fun h => ⟨h.inStep, h.added, h.epollin⟩, fun h => ⟨h.1, h.2.1, h.2.2⟩⟩

/-- A connection that is closing is known to its epoller and watched for nothing. -/
theorem silent_iff {t : Session} : t.Silent ↔ t.epoller.InStep t.channel ∧ Phase.closing.Expects t.channel :=
  ⟨fun h => ⟨h.inStep, h.deleted, h.event⟩, fun h => ⟨h.1, h.2.1, h.2.2⟩⟩

/-- `ConnectionEstablished` leads to an established connection. -/
theorem establish (calls : List UserCall) : Leads (·.establish calls) .accepted .established where
  stays t := t.local_establish calls
  keeps _ hinStep hexpects := reading_iff.mp (Session.Unregistered.establish ⟨hinStep, hexpects⟩ calls)

/-- `HandleMessage` keeps a connection established unless it reads the end of the stream. -/
theorem handleMessage (calls : List UserCall) {data : Option Bytes} (hdata : data ≠ some []) :
    Leads (·.handleMessage calls data) .established .established where
  stays t := t.local_handleMessage calls data
  keeps _ hinStep hexpects := reading_iff.mp ((reading_iff.mpr ⟨hinStep, hexpects⟩).handleMessage calls hdata)

/-- `HandleMessage` closes a connection at the end of the stream. -/
theorem handleClose (calls : List UserCall) : Leads (·.handleMessage calls (some [])) .established .closing where
  stays t := t.local_handleMessage calls (some [])
  keeps _ hinStep hexpects := silent_iff.mp (reading_iff.mpr ⟨hinStep, hexpects⟩).handleClose

/-- `HandleWrite` keeps a connection established. -/
theorem handleWrite_established (result : SendResult) : Leads (·.handleWrite result) .established .established where
  stays t := (t.handleWrite_setsOutput result).local
  keeps t hinStep hexpects :=
    reading_iff.mp ((reading_iff.mpr ⟨hinStep, hexpects⟩).setsOutput (t.handleWrite_setsOutput result))

/-- `HandleWrite` does nothing to a connection that is closing. -/
theorem handleWrite_closing (result : SendResult) : Leads (·.handleWrite result) .closing .closing where
  stays t := (t.handleWrite_setsOutput result).local
  keeps _ hinStep hexpects := by
    have hsame := (silent_iff.mpr ⟨hinStep, hexpects⟩).handleWrite_eq result
    simp only [hsame]
    exact ⟨hinStep, hexpects⟩

/-- `HandleWrite` changes no phase in which it may be called. -/
theorem handleWrite (result : SendResult) {phase : Phase} (hphase : 2 ≤ phase.rank ∧ phase.rank ≤ 4) :
    Leads (·.handleWrite result) phase phase := by
  cases phase with
  | established => exact handleWrite_established result
  | closing => exact handleWrite_closing result
  | erased => exact ⟨(handleWrite_closing result).stays, (handleWrite_closing result).keeps⟩
  | _ => simp [Phase.rank] at hphase

/-- `ConnectionDestructor` leads to a destructed connection. -/
theorem connectionDestructor : Leads (·.connectionDestructor) .erased .destructed where
  stays t := t.local_connectionDestructor
  keeps _ hinStep hexpects := by
    have hgone := (silent_iff.mpr ⟨hinStep, hexpects⟩).connectionDestructor
    exact ⟨hgone.inStep, hgone.new⟩

/-- `Shutdown` changes no phase. -/
theorem shutdown (phase : Phase) : Leads (·.shutdown) phase phase where
  stays t := t.shutdown_sameView.local
  keeps t hinStep hexpects := by
    rw [t.shutdown_sameView.1, t.shutdown_sameView.2]
    exact ⟨hinStep, hexpects⟩

end Leads

namespace TcpServer

variable {Loop : Type} [DecidableEq Loop]

/-- `connections_` has exactly the entries of the connections in a phase that has one. -/
def Mapped (connections : AList fun _ : ℕ => ℕ) (located : ℕ → Option (Loop × ℕ)) (phase : ℕ → Phase) : Prop :=
  ∀ fd id, connections.lookup fd = some id ↔ (∃ loop, located id = some (loop, fd)) ∧ (phase id).isMapped = true

section Mapped

variable {connections : AList fun _ : ℕ => ℕ} {located : ℕ → Option (Loop × ℕ)} {phase : ℕ → Phase} {id fd : ℕ}
  {loop : Loop} {after : Phase}

omit [DecidableEq Loop] in
/-- A phase may change to one that needs an entry just as well. -/
theorem Mapped.change (h : Mapped connections located phase) (hsame : after.isMapped = (phase id).isMapped) :
    Mapped connections located (Function.update phase id after) := by
  intro fd other
  rw [h fd other]
  by_cases heq : other = id
  · subst heq
    rw [Function.update_self, hsame]
  · rw [Function.update_of_ne heq]

omit [DecidableEq Loop] in
/-- The entry under the descriptor of a connection is its own, and it may be erased. -/
theorem Mapped.erase (h : Mapped connections located phase) (hlocated : located id = some (loop, fd))
    (hbefore : (phase id).isMapped = true) (hafter : after.isMapped = false) :
    connections.lookup fd = some id ∧ Mapped (connections.erase fd) located (Function.update phase id after) := by
  have hfound : connections.lookup fd = some id := (h fd id).mpr ⟨⟨loop, hlocated⟩, hbefore⟩
  refine ⟨hfound, fun fd' other => ?_⟩
  by_cases hid : other = id
  · subst hid
    rw [Function.update_self, hafter]
    refine iff_of_false (fun hentry => ?_) fun hboth => absurd hboth.2 Bool.false_ne_true
    by_cases hfd : fd' = fd
    · rw [hfd, AList.lookup_erase] at hentry
      cases hentry
    · rw [AList.lookup_erase_ne hfd, h fd' other] at hentry
      obtain ⟨loop', hlocated'⟩ := hentry.1
      rw [hlocated] at hlocated'
      exact hfd (congrArg Prod.snd (Option.some.inj hlocated')).symm
  · rw [Function.update_of_ne hid, ← h fd' other]
    by_cases hfd : fd' = fd
    · subst hfd
      rw [AList.lookup_erase, hfound]
      exact iff_of_false (by simp) fun heq => hid (Option.some.inj heq).symm
    · rw [AList.lookup_erase_ne hfd]

omit [DecidableEq Loop] in
/-- A new connection may be entered under a descriptor that has no entry. -/
theorem Mapped.insert (h : Mapped connections located phase) (hnone : connections.lookup fd = none)
    (hnew : located id = none) (hafter : after.isMapped = true) :
    Mapped (connections.insert fd id) (Function.update located id (some (loop, fd)))
      (Function.update phase id after) := by
  intro fd' other
  by_cases hid : other = id
  · subst hid
    rw [Function.update_self, Function.update_self, hafter]
    by_cases hfd : fd' = fd
    · subst hfd
      rw [AList.lookup_insert]
      exact iff_of_true rfl ⟨⟨loop, rfl⟩, rfl⟩
    · rw [AList.lookup_insert_ne hfd, h fd' other, hnew]
      refine iff_of_false (fun hboth => ?_) fun hboth => ?_
      · obtain ⟨loop', hloop⟩ := hboth.1
        cases hloop
      · obtain ⟨loop', hloop⟩ := hboth.1
        exact hfd (congrArg Prod.snd (Option.some.inj hloop)).symm
  · rw [Function.update_of_ne hid, Function.update_of_ne hid, ← h fd' other]
    by_cases hfd : fd' = fd
    · subst hfd
      rw [AList.lookup_insert, hnone]
      exact iff_of_false (fun heq => hid (Option.some.inj heq).symm) (by simp)
    · rw [AList.lookup_insert_ne hfd]

end Mapped

/-- The invariant, with the functions that wait and the phases that judge the callbacks. -/
structure Coherent (s : TcpServer Loop) (expected : ℕ → Option (Loop × BaseFunc)) (phase judged : ℕ → Phase) :
    Prop where
  objects : Objects s.objects s.epollers phase
  mapped : Mapped s.connections (located s.objects) phase
  scheduled : Scheduled BaseFunc.connection (pendings s.loops) expected
  held : ∀ loop, (s.loops loop).Held
  active : Active s.loops (located s.objects) judged

/-- The invariant of a server. -/
def Managed (s : TcpServer Loop) (phase : ℕ → Phase) : Prop :=
  s.Coherent (due s.baseLoop (located s.objects) phase) phase phase

/-- The connections stay where they are. -/
structure Frame (s s' : TcpServer Loop) : Prop where
  baseLoop : s'.baseLoop = s.baseLoop
  located : TcpServer.located s'.objects = TcpServer.located s.objects

omit [DecidableEq Loop] in
/-- One part of a step after the other. -/
theorem Frame.trans {s t u : TcpServer Loop} (h : Frame s t) (h' : Frame t u) : Frame s u :=
  ⟨h'.baseLoop.trans h.baseLoop, h'.located.trans h.located⟩

/-- A step of a loop changes the loop and nothing else. -/
theorem loopStep_eq_some {s s' : TcpServer Loop} {loop : Loop} {action : LoopAction BaseFunc Callback Loop}
    (h : s.loopStep loop action = some s') : ∃ next, (s.loops loop).step action = some next ∧
      s' = { s with loops := Function.update s.loops loop next } := by
  obtain ⟨next, hstep, rfl⟩ := Option.map_eq_some_iff.mp h
  exact ⟨next, hstep, rfl⟩

/-- The steps, with the conditions under which they are taken and the parts of which they consist. -/
inductive Stepped [Fintype Loop] (s : TcpServer Loop) : ServerAction Loop → TcpServer Loop → Prop where
  | internal {loop : Loop} {action : LoopAction BaseFunc Callback Loop} {s' : TcpServer Loop}
      (free : action.isInternal = true) (stepped : s.loopStep loop action = some s') :
      Stepped s (.internal loop action) s'
  | poll {loop : Loop} {reports : List Report} {s' : TcpServer Loop} (possible : s.possible loop reports = true)
      (stepped : s.loopStep loop (.poll (reports.flatMap (Report.active (s.epollers loop)))) = some s') :
      Stepped s (.poll loop reports) s'
  | callbackDone {loop : Loop} {s' : TcpServer Loop}
      (callback : (s.loops loop).position.callback = some .newConn ∨ (s.loops loop).position.callback = some .timer)
      (stepped : s.loopStep loop .handlerDone = some s') : Stepped s (.callbackDone loop) s'
  | newConn {fd : ℕ} {now : ℤ} {content : HttpContent} {calls : List UserCall} {t s' : TcpServer Loop}
      (callback : (s.loops s.baseLoop).position.callback = some .newConn) (closed : s.isOpen fd = false)
      (accepted : s.handleNewConn fd now content calls = some t)
      (done : t.loopStep s.baseLoop .handlerDone = some s') : Stepped s (.newConn fd now content calls) s'
  | handleMessage {loop : Loop} {id : ℕ} {data : Option Bytes} {calls : List UserCall} {t s' : TcpServer Loop}
      (callback : (s.loops loop).position.callback = some (.handleMessage id))
      (called : s.handleMessage loop id data calls = some t) (done : t.loopStep loop .handlerDone = some s') :
      Stepped s (.handleMessage loop data calls) s'
  | handleWrite {loop : Loop} {id : ℕ} {result : SendResult} {t s' : TcpServer Loop}
      (callback : (s.loops loop).position.callback = some (.handleWrite id))
      (called : s.call id [.handleWrite] (·.handleWrite result) = some t)
      (done : t.loopStep loop .handlerDone = some s') : Stepped s (.handleWrite loop result) s'
  | runNext {loop : Loop} {func : BaseFunc} {calls : List UserCall} {t s' : TcpServer Loop}
      (next : (s.loops loop).position.nextFunc = some func) (started : s.loopStep loop .runNext = some t)
      (called : t.runFunc loop calls func = some s') : Stepped s (.runNext loop calls) s'
  | idleShutdown {loop : Loop} {id : ℕ} {s' : TcpServer Loop}
      (callback : (s.loops loop).position.callback = some .timer) (called : s.idleShutdown id = some s') :
      Stepped s (.idleShutdown loop id) s'
  | destroy {id : ℕ} {s' : TcpServer Loop} (ended : s.destroy id = some s') : Stepped s (.destroy id) s'

/-- Every step is one of these. -/
theorem stepped_of_step [Fintype Loop] {s s' : TcpServer Loop} {action : ServerAction Loop}
    (h : s.step action = some s') : Stepped s action s' := by
  cases action with
  | internal loop action =>
    obtain ⟨hfree, hstep⟩ := Option.ite_none_right_eq_some.mp h
    exact .internal hfree hstep
  | poll loop reports =>
    obtain ⟨hpossible, hstep⟩ := Option.ite_none_right_eq_some.mp h
    exact .poll hpossible hstep
  | callbackDone loop =>
    obtain ⟨hcallback, hstep⟩ := Option.ite_none_right_eq_some.mp h
    exact .callbackDone hcallback hstep
  | newConn fd now content calls =>
    obtain ⟨⟨hcallback, hclosed⟩, hcall⟩ := Option.ite_none_right_eq_some.mp h
    obtain ⟨t, haccepted, hdone⟩ := Option.bind_eq_some_iff.mp hcall
    exact .newConn hcallback hclosed haccepted hdone
  | handleMessage loop data calls =>
    rw [step] at h
    split at h
    · next id hcallback =>
      obtain ⟨t, hcall, hdone⟩ := Option.bind_eq_some_iff.mp h
      exact .handleMessage hcallback hcall hdone
    · cases h
  | handleWrite loop result =>
    rw [step] at h
    split at h
    · next id hcallback =>
      obtain ⟨t, hcall, hdone⟩ := Option.bind_eq_some_iff.mp h
      exact .handleWrite hcallback hcall hdone
    · cases h
  | runNext loop calls =>
    rw [step] at h
    split at h
    · next func hnext =>
      obtain ⟨t, hstart, hcall⟩ := Option.bind_eq_some_iff.mp h
      exact .runNext hnext hstart hcall
    · cases h
  | idleShutdown loop id =>
    obtain ⟨hcallback, hcall⟩ := Option.ite_none_right_eq_some.mp h
    exact .idleShutdown hcallback hcall
  | destroy id => exact .destroy h

namespace Coherent

variable {s s' : TcpServer Loop} {expected : ℕ → Option (Loop × BaseFunc)} {phase judged : ℕ → Phase} {loop : Loop}
  {id : ℕ} {c : Connection Loop} {func : BaseFunc} {action : LoopAction BaseFunc Callback Loop}

/-- A step of a loop that starts no function and pushes nothing for a connection. -/
theorem loopStep (h : s.Coherent expected phase judged) (hstart : action ≠ .runNext)
    (hpolled : ∀ active, action = .poll active → Runnable (located s.objects) judged loop active)
    (hpushed : ∀ func ∈ action.pushed, func.connection = none) (hstep : s.loopStep loop action = some s') :
    s'.Coherent expected phase judged ∧ Frame s s' := by
  obtain ⟨next, hnext, rfl⟩ := loopStep_eq_some hstep
  exact ⟨⟨h.objects, h.mapped, scheduled_step h.scheduled hstart hpushed hnext, held_update h.held hnext,
    h.active.step hpolled hnext⟩, rfl, rfl⟩

/-- A step of a loop that concerns no connection. -/
theorem internal (h : s.Coherent expected phase judged) (hinternal : action.isInternal = true)
    (hstep : s.loopStep loop action = some s') : s'.Coherent expected phase judged ∧ Frame s s' := by
  apply h.loopStep _ _ _ hstep
  · rintro rfl
    cases hinternal
  · rintro active rfl
    cases hinternal
  · intro func hmem
    cases action with
    | push producer pushed =>
      obtain rfl := List.mem_singleton.mp hmem
      rw [of_decide_eq_true hinternal]
      rfl
    | ownPush pushed =>
      obtain rfl := List.mem_singleton.mp hmem
      rw [of_decide_eq_true hinternal]
      rfl
    | _ => cases hmem

/-- The end of a callback. -/
theorem handlerDone (h : s.Coherent expected phase judged) (hstep : s.loopStep loop .handlerDone = some s') :
    s'.Coherent expected phase judged ∧ Frame s s' := by
  apply h.loopStep _ _ _ hstep
  · simp
  · simp
  · exact fun func hmem => absurd hmem List.not_mem_nil

/-- The return of `epoll_wait`. -/
theorem poll (h : s.Coherent expected phase phase) {reports : List Report}
    (honce : (reports.filterMap Report.fd?).Nodup)
    (hstep : s.loopStep loop (.poll (reports.flatMap (Report.active (s.epollers loop)))) = some s') :
    s'.Coherent expected phase phase ∧ Frame s s' := by
  apply h.loopStep _ _ _ hstep
  · simp
  · intro active heq
    cases heq
    exact runnable_reports h.objects honce
  · exact fun func hmem => absurd hmem List.not_mem_nil

/-- `QueueOneFunc` for a connection for which no function waits. -/
theorem queueOneFunc (h : s.Coherent expected phase judged) {thread : Loop} (hfunc : func.connection = some id)
    (hnone : expected id = none) (hstep : s.queueOneFunc thread loop func = some s') :
    s'.Coherent (Function.update expected id (some (loop, func))) phase judged ∧ Frame s s' ∧
      ∀ other, (s'.loops other).position = (s.loops other).position := by
  obtain ⟨next, hnext, rfl⟩ := loopStep_eq_some hstep
  have hpushed : (queueAction thread loop func).pushed = [func] := by
    rw [queueAction]
    split
    · rfl
    · rfl
  have hpolled (active : List (ActiveChannel Callback)) (heq : queueAction thread loop func = .poll active) :
      Runnable (located s.objects) judged loop active := by
    rw [heq] at hpushed
    cases hpushed
  refine ⟨⟨h.objects, h.mapped, scheduled_push h.scheduled hfunc hnone hpushed hnext, held_update h.held hnext,
    h.active.step hpolled hnext⟩, ⟨rfl, rfl⟩, fun other => ?_⟩
  change (Function.update s.loops loop next other).position = _
  by_cases heq : other = loop
  · subst heq
    rw [Function.update_self]
    exact EventLoop.position_of_pushed hpushed hnext
  · rw [Function.update_of_ne heq]

/-- A function that concerns a connection is started: it was due. -/
theorem runNext (h : s.Coherent expected phase judged) (hnext : (s.loops loop).position.nextFunc = some func)
    (hfunc : func.connection = some id) (hstep : s.loopStep loop .runNext = some s') :
    expected id = some (loop, func) ∧ s'.Coherent (Function.update expected id none) phase judged ∧ Frame s s' := by
  obtain ⟨next, hrun, rfl⟩ := loopStep_eq_some hstep
  obtain ⟨hdue, hscheduled⟩ := scheduled_runNext h.scheduled hnext hfunc hrun
  exact ⟨hdue, ⟨h.objects, h.mapped, hscheduled, held_update h.held hrun, h.active.step (by simp) hrun⟩, rfl, rfl⟩

/-- A function that concerns no connection is started. -/
theorem runOther (h : s.Coherent expected phase judged) (hnext : (s.loops loop).position.nextFunc = some func)
    (hfunc : func.connection = none) (hstep : s.loopStep loop .runNext = some s') :
    s'.Coherent expected phase judged ∧ Frame s s' := by
  obtain ⟨next, hrun, rfl⟩ := loopStep_eq_some hstep
  exact ⟨⟨h.objects, h.mapped, scheduled_runOther h.scheduled hnext hfunc hrun, held_update h.held hrun,
    h.active.step (by simp) hrun⟩, rfl, rfl⟩

/-- A function of a connection is called that keeps its entry in `connections_`. -/
theorem call (h : s.Coherent expected phase judged) {events : List (LifecycleEvent Loop)}
    {function : Session → Session} {after : Phase} (hcall : s.call id events function = some s')
    (hleads : Leads function (phase id) after) (hopen : phase id ≠ .closed) (hafter : after ≠ .closed)
    (hmapped : after.isMapped = (phase id).isMapped)
    (hevents : ∀ loop fd, located s.objects id = some (loop, fd) →
      run (Phase.next id loop) (phase id) events = some after) :
    s'.Coherent expected (Function.update phase id after) judged ∧ Frame s s' ∧ s'.loops = s.loops := by
  obtain ⟨c, hid, rfl⟩ := Option.map_eq_some_iff.mp hcall
  have hsound := h.objects.sound id c hid
  have halive := hsound.alive.mpr hopen
  have hstays := hleads.stays (c.session (s.epollers c.loop))
  have hkeeps := hleads.keeps (c.session (s.epollers c.loop)) (hsound.inStep halive) hsound.expects
  have hlocated : located (s.store id c (function (c.session (s.epollers c.loop))) events).objects =
      located s.objects := by
    apply located_set hid
    · rfl
    · exact hstays.fd
  refine ⟨⟨?_, ?_, h.scheduled, h.held, ?_⟩, ⟨rfl, hlocated⟩, rfl⟩
  · exact h.objects.store hid halive hstays hkeeps.1 hkeeps.2 (hevents _ _ (located_of_getElem? hid)) hafter
  · rw [hlocated]
    exact h.mapped.change hmapped
  · rw [hlocated]
    exact h.active

/-- A function is called in the loop of the connection, where it leads to the next phase. -/
theorem callAt (h : s.Coherent expected phase judged) {event : LifecycleEvent Loop} {function : Session → Session}
    {after : Phase} {fd : ℕ} (hlocated : located s.objects id = some (loop, fd))
    (hcall : s.call id [event] function = some s') (hleads : Leads function (phase id) after)
    (hopen : phase id ≠ .closed) (hafter : after ≠ .closed) (hmapped : after.isMapped = (phase id).isMapped)
    (hnext : (phase id).next id loop event = some after) :
    s'.Coherent expected (Function.update phase id after) judged ∧ Frame s s' ∧ s'.loops = s.loops := by
  apply h.call hcall hleads hopen hafter hmapped
  intro loop' fd' hlocated'
  obtain ⟨rfl, rfl⟩ := Prod.mk.inj (Option.some.inj (hlocated.symm.trans hlocated'))
  exact run_cons_eq_some.mpr ⟨after, hnext, rfl⟩

/-- The entry of a connection that is closing is erased from `connections_`: it is found there. -/
theorem erase (h : s.Coherent expected phase judged) (hid : s.objects[id]? = some c)
    (hphase : phase id = .closing) :
    (s.eraseConnection id c).Coherent expected (Function.update phase id .erased) judged ∧
      Frame s (s.eraseConnection id c) := by
  have hsound := h.objects.sound id c hid
  have halive : c.alive = true := hsound.alive.mpr (by simp [hphase])
  have hexpects : Phase.erased.Expects c.channel := by
    have hclosing := hsound.expects
    rw [hphase] at hclosing
    exact hclosing
  have herased : s.connections.lookup c.channel.fd = some id ∧ Mapped (s.connections.erase c.channel.fd)
      (located s.objects) (Function.update phase id .erased) :=
    h.mapped.erase (located_of_getElem? hid) (by rw [hphase]; rfl) rfl
  obtain ⟨hfound, hmapped⟩ := herased
  have hlocated : located (s.eraseConnection id c).objects = located s.objects := located_set hid rfl rfl
  refine ⟨⟨?_, ?_, h.scheduled, h.held, ?_⟩, rfl, hlocated⟩
  · apply h.objects.record hid halive hexpects _ (by simp)
    rw [hphase, hfound, run_cons]
    simp [Phase.next]
  · rw [hlocated]
    exact hmapped
  · rw [hlocated]
    exact h.active

/-- A descriptor that no connection in a phase with an entry has is no key of `connections_`. -/
theorem lookup_eq_none (h : s.Coherent expected phase judged) {fd : ℕ}
    (hfree : ∀ (id : ℕ) (c : Connection Loop), s.objects[id]? = some c → c.alive = true →
      (phase id).isMapped = true → c.channel.fd ≠ fd) : s.connections.lookup fd = none := by
  cases hentry : s.connections.lookup fd with
  | none => rfl
  | some id =>
    obtain ⟨⟨loop, hlocated⟩, hmapped⟩ := (h.mapped fd id).mp hentry
    obtain ⟨c, hid, hplace⟩ := Option.map_eq_some_iff.mp hlocated
    have hopen : phase id ≠ .closed := fun heq => by simp [heq, Phase.isMapped] at hmapped
    exact absurd (congrArg Prod.snd hplace) (hfree id c hid ((h.objects.sound id c hid).alive.mpr hopen) hmapped)

/-- A connection is constructed on a descriptor that is not open, and entered into `connections_`. -/
theorem add (h : s.Coherent expected phase judged) {fd : ℕ} (hfd : s.isOpen fd = false) (now : ℤ)
    (content : HttpContent) :
    (s.addConnection fd now content).Coherent expected (Function.update phase s.objects.length .accepted) judged ∧
      (s.addConnection fd now content).baseLoop = s.baseLoop ∧
      located (s.addConnection fd now content).objects =
        Function.update (located s.objects) s.objects.length (some (s.threadPool.nextLoop, fd)) := by
  have hfresh (id : ℕ) (c : Connection Loop) (hid : s.objects[id]? = some c) (halive : c.alive = true) :
      c.channel.fd ≠ fd := by
    have hany := List.any_eq_false.mp hfd c (List.mem_of_getElem? hid)
    simpa [halive] using hany
  have hnone : s.connections.lookup fd = none := h.lookup_eq_none fun id c hid halive _ => hfresh id c hid halive
  have hnew : located s.objects s.objects.length = none := by simp [located]
  have hlocated : located (s.addConnection fd now content).objects =
      Function.update (located s.objects) s.objects.length (some (s.threadPool.nextLoop, fd)) := located_concat _ _
  have hbase : (s.addConnection fd now content).baseLoop = s.baseLoop := by
    change s.threadPool.advance.baseLoop = s.threadPool.baseLoop
    rw [EventLoopThreadPool.advance]
    split
    · rfl
    · rfl
  refine ⟨⟨?_, ?_, h.scheduled, h.held, ?_⟩, hbase, hlocated⟩
  · apply h.objects.add rfl
    · exact hfresh
    · rfl
    · rfl
    · rw [hnone]
      rfl
  · rw [hlocated]
    exact h.mapped.insert hnone hnew rfl
  · rw [hlocated]
    exact h.active.locate hnew _

/-- A connection that is destructed is closed: its descriptor is known neither to `connections_` nor
to the epoller of its loop. -/
theorem close (h : s.Coherent expected phase judged) (hid : s.objects[id]? = some c)
    (hphase : phase id = .destructed) :
    (s.closeConnection id c).Coherent expected (Function.update phase id .closed) judged ∧
      Frame s (s.closeConnection id c) := by
  have hsound := h.objects.sound id c hid
  have halive : c.alive = true := hsound.alive.mpr (by simp [hphase])
  have hnew : c.channel.state = .kNew := by
    have hexpects := hsound.expects
    rw [hphase] at hexpects
    exact hexpects
  have hentry : s.connections.lookup c.channel.fd = none := by
    apply h.lookup_eq_none
    intro other d hother hd hmapped hfd
    obtain rfl := h.objects.distinct other d id c hother hid hd halive hfd
    rw [hphase] at hmapped
    cases hmapped
  have hregistered : (s.epollers c.loop).channelmap c.channel.fd = none := by
    have hinStep := hsound.inStep halive
    rw [Epoller.InStep, hnew] at hinStep
    exact hinStep.1
  have hlocated : located (s.closeConnection id c).objects = located s.objects := located_set hid rfl rfl
  refine ⟨⟨?_, ?_, h.scheduled, h.held, ?_⟩, rfl, hlocated⟩
  · apply h.objects.close hid halive hnew
    rw [hphase, hentry, hregistered]
    rfl
  · rw [hlocated]
    exact h.mapped.change (by rw [hphase]; rfl)
  · rw [hlocated]
    exact h.active

/-- The callbacks may be judged by a later phase of a connection. -/
theorem judge (h : s.Coherent expected phase judged) {after : Phase}
    (hreads : after = .established ∨ ∀ loop callbacks, (s.loops loop).position = .handling callbacks →
      .other (.handleMessage id) ∉ callbacks)
    (hwrites : (2 ≤ after.rank ∧ after.rank ≤ 4) ∨ ∀ loop callbacks, (s.loops loop).position = .handling callbacks →
      .other (.handleWrite id) ∉ callbacks) :
    s.Coherent expected phase (Function.update judged id after) :=
  { h with active := h.active.change hreads hwrites }

/-- The parts of a step are over, and no connection changed its phase. -/
theorem managed_same {s₀ : TcpServer Loop} (hframe : Frame s₀ s)
    (h : s.Coherent (due s₀.baseLoop (located s₀.objects) phase) phase phase) : s.Managed phase := by
  rw [Managed, hframe.baseLoop, hframe.located]
  exact h

/-- The parts of a step are over: what waits for a connection that was located and the phase that
judges its callbacks are those of its phase. -/
theorem managed_located {s₀ : TcpServer Loop} {after : Phase} {fd : ℕ} (hbase : s.baseLoop = s₀.baseLoop)
    (hlocated : located s.objects = Function.update (located s₀.objects) id (some (loop, fd)))
    (h : s.Coherent (Function.update (due s₀.baseLoop (located s₀.objects) phase) id
      (after.task s₀.baseLoop loop id))
      (Function.update phase id after) (Function.update phase id after)) :
    s.Managed (Function.update phase id after) := by
  rw [Managed, hbase, hlocated, due_update]
  exact h

/-- The parts of a step are over, and the connection stays where it is. -/
theorem managed {s₀ : TcpServer Loop} {after : Phase} {fd : ℕ} (hframe : Frame s₀ s)
    (hlocated : located s₀.objects id = some (loop, fd))
    (h : s.Coherent (Function.update (due s₀.baseLoop (located s₀.objects) phase) id
      (after.task s₀.baseLoop loop id))
      (Function.update phase id after) (Function.update phase id after)) :
    s.Managed (Function.update phase id after) := by
  have hsame : located s.objects = Function.update (located s₀.objects) id (some (loop, fd)) := by
    rw [hframe.located, ← hlocated, Function.update_eq_self]
  exact managed_located hframe.baseLoop hsame h

end Coherent

end TcpServer

end WebServer.Util
