import WebServer.Util.ServerInvariant

/-!
# Connections over whole runs of a server

Every step of the server preserves its invariant, one lemma for each kind of step. It follows
that in every run, with any number of loops and in any order of their steps, the history of
each connection is lawful, and that a channel which is new to its epoller finds no entry of
`channelmap_` under its descriptor.
-/

namespace WebServer.Util

open WebServer.Foundation
open WebServer.Http (HttpContent)

namespace TcpServer

variable {Loop : Type} [DecidableEq Loop] {s s' t : TcpServer Loop} {phase : ℕ → Phase} {loop : Loop} {id : ℕ}

/-- A server without connections is managed. -/
theorem managed_new (threadPool : EventLoopThreadPool Loop) : (new threadPool).Managed fun _ => .free where
  objects := objects_nil
  mapped fd id := by
    have hempty : (new threadPool).connections.lookup fd = none := AList.lookup_empty fd
    rw [hempty]
    exact iff_of_false (by simp) fun hboth => by simp [Phase.isMapped] at hboth
  scheduled place task owner _ := by
    rw [if_neg]
    · rfl
    · simp [due, located, new]
  held _ := EventLoop.held_of_remaining rfl
  active loop callbacks hposition := by cases hposition

/-- The callback that runs stands in front of the others. -/
theorem position_of_callback {position : LoopPosition BaseFunc Callback} {callback : Callback}
    (h : position.callback = some callback) : ∃ rest, position = .handling (.other callback :: rest) := by
  unfold LoopPosition.callback at h
  split at h
  · next rest =>
    obtain rfl := Option.some.inj h
    exact ⟨rest, rfl⟩
  · cases h

/-- While its read callback runs, a connection is established in this loop. -/
theorem Managed.reading (h : s.Managed phase) (hcallback : (s.loops loop).position.callback =
    some (.handleMessage id)) :
    phase id = .established ∧ ∃ fd, located s.objects id = some (loop, fd) := by
  obtain ⟨rest, hposition⟩ := position_of_callback hcallback
  exact (h.active loop _ hposition).reads id List.mem_cons_self

/-- While its write callback runs, a connection is between its establishment and its destruction. -/
theorem Managed.writing (h : s.Managed phase) (hcallback : (s.loops loop).position.callback =
    some (.handleWrite id)) :
    2 ≤ (phase id).rank ∧ (phase id).rank ≤ 4 := by
  obtain ⟨rest, hposition⟩ := position_of_callback hcallback
  exact ((h.active loop _ hposition).writes id List.mem_cons_self).1

/-- A read callback that does not read the end of the stream changes no phase. -/
theorem Managed.message (h : s.Managed phase) (hcallback : (s.loops loop).position.callback =
    some (.handleMessage id))
    {data : Option Bytes} (hdata : data ≠ some []) {calls : List UserCall}
    (hcall : s.handleMessage loop id data calls = some t) (hdone : t.loopStep loop .handlerDone = some s') :
    s'.Managed phase := by
  obtain ⟨hphase, fd, hlocated⟩ := h.reading hcallback
  obtain ⟨u, hcalled, hrest⟩ := Option.bind_eq_some_iff.mp hcall
  rw [if_neg hdata] at hrest
  obtain rfl := Option.some.inj hrest
  have hleads : Leads (·.handleMessage calls data) (phase id) .established :=
    hphase ▸ Leads.handleMessage calls hdata
  obtain ⟨hu, hframe, -⟩ := Coherent.call h hcalled hleads (by simp [hphase]) (by decide) (by rw [hphase]) (by
    intro loop fd _
    rw [hphase, decide_eq_false hdata]
    rfl)
  rw [Function.update_eq_self_iff.mpr hphase.symm] at hu
  obtain ⟨hs', hframe'⟩ := hu.handlerDone hdone
  exact hs'.managed_same (hframe.trans hframe')

/-- A read callback that reads the end of the stream closes the connection. -/
theorem Managed.close (h : s.Managed phase) (hcallback : (s.loops loop).position.callback =
    some (.handleMessage id))
    {calls : List UserCall} (hcall : s.handleMessage loop id (some []) calls = some t)
    (hdone : t.loopStep loop .handlerDone = some s') : s'.Managed (Function.update phase id .closing) := by
  obtain ⟨hphase, fd, hlocated⟩ := h.reading hcallback
  obtain ⟨u, hcalled, hclose⟩ := Option.bind_eq_some_iff.mp hcall
  rw [if_pos rfl] at hclose
  have hleads : Leads (·.handleMessage calls (some [])) (phase id) .closing := hphase ▸ Leads.handleClose calls
  obtain ⟨hu, hframe, hloops⟩ := Coherent.call h hcalled hleads (by simp [hphase]) (by decide)
    (by rw [hphase]; rfl) (by
    intro loop fd _
    rw [hphase, decide_eq_true rfl]
    rfl)
  have hnone : due s.baseLoop (located s.objects) phase id = none := by
    rw [due, hlocated, Option.bind_some, hphase]
    rfl
  obtain ⟨ht, hframe', hpositions⟩ := hu.queueOneFunc rfl hnone hclose
  obtain ⟨hs', hframe''⟩ := ht.handlerDone hdone
  have hcallback' : (t.loops loop).position.callback = some (.handleMessage id) := by
    rw [hpositions, hloops]
    exact hcallback
  obtain ⟨next, hnext, rfl⟩ := loopStep_eq_some hdone
  rw [hframe.baseLoop] at hs'
  apply Coherent.managed ((hframe.trans hframe').trans hframe'') hlocated
  exact hs'.judge (Or.inr (ht.active.readDone hcallback' hnext)) (Or.inl (by decide))

/-- A write callback changes no phase. -/
theorem Managed.write (h : s.Managed phase) (hcallback : (s.loops loop).position.callback = some (.handleWrite id))
    {result : SendResult} (hcall : s.call id [.handleWrite] (·.handleWrite result) = some t)
    (hdone : t.loopStep loop .handlerDone = some s') : s'.Managed phase := by
  have hphase := h.writing hcallback
  have hopen : phase id ≠ .closed := fun heq => by simp [heq, Phase.rank] at hphase
  obtain ⟨ht, hframe, -⟩ := Coherent.call h hcall (Leads.handleWrite result hphase) hopen hopen rfl (by
    intro loop fd _
    cases hcase : phase id with
    | established => rfl
    | closing => rfl
    | erased => rfl
    | _ => simp [hcase, Phase.rank] at hphase)
  rw [Function.update_eq_self] at ht
  obtain ⟨hs', hframe'⟩ := ht.handlerDone hdone
  exact hs'.managed_same (hframe.trans hframe')

/-- The idle timer changes no phase. -/
theorem Managed.idleShutdown (h : s.Managed phase) (hcall : s.idleShutdown id = some s') : s'.Managed phase := by
  obtain ⟨c, hid, hshutdown⟩ := Option.bind_eq_some_iff.mp hcall
  split at hshutdown
  · next halive =>
    have hopen := (h.objects.sound id c hid).alive.mp halive
    obtain ⟨hs', hframe, -⟩ := Coherent.call h hshutdown (Leads.shutdown _) hopen hopen rfl fun _ _ _ => rfl
    rw [Function.update_eq_self] at hs'
    exact hs'.managed_same hframe
  · cases hshutdown

/-- A `ConnectionEstablished` that was queued establishes the connection in its loop. -/
theorem Managed.establish (h : s.Managed phase)
    (hnext : (s.loops loop).position.nextFunc = some (.connectionEstablished id))
    (hstart : s.loopStep loop .runNext = some t) {calls : List UserCall}
    (hcall : t.call id [.connectionEstablished loop] (·.establish calls) = some s') :
    s'.Managed (Function.update phase id .established) := by
  obtain ⟨hdue, ht, hframe⟩ := Coherent.runNext h hnext rfl hstart
  obtain ⟨place, fd, hlocated, hwaits⟩ := due_eq_some hdue
  simp only [reduceCtorEq, and_false, or_false, and_true] at hwaits
  obtain ⟨hphase, rfl⟩ := hwaits
  have hleads : Leads (·.establish calls) (phase id) .established := hphase ▸ Leads.establish calls
  obtain ⟨hs', hframe', hloops⟩ := ht.callAt (hframe.located ▸ hlocated) hcall hleads (by simp [hphase]) (by decide)
    (by rw [hphase]; rfl) (by rw [hphase]; exact if_pos rfl)
  apply Coherent.managed (hframe.trans hframe') hlocated
  exact hs'.judge (Or.inl rfl) (Or.inl (by decide))

/-- `HandleCloseInLoop` erases the entry of the connection and queues its `ConnectionDestructor`. -/
theorem Managed.erase (h : s.Managed phase)
    (hnext : (s.loops loop).position.nextFunc = some (.handleCloseInLoop id))
    (hstart : s.loopStep loop .runNext = some t) (hcall : t.handleCloseInLoop loop id = some s') :
    s'.Managed (Function.update phase id .erased) := by
  obtain ⟨hdue, ht, hframe⟩ := Coherent.runNext h hnext rfl hstart
  obtain ⟨place, fd, hlocated, hwaits⟩ := due_eq_some hdue
  simp only [reduceCtorEq, and_false, or_false, false_or, and_true] at hwaits
  obtain ⟨hphase, rfl⟩ := hwaits
  obtain ⟨c, hid, hqueue⟩ := Option.bind_eq_some_iff.mp hcall
  have hplace : located s.objects id = some (c.loop, c.channel.fd) := by
    rw [← hframe.located]
    exact located_of_getElem? hid
  obtain ⟨hu, hframe'⟩ := ht.erase hid hphase
  obtain ⟨hs', hframe'', -⟩ := hu.queueOneFunc rfl (Function.update_self _ _ _) hqueue
  rw [Function.update_idem] at hs'
  apply Coherent.managed ((hframe.trans hframe').trans hframe'') hplace
  refine hs'.judge (Or.inr ?_) (Or.inl (by decide))
  exact hs'.active.not_reads (by simp [hphase])

/-- `ConnectionDestructor` destructs the connection in its loop. -/
theorem Managed.destruct (h : s.Managed phase)
    (hnext : (s.loops loop).position.nextFunc = some (.connectionDestructor id))
    (hstart : s.loopStep loop .runNext = some t)
    (hcall : t.call id [.connectionDestructor loop] (·.connectionDestructor) = some s') :
    s'.Managed (Function.update phase id .destructed) := by
  obtain ⟨hdue, ht, hframe⟩ := Coherent.runNext h hnext rfl hstart
  obtain ⟨place, fd, hlocated, hwaits⟩ := due_eq_some hdue
  simp only [reduceCtorEq, and_false, false_or, and_true] at hwaits
  obtain ⟨hphase, rfl⟩ := hwaits
  have hleads : Leads (·.connectionDestructor) (phase id) .destructed := hphase ▸ Leads.connectionDestructor
  obtain ⟨hs', hframe', hloops⟩ := ht.callAt (hframe.located ▸ hlocated) hcall hleads (by simp [hphase]) (by decide)
    (by rw [hphase]; rfl) (by rw [hphase]; exact if_pos rfl)
  have hwrites : ∀ other callbacks, (s'.loops other).position = .handling callbacks →
      .other (.handleWrite id) ∉ callbacks := by
    rw [hloops]
    obtain ⟨next, hrun, rfl⟩ := loopStep_eq_some hstart
    exact h.active.not_writes_runNext hlocated hrun
  apply Coherent.managed (hframe.trans hframe') hlocated
  exact hs'.judge (Or.inr (hs'.active.not_reads (by simp [hphase]))) (Or.inr hwrites)

/-- Starting a function that waits in a loop. -/
theorem managed_runNext (h : s.Managed phase) {func : BaseFunc}
    (hnext : (s.loops loop).position.nextFunc = some func)
    (hstart : s.loopStep loop .runNext = some t) {calls : List UserCall}
    (hcall : t.runFunc loop calls func = some s') :
    ∃ phase', s'.Managed phase' := by
  cases func with
  | connectionEstablished id => exact ⟨_, h.establish hnext hstart hcall⟩
  | handleCloseInLoop id => exact ⟨_, h.erase hnext hstart hcall⟩
  | connectionDestructor id => exact ⟨_, h.destruct hnext hstart hcall⟩
  | addTimerInLoop =>
    obtain rfl := Option.some.inj hcall
    obtain ⟨ht, hframe⟩ := Coherent.runOther h hnext rfl hstart
    exact ⟨phase, ht.managed_same hframe⟩

/-- A connection accepted for the base loop is established at once. -/
theorem Managed.acceptHere (h : s.Managed phase) {fd : ℕ} (hfd : s.isOpen fd = false) {now : ℤ}
    {content : HttpContent}
    {calls : List UserCall} (hloop : s.threadPool.nextLoop = s.baseLoop)
    (hcall : (s.addConnection fd now content).call s.objects.length [.connectionEstablished s.baseLoop]
      (·.establish calls) = some t)
    (hdone : t.loopStep s.baseLoop .handlerDone = some s') :
    s'.Managed (Function.update phase s.objects.length .established) := by
  have hnone : due s.baseLoop (located s.objects) phase s.objects.length = none := by simp [due, located]
  obtain ⟨hu, hbase, hlocated⟩ := Coherent.add h hfd now content
  have hplaced : located (s.addConnection fd now content).objects s.objects.length =
      some (s.threadPool.nextLoop, fd) := by rw [hlocated, Function.update_self]
  obtain ⟨ht, hframe, -⟩ := hu.callAt hplaced hcall (by rw [Function.update_self]; exact Leads.establish calls)
    (by rw [Function.update_self]; decide) (by decide) (by rw [Function.update_self]; rfl)
    (by rw [Function.update_self]; exact if_pos hloop.symm)
  rw [Function.update_idem] at ht
  obtain ⟨hs', hframe'⟩ := ht.handlerDone hdone
  have hlocated' := (hframe.trans hframe').located.trans hlocated
  apply Coherent.managed_located ((hframe.trans hframe').baseLoop.trans hbase) hlocated'
  have hdue : Function.update (due s.baseLoop (located s.objects) phase) s.objects.length none = _ :=
    Function.update_eq_self_iff.mpr hnone.symm
  rw [← hdue] at hs'
  exact hs'.judge (Or.inl rfl) (Or.inl (by decide))

/-- A connection accepted for another loop waits for its `ConnectionEstablished` there. -/
theorem Managed.acceptElsewhere (h : s.Managed phase) {fd : ℕ} (hfd : s.isOpen fd = false) {now : ℤ}
    {content : HttpContent}
    (hqueue : (s.addConnection fd now content).queueOneFunc s.baseLoop s.threadPool.nextLoop
      (.connectionEstablished s.objects.length) = some t)
    (hdone : t.loopStep s.baseLoop .handlerDone = some s') :
    s'.Managed (Function.update phase s.objects.length .accepted) := by
  have hnone : due s.baseLoop (located s.objects) phase s.objects.length = none := by simp [due, located]
  obtain ⟨hu, hbase, hlocated⟩ := Coherent.add h hfd now content
  obtain ⟨ht, hframe, -⟩ := hu.queueOneFunc rfl hnone hqueue
  obtain ⟨hs', hframe'⟩ := ht.handlerDone hdone
  have hlocated' := (hframe.trans hframe').located.trans hlocated
  have hfree : phase s.objects.length = .free := h.objects.free _ (Nat.le_refl _)
  apply Coherent.managed_located ((hframe.trans hframe').baseLoop.trans hbase) hlocated'
  exact hs'.judge (Or.inr (hs'.active.not_reads (by simp [hfree])))
    (Or.inr (hs'.active.not_writes (by simp [hfree, Phase.rank])))

/-- `HandleNewConn` on a descriptor that is not open. -/
theorem managed_newConn (h : s.Managed phase) {fd : ℕ} (hfd : s.isOpen fd = false) {now : ℤ} {content : HttpContent}
    {calls : List UserCall} (hcall : s.handleNewConn fd now content calls = some t)
    (hdone : t.loopStep s.baseLoop .handlerDone = some s') : ∃ phase', s'.Managed phase' := by
  have hbase := (Coherent.add h hfd now content).2.1
  rw [handleNewConn, runConnectionEstablished, hbase] at hcall
  split at hcall
  · next hloop => exact ⟨_, h.acceptHere hfd hloop hcall hdone⟩
  · exact ⟨_, h.acceptElsewhere hfd hcall hdone⟩

/-- A function that waits for a connection refers to it. -/
theorem Managed.referenced_of_due (h : s.Managed phase) {func : BaseFunc}
    (hdue : due s.baseLoop (located s.objects) phase id = some (loop, func)) (hfunc : func.connection = some id) :
    s.Referenced id := by
  have hmem : func ∈ (s.loops loop).position.remaining ++ (s.loops loop).toDoList :=
    h.scheduled.mem_of_due hfunc hdue
  refine Or.inr ⟨loop, func, ?_, hfunc⟩
  rcases List.mem_append.mp hmem with hremaining | hqueue
  · exact List.mem_append_right _ (h.held loop hremaining)
  · exact List.mem_append_left _ hqueue

/-- An entry of `connections_` refers to its connection. -/
theorem Managed.referenced_of_mapped (h : s.Managed phase) {c : Connection Loop} (hid : s.objects[id]? = some c)
    (hmapped : (phase id).isMapped = true) : s.Referenced id := by
  have hentry := (h.mapped c.channel.fd id).mpr ⟨⟨c.loop, located_of_getElem? hid⟩, hmapped⟩
  exact Or.inl ⟨⟨c.channel.fd, id⟩, AList.mem_lookup_iff.mp hentry, rfl⟩

/-- The last pointer to a connection is not gone before it is destructed. -/
theorem Managed.destructed_of_unreferenced (h : s.Managed phase) {c : Connection Loop}
    (hid : s.objects[id]? = some c) (halive : c.alive = true) (hgone : ¬ s.Referenced id) :
    phase id = .destructed := by
  have hsound := h.objects.sound id c hid
  cases hphase : phase id with
  | free =>
    have hexpects := hsound.expects
    rw [hphase] at hexpects
    exact hexpects.elim
  | accepted => exact absurd (h.referenced_of_mapped hid (by rw [hphase]; rfl)) hgone
  | established => exact absurd (h.referenced_of_mapped hid (by rw [hphase]; rfl)) hgone
  | closing => exact absurd (h.referenced_of_mapped hid (by rw [hphase]; rfl)) hgone
  | erased =>
    have hdue : due s.baseLoop (located s.objects) phase id = some (c.loop, .connectionDestructor id) := by
      rw [due, located_of_getElem? hid, Option.bind_some, hphase]
      rfl
    exact absurd (h.referenced_of_due hdue rfl) hgone
  | destructed => rfl
  | closed => exact absurd hphase (hsound.alive.mp halive)

/-- A connection ends when the last pointer to it is gone. -/
theorem Managed.destroy [Fintype Loop] (h : s.Managed phase) (hdestroy : s.destroy id = some s') :
    s'.Managed (Function.update phase id .closed) := by
  obtain ⟨c, hid, hclose⟩ := Option.bind_eq_some_iff.mp hdestroy
  split at hclose
  · next hends =>
    obtain rfl := Option.some.inj hclose
    have hphase := h.destructed_of_unreferenced hid hends.1 hends.2
    have hnone : due s.baseLoop (located s.objects) phase id = none := by
      rw [due, located_of_getElem? hid, Option.bind_some, hphase]
      rfl
    obtain ⟨hs', hframe⟩ := Coherent.close h hid hphase
    apply Coherent.managed hframe (located_of_getElem? hid)
    have hdue : Function.update (due s.baseLoop (located s.objects) phase) id none = _ :=
      Function.update_eq_self_iff.mpr hnone.symm
    rw [← hdue] at hs'
    exact hs'.judge (Or.inr (hs'.active.not_reads (by simp [hphase])))
      (Or.inr (hs'.active.not_writes (by simp [hphase, Phase.rank])))
  · cases hclose

/-- Every step keeps a server managed. -/
theorem managed_step [Fintype Loop] (s : TcpServer Loop) (action : ServerAction Loop) (s' : TcpServer Loop)
    (hs : ∃ phase, s.Managed phase) (hstep : s.step action = some s') : ∃ phase, s'.Managed phase := by
  obtain ⟨phase, h⟩ := hs
  cases stepped_of_step hstep with
  | internal hfree hstep =>
    obtain ⟨hs', hframe⟩ := Coherent.internal h hfree hstep
    exact ⟨phase, hs'.managed_same hframe⟩
  | poll hpossible hstep =>
    have honce := (decide_eq_true_eq.mp hpossible).1
    obtain ⟨hs', hframe⟩ := Coherent.poll h honce hstep
    exact ⟨phase, hs'.managed_same hframe⟩
  | callbackDone _ hstep =>
    obtain ⟨hs', hframe⟩ := Coherent.handlerDone h hstep
    exact ⟨phase, hs'.managed_same hframe⟩
  | newConn _ hclosed hcall hdone => exact managed_newConn h hclosed hcall hdone
  | @handleMessage _ _ data _ _ _ hcallback hcall hdone =>
    by_cases hdata : data = some []
    · subst hdata
      exact ⟨_, h.close hcallback hcall hdone⟩
    · exact ⟨phase, h.message hcallback hdata hcall hdone⟩
  | handleWrite hcallback hcall hdone => exact ⟨phase, h.write hcallback hcall hdone⟩
  | runNext hnext hstart hcall => exact managed_runNext h hnext hstart hcall
  | idleShutdown _ hcall => exact ⟨phase, h.idleShutdown hcall⟩
  | destroy hended => exact ⟨_, h.destroy hended⟩

/-- In every run of a server, with any pool of loops, the history of each connection is lawful: no
`HandleNewConn` overwrites an entry; `HandleCloseInLoop` runs at most once and finds this very
connection; `ConnectionDestructor` runs at most once, in the loop of the connection, after
`ConnectionEstablished` and after the last event handler; and the descriptor is closed last, when
neither `connections_` nor the `channelmap_` of the loop has an entry for it. And a channel that is
new finds no entry for its descriptor in that `channelmap_`. -/
theorem lifecycle_run [Fintype Loop] {threadPool : EventLoopThreadPool Loop} {actions : List (ServerAction Loop)}
    (hrun : run step (new threadPool) actions = some s) (id : ℕ) {c : Connection Loop}
    (hid : s.objects[id]? = some c) :
    Lawful id c.loop c.history ∧
      (c.alive = true → c.channel.state = .kNew → (s.epollers c.loop).channelmap c.channel.fd = none) := by
  obtain ⟨phase, h⟩ := run_invariant managed_step ⟨_, managed_new threadPool⟩ hrun
  have hsound := h.objects.sound id c hid
  refine ⟨Lawful.of_run hsound.history, fun halive hnew => ?_⟩
  have hinStep := hsound.inStep halive
  rw [Epoller.InStep, hnew] at hinStep
  exact hinStep.1

/-- A worker's connection on descriptor 7 is established, closed by its peer and destructed, and its
descriptor is accepted again. -/
def reuseActions : List (ServerAction Bool) :=
  [.poll false [.acceptor], .newConn 7 0 (.new .kGet .kUnknown) [], .internal true (.write false),
    .poll true [.wakeup], .internal true .handleRead, .internal true .beginFunctors, .internal true .swap,
    .runNext true [], .internal true .functorDone, .internal true .endFunctors,
    .poll true [.ready 7 ⟨true, false⟩], .handleMessage true (some []) [],
    .internal false .beginFunctors, .internal false .swap, .runNext false [], .internal true (.write false),
    .internal false .functorDone, .internal false .endFunctors,
    .internal true .beginFunctors, .internal true .swap, .runNext true [], .internal true .functorDone,
    .internal true .endFunctors, .destroy 0, .poll false [.acceptor], .newConn 7 0 (.new .kGet .kUnknown) []]

/-- The history of the first connection on a descriptor that is used again is lawful. -/
theorem lifecycle_reusedDescriptor : ∃ s c, run step (new ⟨false, [true], 0⟩) reuseActions = some s ∧
    s.objects[0]? = some c ∧ s.objects.length = 2 ∧ c.alive = false ∧ Lawful 0 true c.history := by
  have hrun : run step (new ⟨false, [true], 0⟩) reuseActions = some _ := rfl
  have hlawful := (lifecycle_run hrun 0 rfl).1
  exact ⟨_, _, hrun, rfl, rfl, rfl, hlawful⟩

end TcpServer

end WebServer.Util
