import WebServer.Util.ServerLoops

/-!
# The pointers to the connections

The kernel keeps the address of a channel with each descriptor it watches, and `channelmap_` does so too.
Neither counts as a reference. What keeps a connection alive are the shared pointers in `connections_`, in the
queues and in the batches. `Valid` says that none of these pointers ever dangles, nor do the addresses in the
kernel, which moreover are filed under the descriptor of the connection that is meant; so a function of a
connection is only ever called on one that exists.
-/

namespace WebServer.Util

open WebServer.Foundation
open WebServer.Http (HttpContent)

namespace TcpServer

variable {Loop : Type} [DecidableEq Loop]

/-- The connection exists. -/
def Lives (objects : List (Connection Loop)) (id : ℕ) : Prop := ∃ c, objects[id]? = some c ∧ c.alive = true

/-- The connection exists, in this loop and on this descriptor. -/
def PointsTo (s : TcpServer Loop) (loop : Loop) (fd id : ℕ) : Prop :=
  ∃ c, s.objects[id]? = some c ∧ c.alive = true ∧ c.loop = loop ∧ c.channel.fd = fd

/-- No pointer to a connection dangles, and no descriptor belongs to two connections. -/
structure Valid [Fintype Loop] (s : TcpServer Loop) : Prop where
  watched : ∀ loop fd event address, (s.epollers loop).interest fd = some (event, address) →
    s.PointsTo loop fd address
  known : ∀ loop fd address, (s.epollers loop).channelmap fd = some address → s.PointsTo loop fd address
  entered : ∀ fd id, s.connections.lookup fd = some id → ∃ loop, s.PointsTo loop fd id
  reported : ∀ loop callbacks id, (s.loops loop).position = .handling callbacks →
    .other (.handleMessage id) ∈ callbacks ∨ .other (.handleWrite id) ∈ callbacks → ∃ fd, s.PointsTo loop fd id
  referenced : ∀ id, s.Referenced id → Lives s.objects id
  distinct : ∀ loop loop' fd id id', s.PointsTo loop fd id → s.PointsTo loop' fd id' → id = id'
  performed : ∀ action s', s.step action = some s' → ∀ id c activity, s.performed id action = some (c, activity) →
    c.alive = true

variable {s s' t : TcpServer Loop} {phase : ℕ → Phase} {loop thread : Loop} {id fd address : ℕ} {func : BaseFunc}
  {objects : List (Connection Loop)} {c d : Connection Loop}

section Existence

omit [DecidableEq Loop] in
/-- A connection that is written back exists as before. -/
theorem Lives.set (h : Lives objects id) {other : ℕ} (hother : objects[other]? = some c)
    (hsame : d.alive = c.alive) :
    Lives (objects.set other d) id := by
  obtain ⟨e, hid, halive⟩ := h
  by_cases heq : other = id
  · subst heq
    obtain rfl := Option.some.inj (hid.symm.trans hother)
    exact ⟨d, List.getElem?_set_self (List.getElem?_eq_some_iff.mp hid).1, hsame.trans halive⟩
  · exact ⟨e, (List.getElem?_set_ne heq).trans hid, halive⟩

/-- A step of a loop ends no connection. -/
theorem Lives.loopStep (h : Lives s.objects id) {action : LoopAction BaseFunc Callback Loop}
    (hstep : s.loopStep loop action = some s') : Lives s'.objects id := by
  rwa [objects_loopStep hstep]

/-- A function of a connection ends none. -/
theorem Lives.call (h : Lives s.objects id) {other : ℕ} {events : List (LifecycleEvent Loop)}
    {function : Session → Session} (hcall : s.call other events function = some s') : Lives s'.objects id := by
  obtain ⟨c, hother, rfl⟩ := Option.map_eq_some_iff.mp hcall
  exact h.set hother rfl

/-- A function that was queued ends no connection. -/
theorem Lives.runFunc (h : Lives s.objects id) {calls : List UserCall}
    (hcall : s.runFunc thread calls func = some s') : Lives s'.objects id := by
  cases func with
  | connectionEstablished other => exact h.call (show s.call other _ (·.establish calls) = some s' from hcall)
  | handleCloseInLoop other =>
    obtain ⟨c, hother, hqueue⟩ := Option.bind_eq_some_iff.mp hcall
    have herased : Lives (s.eraseConnection other c).objects id := h.set hother rfl
    exact herased.loopStep hqueue
  | connectionDestructor other => exact h.call (show s.call other _ (·.connectionDestructor) = some s' from hcall)
  | addTimerInLoop => exact Option.some.inj hcall ▸ h

/-- A connection exists until its own end. -/
theorem Lives.step [Fintype Loop] (h : Lives s.objects id) {action : ServerAction Loop}
    (hother : action ≠ .destroy id)
    (hstep : s.step action = some s') : Lives s'.objects id := by
  cases stepped_of_step hstep with
  | internal hfree hstep => exact h.loopStep hstep
  | poll hpossible hstep => exact h.loopStep hstep
  | callbackDone hcallback hstep => exact h.loopStep hstep
  | @newConn fd now content calls t _ hcallback hclosed hcall hdone =>
    have hadded : Lives (s.addConnection fd now content).objects id := by
      obtain ⟨c, hid, halive⟩ := h
      exact ⟨c, (List.getElem?_append_left (List.getElem?_eq_some_iff.mp hid).1).trans hid, halive⟩
    refine Lives.loopStep (s := t) ?_ hdone
    rw [handleNewConn, runConnectionEstablished] at hcall
    split at hcall
    · exact hadded.call hcall
    · exact hadded.loopStep hcall
  | handleMessage hcallback hcall hdone =>
    obtain ⟨u, hcalled, hclose⟩ := Option.bind_eq_some_iff.mp hcall
    split at hclose
    · exact ((h.call hcalled).loopStep hclose).loopStep hdone
    · exact Lives.loopStep (Option.some.inj hclose ▸ h.call hcalled) hdone
  | handleWrite hcallback hcall hdone => exact (h.call hcall).loopStep hdone
  | runNext hnext hstart hcall => exact (h.loopStep hstart).runFunc hcall
  | idleShutdown hcallback hcall =>
    obtain ⟨c, -, hshutdown⟩ := Option.bind_eq_some_iff.mp hcall
    split at hshutdown
    · exact h.call hshutdown
    · cases hshutdown
  | @destroy other _ hended =>
    obtain ⟨c, hid, hclose⟩ := Option.bind_eq_some_iff.mp hended
    split at hclose
    · obtain rfl := Option.some.inj hclose
      obtain ⟨d, hd, halive⟩ := h
      have hne : other ≠ id := fun heq => hother (by rw [heq])
      exact ⟨d, (List.getElem?_set_ne hne).trans hd, halive⟩
    · cases hclose

end Existence

/-- The function that is started next stands in front of the batch. -/
theorem position_of_nextFunc {position : LoopPosition BaseFunc Callback} (h : position.nextFunc = some func) :
    ∃ rest, position = .running (func :: rest) := by
  unfold LoopPosition.nextFunc at h
  split at h
  · next rest => exact ⟨rest, by rw [Option.some.inj h]⟩
  · cases h

namespace Managed

/-- A connection that is not closed exists where it is located. -/
theorem pointsTo (h : s.Managed phase) (hlocated : located s.objects id = some (loop, fd))
    (hopen : phase id ≠ .closed) :
    s.PointsTo loop fd id := by
  obtain ⟨c, hid, hplace⟩ := Option.map_eq_some_iff.mp hlocated
  obtain ⟨hloop, hfd⟩ := Prod.mk.inj hplace
  exact ⟨c, hid, (h.objects.sound id c hid).alive.mpr hopen, hloop, hfd⟩

/-- An address in `channelmap_` is the one of the connection on this descriptor. -/
theorem pointsTo_known (h : s.Managed phase) (hentry : (s.epollers loop).channelmap fd = some address) :
    s.PointsTo loop fd address := by
  have hknown : ∃ (id : ℕ) (c : Connection Loop), s.objects[id]? = some c ∧ c.alive = true ∧ c.loop = loop ∧
      c.channel.fd = fd := by
    by_contra hnone
    have hunknown := h.objects.unknown loop fd fun id c hid hc hloop hfd => hnone ⟨id, c, hid, hc, hloop, hfd⟩
    rw [hunknown.1] at hentry
    cases hentry
  obtain ⟨id, c, hid, halive, rfl, rfl⟩ := hknown
  have hsound := h.objects.sound id c hid
  have hinStep := hsound.inStep halive
  suffices haddress : address = id from haddress ▸ ⟨c, hid, halive, rfl, rfl⟩
  rw [Epoller.InStep] at hinStep
  cases hstate : c.channel.state with
  | kNew =>
    rw [hstate] at hinStep
    rw [hinStep.1] at hentry
    cases hentry
  | kAdded =>
    rw [hstate] at hinStep
    exact (Option.some.inj (hentry.symm.trans hinStep.1)).trans hsound.address
  | kDeleted =>
    rw [hstate] at hinStep
    exact (Option.some.inj (hentry.symm.trans hinStep.1)).trans hsound.address

/-- A function that waits points to a connection that exists. -/
theorem exists_of_pending (h : s.Managed phase) (hmem : func ∈ (s.loops loop).pending)
    (hfunc : func.connection = some id) : Lives s.objects id := by
  obtain ⟨place, fd, hlocated, hwaits⟩ := due_eq_some (h.scheduled.due_of_mem hfunc hmem)
  have hopen : phase id ≠ .closed := by
    rcases hwaits with ⟨hphase, -⟩ | ⟨hphase, -⟩ | ⟨hphase, -⟩
    · simp [hphase]
    · simp [hphase]
    · simp [hphase]
  obtain ⟨c, hid, halive, -⟩ := h.pointsTo hlocated hopen
  exact ⟨c, hid, halive⟩

/-- A callback that waits points to a connection of this loop. -/
theorem pointsTo_reported (h : s.Managed phase) {callbacks : List (ActiveChannel Callback)}
    (hposition : (s.loops loop).position = .handling callbacks)
    (hmem : .other (.handleMessage id) ∈ callbacks ∨ .other (.handleWrite id) ∈ callbacks) :
    ∃ fd, s.PointsTo loop fd id := by
  have hrunnable := h.active loop callbacks hposition
  rcases hmem with hmem | hmem
  · obtain ⟨hphase, fd, hlocated⟩ := hrunnable.reads id hmem
    exact ⟨fd, h.pointsTo hlocated (by simp [hphase])⟩
  · obtain ⟨hrank, fd, hlocated⟩ := hrunnable.writes id hmem
    refine ⟨fd, h.pointsTo hlocated fun hclosed => ?_⟩
    rw [hclosed] at hrank
    exact absurd hrank.2 (by decide)

/-- The callback that runs is one of a connection that exists. -/
theorem exists_of_callback (h : s.Managed phase) {callback : Callback}
    (hcallback : (s.loops loop).position.callback = some callback)
    (hone : callback = .handleMessage id ∨ callback = .handleWrite id) : Lives s.objects id := by
  obtain ⟨rest, hposition⟩ := position_of_callback hcallback
  have hmem : .other (.handleMessage id) ∈ ActiveChannel.other callback :: rest ∨
      .other (.handleWrite id) ∈ ActiveChannel.other callback :: rest := by
    rcases hone with rfl | rfl
    · exact Or.inl List.mem_cons_self
    · exact Or.inr List.mem_cons_self
  obtain ⟨fd, c, hid, halive, -⟩ := h.pointsTo_reported hposition hmem
  exact ⟨c, hid, halive⟩

/-- The function that is started next is one of a connection that exists. -/
theorem exists_of_nextFunc (h : s.Managed phase) (hnext : (s.loops loop).position.nextFunc = some func)
    (hfunc : func.connection = some id) : Lives s.objects id := by
  have hpending : func ∈ (s.loops loop).pending := by
    obtain ⟨rest, hposition⟩ := position_of_nextFunc hnext
    rw [EventLoop.pending, hposition]
    exact List.mem_append_left _ List.mem_cons_self
  exact h.exists_of_pending hpending hfunc

/-- A function is only called on a connection that exists. -/
theorem performed [Fintype Loop] (h : s.Managed phase) {action : ServerAction Loop}
    (hstep : s.step action = some s')
    {activity : Activity} (hperformed : s.performed id action = some (c, activity)) : c.alive = true := by
  obtain ⟨d, hd, hpaired⟩ := Option.bind_eq_some_iff.mp hperformed
  obtain ⟨activity', hactivity, heq⟩ := Option.map_eq_some_iff.mp hpaired
  obtain ⟨rfl, rfl⟩ := Prod.mk.inj heq
  have hexists (hid : Lives s.objects id) (hsame : s.prepared action = s.objects) : d.alive = true := by
    obtain ⟨e, he, halive⟩ := hid
    rw [hsame] at hd
    exact Option.some.inj (he.symm.trans hd) ▸ halive
  cases action with
  | newConn fd now content calls =>
    obtain ⟨⟨rfl, -⟩, -⟩ := Option.ite_none_right_eq_some.mp hactivity
    rw [TcpServer.prepared, addConnection, List.getElem?_concat_length] at hd
    exact Option.some.inj hd ▸ rfl
  | handleMessage loop data calls =>
    obtain ⟨hcallback, -⟩ := Option.ite_none_right_eq_some.mp hactivity
    exact hexists (h.exists_of_callback hcallback (Or.inl rfl)) rfl
  | handleWrite loop result =>
    obtain ⟨hcallback, -⟩ := Option.ite_none_right_eq_some.mp hactivity
    exact hexists (h.exists_of_callback hcallback (Or.inr rfl)) rfl
  | runNext loop calls =>
    rw [activity] at hactivity
    split at hactivity
    · next hnext => exact hexists (h.exists_of_nextFunc hnext rfl) rfl
    · obtain ⟨hnext, -⟩ := Option.ite_none_right_eq_some.mp hactivity
      exact hexists (h.exists_of_nextFunc hnext rfl) rfl
  | idleShutdown loop other =>
    obtain ⟨rfl, -⟩ := Option.ite_none_right_eq_some.mp hactivity
    cases stepped_of_step hstep with
    | idleShutdown hcallback hcall =>
      obtain ⟨e, he, hshutdown⟩ := Option.bind_eq_some_iff.mp hcall
      obtain ⟨halive, -⟩ := Option.ite_none_right_eq_some.mp hshutdown
      exact hexists ⟨e, he, halive⟩ rfl
  | _ => cases hactivity

end Managed

/-- A managed server whose batches hold pointers to existing connections only. -/
def Kept (s : TcpServer Loop) : Prop :=
  (∃ phase, s.Managed phase) ∧
    ∀ loop, ∀ func ∈ (s.loops loop).funclists, ∀ id, func.connection = some id → Lives s.objects id

/-- What is referenced exists. -/
theorem Kept.exists_of_referenced (h : s.Kept) (hreferenced : s.Referenced id) : Lives s.objects id := by
  obtain ⟨⟨phase, hmanaged⟩, hbatches⟩ := h
  rcases hreferenced with ⟨⟨fd, other⟩, hentry, rfl⟩ | ⟨loop, func, hmem, hfunc⟩
  · obtain ⟨⟨loop, hlocated⟩, hmapped⟩ := (hmanaged.mapped fd other).mp (AList.mem_lookup_iff.mpr hentry)
    obtain ⟨c, hid, halive, -⟩ :=
      hmanaged.pointsTo hlocated fun hclosed => by simp [hclosed, Phase.isMapped] at hmapped
    exact ⟨c, hid, halive⟩
  · rcases List.mem_append.mp hmem with hqueue | hbatch
    · exact hmanaged.exists_of_pending (List.mem_append_right _ hqueue) hfunc
    · exact hbatches loop func hbatch id hfunc

/-- Every step keeps the batches so: what they hold was there or waited, and a connection to which a pointer is left
does not end. -/
theorem kept_step [Fintype Loop] (s : TcpServer Loop) (action : ServerAction Loop) (s' : TcpServer Loop)
    (hs : s.Kept)
    (hstep : s.step action = some s') : s'.Kept := by
  refine ⟨managed_step s action s' hs.1 hstep, fun loop func hmem id hfunc => ?_⟩
  have hreferenced : s.Referenced id := by
    refine Or.inr ⟨loop, func, List.mem_append.mpr ?_, hfunc⟩
    rcases funclists_step hstep loop with hkept | htaken
    · exact Or.inr (hkept hmem)
    · exact Or.inl (htaken hmem)
  refine (hs.exists_of_referenced hreferenced).step ?_ hstep
  rintro rfl
  cases stepped_of_step hstep with
  | destroy hended =>
    obtain ⟨c, -, hclose⟩ := Option.bind_eq_some_iff.mp hended
    obtain ⟨hends, -⟩ := Option.ite_none_right_eq_some.mp hclose
    exact hends.2 hreferenced

/-- In every state of every run of a server: what a kernel list, a `channelmap_`, an entry of `connections_`,
a callback that was reported, a queue or a batch points to is a connection that exists, on the very descriptor
and in the very loop under which it is filed; no descriptor belongs to two connections that exist; and no step
calls a function of a connection whose object has ended. -/
theorem pointers_run [Fintype Loop] {threadPool : EventLoopThreadPool Loop} {actions : List (ServerAction Loop)}
    (hrun : run step (new threadPool) actions = some s) : s.Valid := by
  have hstart : (new threadPool).Kept :=
    ⟨⟨_, managed_new threadPool⟩, fun _ _ hmem => absurd hmem List.not_mem_nil⟩
  have hkept := run_invariant kept_step hstart hrun
  obtain ⟨phase, h⟩ := hkept.1
  constructor
  · intro loop fd event address hentry
    obtain ⟨hphase, hlocated⟩ := h.objects.registered hentry
    exact h.pointsTo hlocated (by simp [hphase])
  · exact fun loop fd address hentry => h.pointsTo_known hentry
  · intro fd id hentry
    obtain ⟨⟨loop, hlocated⟩, hmapped⟩ := (h.mapped fd id).mp hentry
    exact ⟨loop, h.pointsTo hlocated fun hclosed => by simp [hclosed, Phase.isMapped] at hmapped⟩
  · exact fun loop callbacks id hposition hmem => h.pointsTo_reported hposition hmem
  · exact fun id hreferenced => hkept.exists_of_referenced hreferenced
  · rintro loop loop' fd id id' ⟨c, hid, halive, -, hfd⟩ ⟨d, hid', halive', -, hfd'⟩
    exact h.objects.distinct id c id' d hid hid' halive halive' (hfd.trans hfd'.symm)
  · exact fun action s' hstep id c activity hperformed => h.performed hstep hperformed

/-- When a descriptor is accepted again, its entry points to the second connection. -/
theorem pointers_run_reused : ∃ s : TcpServer Bool, run step (new ⟨false, [true], 0⟩) reuseActions = some s ∧
    ∃ loop, s.PointsTo loop 7 1 := by
  have hrun : run step (new ⟨false, [true], 0⟩) reuseActions = some _ := rfl
  exact ⟨_, hrun, (pointers_run hrun).entered 7 1 rfl⟩

end TcpServer

end WebServer.Util
