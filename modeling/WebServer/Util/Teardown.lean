import WebServer.Util.ServerBalance
import WebServer.Util.ServerLoops

/-!
# A closed connection goes away

When the end of the stream of a connection is read, its loop hands `HandleCloseInLoop` to the base loop, which
erases the entry and hands `ConnectionDestructor` back to the loop of the connection. Each function waits for two
returns of `epoll_wait` at most. One more return empties the batches which held the last pointers, and then the
object may end: no connection stays behind, in whatever order the loops go on.
-/

namespace WebServer.Util

open WebServer.Foundation

namespace Phase

variable {Loop : Type} [DecidableEq Loop]

/-- A phase was reached when the event that enters it happened. -/
theorem rank_le_of_mem {id : ℕ} {loop : Loop} {history : List (LifecycleEvent Loop)} {reached : Phase}
    (phase : Phase)
    {event : LifecycleEvent Loop} (hrun : run (next id loop) .free history = some reached)
    (hentering : entering id loop phase = some event) (hmem : event ∈ history) : phase.rank ≤ reached.rank := by
  obtain ⟨u, u', hstep, -, hhigh⟩ := (advances_next id loop).mem_run hrun hmem
  suffices heq : u' = phase from heq ▸ hhigh
  cases phase with
  | free => cases hentering
  | _ =>
    cases hentering
    cases passes_of_next hstep
    rfl

/-- The number of a phase identifies it. -/
theorem rank_injective : Function.Injective rank := by
  intro phase phase' h
  cases phase <;> cases phase' <;> first | rfl | cases h

/-- A connection is established and destructed in its own loop only. -/
theorem loop_of_mem {id : ℕ} {loop thread : Loop} {history : List (LifecycleEvent Loop)} {reached : Phase}
    (hrun : run (next id loop) .free history = some reached)
    (hmem : .connectionEstablished thread ∈ history ∨ .connectionDestructor thread ∈ history) : thread = loop := by
  rcases hmem with hmem | hmem
  · obtain ⟨u, u', hstep, -⟩ := (advances_next id loop).mem_run hrun hmem
    cases passes_of_next hstep
    rfl
  · obtain ⟨u, u', hstep, -⟩ := (advances_next id loop).mem_run hrun hmem
    cases passes_of_next hstep
    rfl

end Phase

namespace EventLoop

variable {Task Chan Producer : Type} [DecidableEq Chan] [DecidableEq Producer] {s s' : EventLoop Task Chan Producer}

/-- Outside `DoToDoList` there is no batch, and the functions of a batch were started or are still to be. -/
structure Batched (s : EventLoop Task Chan Producer) : Prop where
  rested : s.position.inDoToDoList = false → s.funclists = []
  batch : s.funclists ⊆ s.ran ++ s.position.remaining

omit [DecidableEq Chan] [DecidableEq Producer] in
/-- A loop starts without a batch. -/
theorem batched_new : (new : EventLoop Task Chan Producer).Batched := ⟨fun _ => rfl, List.nil_subset _⟩

/-- Every step keeps the batch where it belongs. -/
theorem batched_step (s : EventLoop Task Chan Producer) (action : LoopAction Task Chan Producer)
    (s' : EventLoop Task Chan Producer) (hs : s.Batched) (h : s.step action = some s') : s'.Batched := by
  have hbatch := hs.batch
  cases stepped_of_step h with
  | push producer task hidle => exact ⟨hs.rested, hbatch⟩
  | write producer howes => exact ⟨hs.rested, hbatch⟩
  | ownPush task hmay => exact ⟨hs.rested, hbatch⟩
  | ownWrite howes => exact ⟨hs.rested, hbatch⟩
  | poll active hposition hreported =>
    rw [hposition] at hbatch
    exact ⟨fun _ => hs.rested (by rw [hposition]; rfl), hbatch⟩
  | handleRead active hposition =>
    rw [hposition] at hbatch
    exact ⟨fun _ => hs.rested (by rw [hposition]; rfl), hbatch⟩
  | handlerDone channel active hposition hsettled =>
    rw [hposition] at hbatch
    exact ⟨fun _ => hs.rested (by rw [hposition]; rfl), hbatch⟩
  | beginFunctors hposition =>
    rw [hposition] at hbatch
    exact ⟨fun hrests => Bool.noConfusion hrests, hbatch⟩
  | swap hposition => exact ⟨fun hrests => Bool.noConfusion hrests, List.subset_append_right _ _⟩
  | runNext task rest hposition =>
    rw [hposition] at hbatch
    refine ⟨fun hrests => Bool.noConfusion hrests, List.Subset.trans hbatch ?_⟩
    simp [LoopPosition.remaining]
  | functorDone rest hposition hsettled =>
    rw [hposition] at hbatch
    exact ⟨fun hrests => Bool.noConfusion hrests, hbatch⟩
  | endFunctors hposition => exact ⟨fun _ => rfl, List.nil_subset _⟩

end EventLoop

/-- What a function leaves in the history of its connection when it is called in a loop. -/
def BaseFunc.event {Loop : Type} (loop : Loop) : BaseFunc → Option (ℕ × LifecycleEvent Loop)
  | connectionEstablished id => some (id, .connectionEstablished loop)
  | handleCloseInLoop id => some (id, .handleCloseInLoop (some id))
  | connectionDestructor id => some (id, .connectionDestructor loop)
  | addTimerInLoop => none

namespace TcpServer

variable {Loop : Type} [DecidableEq Loop] {s s' t : TcpServer Loop} {phase : ℕ → Phase} {loop : Loop} {id : ℕ}
  {c : Connection Loop} {func : BaseFunc} {event : LifecycleEvent Loop}

/-- Every function that was started is in the history of its connection, and only the base loop closes
connections. -/
structure Noted (s : TcpServer Loop) : Prop where
  noted : ∀ loop, ∀ func ∈ (s.loops loop).ran, ∀ id event, func.event loop = some (id, event) →
    ∃ c, s.objects[id]? = some c ∧ event ∈ c.history
  closes : ∀ loop id, .handleCloseInLoop id ∈ (s.loops loop).ran → loop = s.baseLoop

/-- A step moves no connection, and what happened to a connection stays in its history. -/
theorem grown_step [Fintype Loop] {action : ServerAction Loop} (hstep : s.step action = some s')
    (hid : s.objects[id]? = some c) :
    ∃ d, s'.objects[id]? = some d ∧ d.loop = c.loop ∧ c.history <+: d.history := by
  have hprepared : (s.prepared action)[id]? = some c := by
    cases action with
    | newConn fd now content calls =>
      exact (List.getElem?_append_left (List.getElem?_eq_some_iff.mp hid).1).trans hid
    | _ => exact hid
  obtain ⟨d, hd, hacted⟩ := (step_activity hstep).acted id c hprepared
  obtain ⟨events, hhistory, -⟩ := hacted.history
  exact ⟨d, hd, hacted.loop, hhistory ▸ List.prefix_append _ _⟩

/-- Nor does a run. -/
theorem grown_run [Fintype Loop] {actions : List (ServerAction Loop)} (hrun : run step s actions = some t)
    (hid : s.objects[id]? = some c) :
    ∃ d, t.objects[id]? = some d ∧ d.loop = c.loop ∧ c.history <+: d.history := by
  induction actions generalizing s c with
  | nil =>
    obtain rfl := Option.some.inj hrun
    exact ⟨c, hid, rfl, List.prefix_refl _⟩
  | cons action rest ih =>
    obtain ⟨s', hfirst, hrest⟩ := run_cons_eq_some.mp hrun
    obtain ⟨d, hd, hloop, hgrown⟩ := grown_step hfirst hid
    obtain ⟨e, he, hloop', hgrown'⟩ := ih hrest hd
    exact ⟨e, he, hloop'.trans hloop, hgrown.trans hgrown'⟩

/-- The base loop stays the same. -/
theorem baseLoop_step [Fintype Loop] {action : ServerAction Loop} (hstep : s.step action = some s') :
    s'.baseLoop = s.baseLoop := by
  rw [baseLoop, baseLoop]
  rcases keepsLoops_or_accepts hstep with hkeeps | haccepts
  · rw [hkeeps.threadPool]
  · rw [haccepts.threadPool, EventLoopThreadPool.baseLoop_advance]

/-- The base loop is the one with which the server was constructed. -/
theorem baseLoop_run [Fintype Loop] {actions : List (ServerAction Loop)} (hrun : run step s actions = some t) :
    t.baseLoop = s.baseLoop :=
  run_invariant (I := fun u => u.baseLoop = s.baseLoop) (fun _ _ _ hu hstep =>
    (baseLoop_step hstep).trans hu) rfl hrun

/-- A connection that reached a phase has the event in its history that enters it. -/
theorem Managed.mem_history (h : s.Managed phase) (hid : s.objects[id]? = some c) (reached : Phase)
    (hentering : Phase.entering id c.loop reached = some event) (hrank : reached.rank ≤ (phase id).rank) :
    event ∈ c.history :=
  Phase.entering_mem reached (h.objects.sound id c hid).history hentering hrank

/-- A connection has reached the phases whose events are in its history. -/
theorem Managed.rank_le (h : s.Managed phase) (hid : s.objects[id]? = some c) (reached : Phase)
    (hentering : Phase.entering id c.loop reached = some event) (hmem : event ∈ c.history) :
    reached.rank ≤ (phase id).rank :=
  Phase.rank_le_of_mem reached (h.objects.sound id c hid).history hentering hmem

/-- A function that concerns a connection is called in the loop where it is due, and leads to the phase that
its event enters. -/
theorem Managed.started (h : s.Managed phase) (hnext : (s.loops loop).position.nextFunc = some func)
    (hstart : s.loopStep loop .runNext = some t) {calls : List UserCall}
    (hcall : t.runFunc loop calls func = some s')
    (hevent : func.event loop = some (id, event)) :
    ∃ c reached phase', s.objects[id]? = some c ∧ s'.Managed phase' ∧
      Phase.entering id c.loop reached = some event ∧ phase' id = reached := by
  cases func with
  | connectionEstablished other =>
    cases hevent
    obtain ⟨place, fd, hlocated, hwaits⟩ := due_eq_some (Coherent.runNext h hnext rfl hstart).1
    simp only [reduceCtorEq, and_false, or_false, and_true] at hwaits
    obtain ⟨-, rfl⟩ := hwaits
    obtain ⟨c, hid, hplace⟩ := Option.map_eq_some_iff.mp hlocated
    obtain ⟨rfl, -⟩ := Prod.mk.inj hplace
    exact ⟨c, .established, _, hid, h.establish hnext hstart hcall, rfl, Function.update_self _ _ _⟩
  | handleCloseInLoop other =>
    cases hevent
    obtain ⟨place, fd, hlocated, -⟩ := due_eq_some (Coherent.runNext h hnext rfl hstart).1
    obtain ⟨c, hid, -⟩ := Option.map_eq_some_iff.mp hlocated
    exact ⟨c, .erased, _, hid, h.erase hnext hstart hcall, rfl, Function.update_self _ _ _⟩
  | connectionDestructor other =>
    cases hevent
    obtain ⟨place, fd, hlocated, hwaits⟩ := due_eq_some (Coherent.runNext h hnext rfl hstart).1
    simp only [reduceCtorEq, and_false, false_or, and_true] at hwaits
    obtain ⟨-, rfl⟩ := hwaits
    obtain ⟨c, hid, hplace⟩ := Option.map_eq_some_iff.mp hlocated
    obtain ⟨rfl, -⟩ := Prod.mk.inj hplace
    exact ⟨c, .destructed, _, hid, h.destruct hnext hstart hcall, rfl, Function.update_self _ _ _⟩
  | addTimerInLoop => cases hevent

/-- `HandleCloseInLoop` is called in the base loop. -/
theorem Managed.closesInBase (h : s.Managed phase)
    (hnext : (s.loops loop).position.nextFunc = some (.handleCloseInLoop id))
    (hstart : s.loopStep loop .runNext = some t) : loop = s.baseLoop := by
  obtain ⟨place, fd, -, hwaits⟩ := due_eq_some (Coherent.runNext h hnext rfl hstart).1
  simp only [reduceCtorEq, and_false, or_false, false_or, and_true] at hwaits
  exact hwaits.2

/-- Every step notes the function that it starts. -/
theorem noted_step [Fintype Loop] (s : TcpServer Loop) (action : ServerAction Loop) (s' : TcpServer Loop)
    (hs : (∃ phase, s.Managed phase) ∧ s.Noted) (hstep : s.step action = some s') :
    (∃ phase, s'.Managed phase) ∧ s'.Noted := by
  obtain ⟨⟨phase, h⟩, hnoted⟩ := hs
  refine ⟨managed_step s action s' ⟨phase, h⟩ hstep, ?_⟩
  have hold {loop : Loop} {func : BaseFunc} {id : ℕ} {event : LifecycleEvent Loop}
      (hmem : func ∈ (s.loops loop).ran) (hevent : func.event loop = some (id, event)) :
      ∃ c, s'.objects[id]? = some c ∧ event ∈ c.history := by
    obtain ⟨c, hid, hhistory⟩ := hnoted.noted loop func hmem id event hevent
    obtain ⟨d, hd, -, hgrown⟩ := grown_step hstep hid
    exact ⟨d, hd, hgrown.subset hhistory⟩
  constructor
  · intro loop func hmem id event hevent
    by_cases hstarts : ∃ calls, action = .runNext loop calls
    · obtain ⟨calls, rfl⟩ := hstarts
      cases stepped_of_step hstep with
      | runNext hnext hstart hcall =>
        rw [ran_runNext hnext hstart hcall, List.mem_append, List.mem_singleton] at hmem
        rcases hmem with hbefore | rfl
        · exact hold hbefore hevent
        · obtain ⟨c, reached, phase', hid, hs', hentering, hphase⟩ := h.started hnext hstart hcall hevent
          obtain ⟨d, hd, hloop, -⟩ := grown_step hstep hid
          exact ⟨d, hd, hs'.mem_history hd reached (hloop ▸ hentering) (hphase ▸ Nat.le_refl _)⟩
    · rw [ran_step hstep fun calls heq => hstarts ⟨calls, heq⟩] at hmem
      exact hold hmem hevent
  · intro loop id hmem
    rw [baseLoop_step hstep]
    by_cases hstarts : ∃ calls, action = .runNext loop calls
    · obtain ⟨calls, rfl⟩ := hstarts
      cases stepped_of_step hstep with
      | runNext hnext hstart hcall =>
        rw [ran_runNext hnext hstart hcall, List.mem_append, List.mem_singleton] at hmem
        rcases hmem with hbefore | rfl
        · exact hnoted.closes loop id hbefore
        · exact h.closesInBase hnext hstart
    · rw [ran_step hstep fun calls heq => hstarts ⟨calls, heq⟩] at hmem
      exact hnoted.closes loop id hmem

omit [DecidableEq Loop] in
/-- A server that was just constructed has nothing to note. -/
theorem noted_new (threadPool : EventLoopThreadPool Loop) : (new threadPool).Noted where
  noted _ _ hmem := absurd hmem List.not_mem_nil
  closes _ _ hmem := absurd hmem List.not_mem_nil

/-- In the states of a run every started function is noted. -/
theorem noted_run [Fintype Loop] {threadPool : EventLoopThreadPool Loop} {actions : List (ServerAction Loop)}
    (hrun : run step (new threadPool) actions = some s) : (∃ phase, s.Managed phase) ∧ s.Noted :=
  run_invariant noted_step ⟨⟨_, managed_new threadPool⟩, noted_new threadPool⟩ hrun

/-- The function that is due for a connection in one phase leads to the next one before `epoll_wait` of its loop has
returned twice. -/
theorem entered_run [Fintype Loop] (hs : (∃ phase, s.Managed phase) ∧ s.Noted) (hid : s.objects[id]? = some c)
    {actions : List (ServerAction Loop)} (hrun : run step s actions = some t)
    (hpolls : 2 ≤ actions.countP (·.polls loop)) (func : BaseFunc) (before after : Phase)
    (hrank : after.rank = before.rank + 1)
    (htask : before.task s.baseLoop c.loop id = some (loop, func)) (hfunc : func.connection = some id)
    (hevent : func.event loop = some (id, event)) (hentering : Phase.entering id c.loop after = some event)
    (hreached : ∃ earlier, Phase.entering id c.loop before = some earlier ∧ earlier ∈ c.history) :
    ∃ d, t.objects[id]? = some d ∧ d.loop = c.loop ∧ event ∈ d.history := by
  obtain ⟨-, hnoted⟩ := run_invariant noted_step hs hrun
  obtain ⟨⟨phase, h⟩, -⟩ := hs
  obtain ⟨earlier, hearlier, hmem⟩ := hreached
  obtain ⟨d, hd, hloop, hgrown⟩ := grown_run hrun hid
  refine ⟨d, hd, hloop, ?_⟩
  have hbefore := h.rank_le hid before hearlier hmem
  by_cases hlater : after.rank ≤ (phase id).rank
  · exact hgrown.subset (h.mem_history hid after hentering hlater)
  · have hphase : phase id = before := Phase.rank_injective (by omega)
    have hdue : due s.baseLoop (located s.objects) phase id = some (loop, func) := by
      rw [due, located_of_getElem? hid, Option.bind_some, hphase]
      exact htask
    have hpending : func ∈ (s.loops loop).pending := h.scheduled.mem_of_due hfunc hdue
    have hqueued : func ∈ (s.loops loop).queued := by
      rw [EventLoop.queued, List.append_assoc]
      exact List.mem_append_right _ hpending
    obtain ⟨e, he, hhistory⟩ := hnoted.noted loop func ((served_run hrun hpolls).subset hqueued) id event hevent
    obtain rfl := Option.some.inj (hd.symm.trans he)
    exact hhistory

/-- The loops of a server have batches as event loops do. -/
theorem batched_step [Fintype Loop] {action : ServerAction Loop} (hstep : s.step action = some s')
    (hs : ∀ loop, (s.loops loop).Batched) (loop : Loop) : (s'.loops loop).Batched :=
  run_invariant EventLoop.batched_step (hs loop) (moves_step hstep loop)

/-- When `epoll_wait` returns, there is no batch. -/
theorem funclists_poll [Fintype Loop] {action : ServerAction Loop} (hstep : s.step action = some s')
    (hs : ∀ loop, (s.loops loop).Batched) (hpolls : action.polls loop = true) : (s'.loops loop).funclists = [] := by
  refine (batched_step hstep hs loop).rested ?_
  cases stepped_of_step hstep with
  | poll hpossible hstep =>
    obtain rfl := of_decide_eq_true hpolls
    obtain ⟨next, hnext, rfl⟩ := loopStep_eq_some hstep
    change (Function.update s.loops _ next _).position.inDoToDoList = false
    rw [Function.update_self]
    cases EventLoop.stepped_of_step hnext with
    | poll active hposition hreported => rfl
  | _ => cases hpolls

/-- The connection was destructed. -/
def Destructed (id : ℕ) (s : TcpServer Loop) : Prop :=
  ∃ c, s.objects[id]? = some c ∧ .connectionDestructor c.loop ∈ c.history

/-- Nothing waits for a connection that was destructed. -/
theorem Managed.pending_of_destructed (h : s.Managed phase) (hgone : Destructed id s)
    (hmem : func ∈ (s.loops loop).pending) : func.connection ≠ some id := by
  intro hfunc
  obtain ⟨c, hid, hhistory⟩ := hgone
  have hrank := h.rank_le hid .destructed rfl hhistory
  obtain ⟨place, fd, -, hwaits⟩ := due_eq_some (h.scheduled.due_of_mem hfunc hmem)
  rcases hwaits with ⟨hphase, -⟩ | ⟨hphase, -⟩ | ⟨hphase, -⟩
  · rw [hphase] at hrank
    exact absurd hrank (by decide)
  · rw [hphase] at hrank
    exact absurd hrank (by decide)
  · rw [hphase] at hrank
    exact absurd hrank (by decide)

/-- A destructed connection, and, once `epoll_wait` of the loop has returned, no pointer to it in the batch
there. -/
structure Released (loop : Loop) (id returns : ℕ) (s : TcpServer Loop) : Prop where
  managed : ∃ phase, s.Managed phase
  batched : ∀ loop, (s.loops loop).Batched
  destructed : Destructed id s
  released : 0 < returns → ∀ func ∈ (s.loops loop).funclists, func.connection ≠ some id

/-- No step puts a pointer to a destructed connection into a batch. -/
theorem released_step [Fintype Loop] (returns : ℕ) (s : TcpServer Loop) (action : ServerAction Loop)
    (s' : TcpServer Loop)
    (hs : Released loop id returns s) (hstep : s.step action = some s') :
    Released loop id (if action.polls loop then returns + 1 else returns) s' := by
  obtain ⟨⟨phase, h⟩, hbatched, ⟨c, hid, hhistory⟩, hreleased⟩ := hs
  obtain ⟨d, hd, hloop, hgrown⟩ := grown_step hstep hid
  refine ⟨managed_step s action s' ⟨phase, h⟩ hstep, batched_step hstep hbatched,
    ⟨d, hd, hloop ▸ hgrown.subset hhistory⟩, fun hreturns func hmem => ?_⟩
  cases hpolls : action.polls loop with
  | true =>
    rw [funclists_poll hstep hbatched hpolls] at hmem
    cases hmem
  | false =>
    rw [hpolls, if_neg Bool.false_ne_true] at hreturns
    rcases funclists_step hstep loop with hkept | htaken
    · exact hreleased hreturns func (hkept hmem)
    · exact h.pending_of_destructed ⟨c, hid, hhistory⟩ (List.mem_append_right _ (htaken hmem))

/-- The pointers to a connection that was destructed are in batches of the base loop and of its own loop only. -/
theorem not_referenced [Fintype Loop] (h : s.Managed phase) (hnoted : s.Noted)
    (hid : s.objects[id]? = some c) (hbase : Released s.baseLoop id 1 s) (hown : Released c.loop id 1 s) :
    ¬ s.Referenced id := by
  have hdestructed := hbase.destructed
  rintro (⟨⟨fd, other⟩, hentry, rfl⟩ | ⟨loop, func, hmem, hfunc⟩)
  · have hmapped := ((h.mapped fd other).mp (AList.mem_lookup_iff.mpr hentry)).2
    obtain ⟨d, hd, hhistory⟩ := hdestructed
    have hrank := h.rank_le hd .destructed rfl hhistory
    cases hphase : phase other <;> simp_all [Phase.isMapped, Phase.rank]
  · rcases List.mem_append.mp hmem with hqueue | hbatch
    · exact h.pending_of_destructed hdestructed (List.mem_append_right _ hqueue) hfunc
    · rcases List.mem_append.mp ((hbase.batched loop).batch hbatch) with hran | hrest
      · have hloop : loop = s.baseLoop ∨ loop = c.loop := by
          cases func with
          | connectionEstablished other =>
            cases hfunc
            obtain ⟨d, hd, hhistory⟩ := hnoted.noted loop _ hran id _ rfl
            obtain rfl := Option.some.inj (hid.symm.trans hd)
            exact Or.inr (Phase.loop_of_mem (h.objects.sound id c hid).history (Or.inl hhistory))
          | handleCloseInLoop other => exact Or.inl (hnoted.closes loop other hran)
          | connectionDestructor other =>
            cases hfunc
            obtain ⟨d, hd, hhistory⟩ := hnoted.noted loop _ hran id _ rfl
            obtain rfl := Option.some.inj (hid.symm.trans hd)
            exact Or.inr (Phase.loop_of_mem (h.objects.sound id c hid).history (Or.inr hhistory))
          | addTimerInLoop => cases hfunc
        rcases hloop with rfl | rfl
        · exact hbase.released Nat.one_pos func hbatch hfunc
        · exact hown.released Nat.one_pos func hbatch hfunc
      · exact h.pending_of_destructed hdestructed (List.mem_append_left _ hrest) hfunc

/-- In every run of a server, and from every state of it: a connection is established in its loop when
`epoll_wait` of this loop has returned twice. -/
theorem established_run [Fintype Loop] {threadPool : EventLoopThreadPool Loop}
    {actions more : List (ServerAction Loop)}
    (hrun : run step (new threadPool) actions = some s) (hid : s.objects[id]? = some c)
    (hmore : run step s more = some t) (hpolls : 2 ≤ more.countP (·.polls c.loop)) :
    ∃ d, t.objects[id]? = some d ∧ .connectionEstablished c.loop ∈ d.history := by
  have hs := noted_run hrun
  obtain ⟨⟨phase, h⟩, -⟩ := noted_run hrun
  have haccepted : .handleNewConn none ∈ c.history := by
    apply h.mem_history hid .accepted rfl
    have hexpects := (h.objects.sound id c hid).expects
    cases hphase : phase id with
    | free =>
      rw [hphase] at hexpects
      exact hexpects.elim
    | _ => decide
  obtain ⟨d, hd, -, hmem⟩ := entered_run hs hid hmore hpolls
    (.connectionEstablished id) .accepted .established rfl rfl
    rfl rfl rfl ⟨_, rfl, haccepted⟩
  exact ⟨d, hd, hmem⟩

/-- In every run of a server, and for every connection of which the end of the stream was read: when
`epoll_wait` of the base loop has returned twice, `HandleCloseInLoop` has erased its entry; when `epoll_wait`
of its own loop has then returned twice, `ConnectionDestructor` was called there; and when both have returned
once more, no entry of `connections_`, no queue and no batch holds a pointer to it, so that its object ends
and its descriptor is closed. -/
theorem teardown_run [Fintype Loop] {threadPool : EventLoopThreadPool Loop}
    {actions first second third : List (ServerAction Loop)} {u v : TcpServer Loop}
    (hrun : run step (new threadPool) actions = some s) (hid : s.objects[id]? = some c)
    (hend : .handleMessage true ∈ c.history) (hfirst : run step s first = some t)
    (hbase : 2 ≤ first.countP (·.polls threadPool.baseLoop)) (hsecond : run step t second = some u)
    (hown : 2 ≤ second.countP (·.polls c.loop)) (hthird : run step u third = some v)
    (hbase' : 1 ≤ third.countP (·.polls threadPool.baseLoop)) (hown' : 1 ≤ third.countP (·.polls c.loop)) :
    (∃ d, t.objects[id]? = some d ∧ .handleCloseInLoop (some id) ∈ d.history) ∧
      (∃ d, u.objects[id]? = some d ∧ .connectionDestructor c.loop ∈ d.history) ∧
      ∃ d, v.objects[id]? = some d ∧ ¬ v.Referenced id ∧ (d.alive = true → ∃ w, v.step (.destroy id) = some w) := by
  have hpool : s.baseLoop = threadPool.baseLoop := baseLoop_run hrun
  have hs := noted_run hrun
  have ht := run_invariant noted_step hs hfirst
  have hu := run_invariant noted_step ht hsecond
  obtain ⟨⟨phase, hv⟩, hnoted⟩ := run_invariant noted_step hu hthird
  rw [← hpool] at hbase hbase'
  obtain ⟨d, hd, hloop, herased⟩ := entered_run hs hid hfirst hbase
    (.handleCloseInLoop id) .closing .erased rfl rfl rfl
    rfl rfl ⟨_, rfl, hend⟩
  rw [← hloop] at hown hown' ⊢
  obtain ⟨e, he, hloop', hgone⟩ := entered_run ht hd hsecond hown
    (.connectionDestructor id) .erased .destructed rfl rfl
    rfl rfl rfl ⟨_, rfl, herased⟩
  refine ⟨⟨d, hd, herased⟩, ⟨e, he, hgone⟩, ?_⟩
  obtain ⟨f, hf, hloop'', -⟩ := grown_run hthird he
  have hbatched (loop : Loop) : (u.loops loop).Batched := by
    have hreached : run step (new threadPool) (actions ++ first ++ second) = some u :=
      run_append_eq_some.mpr ⟨t, run_append_eq_some.mpr ⟨s, hrun, hfirst⟩, hsecond⟩
    exact run_invariant EventLoop.batched_step EventLoop.batched_new (moves_run hreached loop)
  have hreleased (loop : Loop) (hpolls : 1 ≤ third.countP (·.polls loop)) : Released loop id 1 v := by
    have hstart : Released loop id 0 u :=
      ⟨hu.1, hbatched, ⟨e, he, hloop' ▸ hgone⟩, fun hreturns => absurd hreturns (Nat.lt_irrefl 0)⟩
    have hlater := run_levels released_step hstart hthird
    exact { hlater with released := fun _ => hlater.released (Nat.lt_of_lt_of_le hpolls (Nat.le_add_left _ 0)) }
  have hsame : v.baseLoop = s.baseLoop :=
    (baseLoop_run hthird).trans ((baseLoop_run hsecond).trans (baseLoop_run hfirst))
  have hreferenced : ¬ v.Referenced id := by
    apply not_referenced hv hnoted hf
    · rw [hsame]
      exact hreleased _ hbase'
    · rw [hloop'', hloop']
      exact hreleased _ hown'
  refine ⟨f, hf, hreferenced, fun halive => ⟨v.closeConnection id f, ?_⟩⟩
  rw [step, destroy, hf, Option.bind_some, if_pos ⟨halive, hreferenced⟩]

/-- A worker's connection is accepted. -/
def acceptActions : List (ServerAction Bool) :=
  [.poll false [.acceptor], .newConn 7 0 (.new .kGet .kUnknown) [], .internal true (.write false)]

/-- A loop goes once around. -/
def roundActions (loop : Bool) : List (ServerAction Bool) :=
  [.internal loop .beginFunctors, .internal loop .swap, .internal loop .endFunctors, .poll loop []]

/-- A loop calls the one function that waits, and goes around. -/
def callActions (loop : Bool) : List (ServerAction Bool) :=
  [.internal loop .beginFunctors, .internal loop .swap, .runNext loop [], .internal loop .functorDone,
    .internal loop .endFunctors, .poll loop []]

/-- The accepted connection is established when its loop has gone around twice. -/
theorem established_run_accepted : ∃ s t : TcpServer Bool,
    run step (new ⟨false, [true], 0⟩) acceptActions = some s ∧
      run step s (.poll true [] :: callActions true) = some t ∧
      ∃ d, t.objects[0]? = some d ∧ .connectionEstablished true ∈ d.history := by
  obtain ⟨s, t, hrun, hmore, hplace⟩ : ∃ s t : TcpServer Bool,
      run step (new ⟨false, [true], 0⟩) acceptActions = some s ∧
        run step s (.poll true [] :: callActions true) = some t ∧ s.objects[0]?.map (·.loop) = some true :=
    ⟨_, _, rfl, rfl, rfl⟩
  obtain ⟨c, hid, hloop⟩ := Option.map_eq_some_iff.mp hplace
  have hpolls : 2 ≤ (.poll true [] :: callActions true).countP (·.polls c.loop) := by
    rw [hloop]
    decide
  exact ⟨s, t, hrun, hmore, hloop ▸ established_run hrun hid hmore hpolls⟩

/-- The end of the stream of the connection is read. -/
def endActions : List (ServerAction Bool) :=
  acceptActions ++ .poll true [] :: (callActions true).dropLast ++
    [.poll true [.ready 7 ⟨true, false⟩], .handleMessage true (some []) []]

/-- The connection goes away, and its object may end. -/
theorem teardown_run_closed : ∃ s t u v : TcpServer Bool, run step (new ⟨false, [true], 0⟩) endActions = some s ∧
    run step s (callActions false ++ roundActions false) = some t ∧
      run step t (callActions true ++ roundActions true) = some u ∧
      run step u (roundActions false ++ roundActions true) = some v ∧
      ∃ d, v.objects[0]? = some d ∧ ¬ v.Referenced 0 ∧ (d.alive = true → ∃ w, v.step (.destroy 0) = some w) := by
  obtain ⟨s, t, u, v, hrun, hfirst, hsecond, hthird, hplace⟩ : ∃ s t u v : TcpServer Bool,
      run step (new ⟨false, [true], 0⟩) endActions = some s ∧
        run step s (callActions false ++ roundActions false) = some t ∧
          run step t (callActions true ++ roundActions true) = some u ∧
            run step u (roundActions false ++ roundActions true) = some v ∧
              s.objects[0]?.map (fun c => (c.loop, c.history.contains (.handleMessage true))) = some (true, true) :=
    ⟨_, _, _, _, rfl, rfl, rfl, rfl, rfl⟩
  obtain ⟨c, hid, hboth⟩ := Option.map_eq_some_iff.mp hplace
  obtain ⟨hloop, hend⟩ := Prod.mk.inj hboth
  have hown : 2 ≤ (callActions true ++ roundActions true).countP (·.polls c.loop) := by
    rw [hloop]
    decide
  have hlast (loop : Bool) : 1 ≤ (roundActions false ++ roundActions true).countP (·.polls loop) := by
    cases loop <;> decide
  refine ⟨s, t, u, v, hrun, hfirst, hsecond, hthird, ?_⟩
  exact (teardown_run hrun hid (List.contains_iff_mem.mp hend) hfirst (by decide) hsecond hown hthird (hlast false)
    (hlast c.loop)).2.2

end TcpServer

end WebServer.Util
