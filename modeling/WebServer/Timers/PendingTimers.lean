import WebServer.Timers.TimerOwnership

/-!
# The timers that have still to run

Seen from outside a timer queue is a collection of pending timers: timers are made, run, and
put back when they repeat. A timer is pending from its construction to its callback,
wherever it waits, and the steps in between do not change what is pending.
-/

namespace WebServer.Timers

open WebServer.Foundation

variable {κ : Type}

/-- An action that makes a timer. -/
def TimerAction.makesTimer : TimerAction κ → Bool
  | addTimer _ _ _ _ => true
  | _ => false

namespace TimerQueue

/-- The timers that wait for their callback: in a call of `AddTimerInLoop`, in `timers_`, or in the
part of `active_timers_` which `HandleRead` has not run yet. -/
def waiting (s : TimerQueue κ) : List ℕ :=
  s.toDoList ++ (s.adding.toList ++ (s.timers.elements ++ s.position.toRun).map TimerPair.timer)

/-- The pending timers under their addresses. -/
def pending (s : TimerQueue κ) (address : ℕ) : Option (Timer κ) :=
    if address ∈ s.waiting then s.heap address else none

/-- The timer whose callback an action runs. -/
def firing (s : TimerQueue κ) : TimerAction κ → Option (Timer κ)
  | .next =>
    match s.position with
    | .running (pair :: _) => s.heap pair.timer
    | _ => none
  | _ => none

/-- The delay for which an action calls `AddTime`: that of a request, or the interval of a timer which is
restarted. -/
def addsTime (s : TimerQueue κ) : TimerAction κ → Option ℚ
  | .addTimer _ _ request _ => request.wait
  | .next =>
    match s.position with
    | .resetting (pair :: _) =>
      (s.heap pair.timer).bind fun timer => if timer.repeats then some timer.interval else none
    | _ => none
  | _ => none

/-- No time passes while a callback runs. -/
theorem wall_of_firing {s s' : TimerQueue κ} {action : TimerAction κ} (h : Owned s)
    (hstep : s.step action = some s')
    {timer : Timer κ} (hfiring : s.firing action = some timer) : s'.wall = s.wall := by
  cases effect_of_step h hstep with
  | clock wall elapsed => cases hfiring
  | addTimer request callback fresh free => cases hfiring
  | _ => rfl

/-- A pending timer is live. -/
theorem heap_of_pending {s : TimerQueue κ} {address : ℕ} {timer : Timer κ} (h : s.pending address = some timer) :
    s.heap address = some timer := (Option.ite_none_right_eq_some.mp h).2

/-- Something owns every timer that waits. -/
theorem waiting_sublist_held {s : TimerQueue κ} (h : Owned s) : s.waiting.Sublist s.held := by
  refine List.Sublist.append (.refl _) (List.Sublist.append (.refl _) (List.Sublist.map _ ?_))
  refine List.Sublist.append (.refl _) ?_
  cases hposition : s.position with
  | outside => exact .refl _
  | running rest => exact (h.suffix rest hposition).sublist
  | resetting rest => exact List.nil_sublist _

/-- How the pending timers change in a step. -/
inductive PendingChange (s : TimerQueue κ) : TimerAction κ → TimerQueue κ → Prop where
  | stays {action : TimerAction κ} {s' : TimerQueue κ} (makes : action.makesTimer = false)
      (pending : s'.pending = s.pending) (requests : s'.requests = s.requests) (ran : s'.ran = s.ran)
      (firing : s.firing action = none) : PendingChange s action s'
  | made {address : ℕ} {inThreadLoop : Bool} {request : TimerRequest} {callback : κ} {s' : TimerQueue κ}
      (fresh : s.heap address = none)
      (pending : s'.pending = Function.update s.pending address
        (some (.new (request.timestamp s.wall) callback request.interval s.requests.length)))
      (requests : s'.requests = s.requests ++ [(s.wall, request)]) (ran : s'.ran = s.ran) :
      PendingChange s (.addTimer address inThreadLoop request callback) s'
  | fired {pair : TimerPair} {timer : Timer κ} {s' : TimerQueue κ} (due : pair ∈ s.position.toRun)
      (expiration : timer.expiration = pair.timestamp) (live : s.pending pair.timer = some timer)
      (pending : s'.pending = Function.update s.pending pair.timer none) (requests : s'.requests = s.requests)
      (ran : s'.ran = s.ran ++ [(timer.number, s.wall)]) (firing : s.firing .next = some timer) :
      PendingChange s .next s'
  | restarted {address : ℕ} {timer : Timer κ} {s' : TimerQueue κ} (live : s.heap address = some timer)
      (repeats : timer.repeats = true)
      (pending : s'.pending = Function.update s.pending address (some (timer.restart s.wall)))
      (requests : s'.requests = s.requests) (ran : s'.ran = s.ran) (firing : s.firing .next = none)
      (adds : s.addsTime .next = some timer.interval) : PendingChange s .next s'

/-- Moving timers from one place to another does not change what is pending. -/
theorem pending_congr {s s' : TimerQueue κ} (hheap : s'.heap = s.heap)
    (hwaiting : ∀ address, address ∈ s'.waiting ↔ address ∈ s.waiting) : s'.pending = s.pending := by
  funext address
  simp only [pending, hheap, hwaiting]

/-- One more timer waits. -/
theorem pending_add {s s' : TimerQueue κ} {address : ℕ} {timer : Timer κ}
    (hheap : s'.heap = Function.update s.heap address (some timer))
    (hwaiting : ∀ other, other ∈ s'.waiting ↔ other = address ∨ other ∈ s.waiting) :
    s'.pending = Function.update s.pending address (some timer) := by
  funext other
  rcases eq_or_ne other address with rfl | hne
  · simp [pending, hheap, hwaiting]
  · simp [pending, hheap, hwaiting, hne]

/-- A timer stops waiting. -/
theorem pending_remove {s s' : TimerQueue κ} {address : ℕ} (hheap : s'.heap = s.heap) (hnodup : s.waiting.Nodup)
    (hwaiting : s.waiting.Perm (address :: s'.waiting)) : s'.pending = Function.update s.pending address none := by
  have hgone : address ∉ s'.waiting := (hwaiting.nodup_iff.mp hnodup).notMem
  funext other
  rcases eq_or_ne other address with rfl | hne
  · simp [pending, hgone]
  · simp [pending, hheap, hwaiting.mem_iff, hne]

/-- The entry whose callback is next belongs to a waiting timer and is in step with it. -/
theorem Owned.running {s : TimerQueue κ} (h : Owned s) {pair : TimerPair} {rest : List TimerPair} {timer : Timer κ}
    (hrunning : s.position = .running (pair :: rest)) (hlive : s.heap pair.timer = some timer) :
    timer.expiration = pair.timestamp ∧
      s.waiting.Perm (pair.timer :: waiting { s with position := .running rest }) := by
  have hmem : pair ∈ s.entries := by
    rw [entries, hrunning]
    exact List.mem_append_right _ ((h.suffix _ hrunning).subset List.mem_cons_self)
  obtain ⟨found, hfound, hexpiration⟩ := h.inStep pair hmem
  obtain rfl := Option.some.inj (hfound.symm.trans hlive)
  refine ⟨hexpiration, ?_⟩
  rw [waiting, waiting, hrunning]
  simp only [HandleReadPosition.toRun, List.map_append, List.map_cons]
  exact (List.Perm.append_left _ (List.Perm.append_left _ List.perm_middle)).trans
    ((List.Perm.append_left _ List.perm_middle).trans List.perm_middle)

/-- A timer which waits for its restart or deletion does not wait for its callback. -/
theorem Owned.notMem_waiting {s : TimerQueue κ} (h : Owned s) {pair : TimerPair} {rest : List TimerPair}
    (hresetting : s.position = .resetting (pair :: rest)) : pair.timer ∉ s.waiting := by
  obtain ⟨-, -, -, hheld⟩ := h.resetting hresetting
  have hnodup := (hheld.nodup_iff.mp h.holds.nodup).notMem
  intro hmem
  rw [waiting, hresetting, HandleReadPosition.toRun, List.append_nil] at hmem
  refine hnodup (List.Sublist.subset ?_ hmem)
  refine .append (.refl _) (.append (.refl _) (.map _ ?_))
  exact List.sublist_append_left _ _

/-- A new timer waits for its callback. -/
theorem waiting_addTimer {s : TimerQueue κ} {address : ℕ} {inThreadLoop : Bool} {request : TimerRequest}
    {callback : κ}
    (hfree : inThreadLoop = true → s.adding = none) (other : ℕ) :
    other ∈ (s.addTimer address inThreadLoop request callback).waiting ↔ other = address ∨ other ∈ s.waiting := by
  cases inThreadLoop with
  | true => simp [waiting, addTimer, hfree rfl, or_left_comm]
  | false => simp [waiting, addTimer, or_left_comm]

/-- The cut of `HandleRead` moves waiting timers from the set to `active_timers_`. -/
theorem waiting_handleRead {s : TimerQueue κ} (houtside : s.position = .outside) :
    s.handleRead.waiting.Perm s.waiting := by
  have hentries : (s.handleRead.timers.elements ++ s.handleRead.position.toRun).Perm
      (s.timers.elements ++ s.position.toRun) := by
    have hsplit := s.timers.below_append_eraseBelow ⟨s.wall, uintptrMax⟩
    rw [houtside, HandleReadPosition.toRun, List.append_nil, ← hsplit]
    exact List.perm_append_comm
  exact .append_left _ (.append_left _ (hentries.map _))

/-- Every step changes the pending timers in one of these ways. -/
theorem pendingChange_of_step {s s' : TimerQueue κ} {action : TimerAction κ} (h : Owned s)
    (hstep : s.step action = some s') : PendingChange s action s' := by
  cases effect_of_step h hstep with
  | clock wall elapsed => exact .stays rfl rfl rfl rfl rfl
  | @addTimer address inThreadLoop request callback fresh free =>
    refine .made fresh (pending_add (s.addTimer_heap _ _ _ _) (waiting_addTimer free))
      (s.addTimer_requests _ _ _ _) ?_
    cases inThreadLoop <;> rfl
  | runQueued queued outside free =>
    refine .stays rfl (pending_congr rfl fun address => ?_) rfl rfl rfl
    simp [waiting, queued, free, or_left_comm]
  | addTimerInLoop adding live timerfd settimes =>
    refine .stays rfl (pending_congr rfl fun address => ?_) rfl rfl rfl
    simp [waiting, adding, or_and_right, exists_or, eq_comm, or_assoc]
  | handleRead outside free =>
    exact .stays rfl (pending_congr rfl fun address => (waiting_handleRead outside).mem_iff) rfl rfl rfl
  | @runCallback pair rest timer running free live =>
    obtain ⟨hexpiration, hwaiting⟩ := h.running running live
    have hmem : pair.timer ∈ s.waiting := hwaiting.mem_iff.mpr List.mem_cons_self
    refine .fired (by simp [running, HandleReadPosition.toRun]) hexpiration ?_ (pending_remove rfl ?_ hwaiting)
      rfl rfl ?_
    · rw [pending, if_pos hmem, live]
    · exact h.holds.nodup.sublist (waiting_sublist_held h)
    · simp only [firing, running, live]
  | allRun running free =>
    refine .stays rfl (pending_congr rfl fun address => ?_) rfl rfl (by simp [firing, running])
    simp [waiting, running, HandleReadPosition.toRun]
  | @restart pair rest timer resetting free live repeats =>
    refine .restarted live repeats (pending_add rfl fun other => ?_) rfl rfl (by simp [firing, resetting])
      (by simp [addsTime, resetting, live, repeats])
    simp [waiting, resetting, HandleReadPosition.toRun, or_and_right, exists_or, eq_comm, or_left_comm]
  | @delete pair rest timer resetting free live oneShot =>
    have hnot := h.notMem_waiting resetting
    refine .stays rfl ?_ rfl rfl (by simp [firing, resetting])
    funext other
    rcases eq_or_ne other pair.timer with rfl | hne
    · simp [pending, hnot]
    · simp [pending, waiting, resetting, HandleReadPosition.toRun, hne]
  | leave resetting free timerfd settimes =>
    refine .stays rfl (pending_congr rfl fun address => ?_) rfl rfl (by simp [firing, resetting])
    simp [waiting, resetting, HandleReadPosition.toRun]

end TimerQueue

end WebServer.Timers
