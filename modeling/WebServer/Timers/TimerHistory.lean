import WebServer.Timers.HandleReadRun
import WebServer.Timers.Punctuality
import WebServer.Timers.TimerfdArming

/-!
# What becomes of every timer

The callback of a timer that does not repeat is run once, and then the timer is gone; until then it waits. A
timer that repeats lives for ever. When the loop has nothing to do, the timers that do not repeat and have
expired are those that were run, and all others expire in the future: the timer descriptor would be readable
otherwise.
-/

namespace WebServer.Timers

open WebServer.Foundation

variable {κ : Type}

namespace TimerQueue

/-- The timer with this number is live. -/
def Alive (s : TimerQueue κ) (number : ℕ) : Prop := ∃ address timer, s.heap address = some timer ∧
    timer.number = number

/-- The timer with this number waits for its callback. -/
def Waits (s : TimerQueue κ) (number : ℕ) : Prop :=
  ∃ address timer, s.pending address = some timer ∧ timer.number = number

/-- The callback of the timer with this number is still to be run, or it has been run once. -/
def RunsOnce (s : TimerQueue κ) (number : ℕ) : Prop :=
  s.Waits number ∧ s.runTimes number = [] ∨ ¬ s.Waits number ∧ ∃ time, s.runTimes number = [time]

/-- A timer repeats if its request says so, and otherwise it expires when the request says. -/
def AskedFor (s : TimerQueue κ) (timer : Timer κ) : Prop :=
  ∃ now request, s.requests[timer.number]? = some (now, request) ∧ timer.repeats = decide (0 < request.interval) ∧
    (timer.repeats = false → timer.expiration = request.timestamp now)

/-- The invariant: timers that do not repeat are run once, and the others live. -/
structure Accounted (s : TimerQueue κ) : Prop where
  asked : ∀ address timer, s.heap address = some timer → s.AskedFor timer
  made : ∀ callback ∈ s.ran, callback.1 < s.requests.length
  oneShot : ∀ number now request, s.requests[number]? = some (now, request) → request.interval ≤ 0 →
    s.RunsOnce number
  repeating : ∀ number now request, s.requests[number]? = some (now, request) → 0 < request.interval →
    s.Alive number

variable {s s' : TimerQueue κ} {action : TimerAction κ} {number : ℕ}

/-- The request of a live timer. -/
theorem AskedFor.request {timer : Timer κ} (h : s.AskedFor timer) {now : ℤ} {request : TimerRequest}
    (hfound : s.requests[timer.number]? = some (now, request)) : timer.repeats = decide (0 < request.interval) ∧
      (timer.repeats = false → timer.expiration = request.timestamp now) := by
  obtain ⟨now', request', hfound', hkind⟩ := h
  obtain ⟨rfl, rfl⟩ := Prod.mk.inj (Option.some.inj (hfound'.symm.trans hfound))
  exact hkind

/-- A live timer stays live, with another expiration at most, unless it does not repeat and is deleted. -/
theorem heap_of_step (h : Owned s) (hstep : s.step action = some s') {address : ℕ} {timer : Timer κ}
    (hlive : s.heap address = some timer) :
    (∃ expiration, s'.heap address = some { timer with expiration }) ∨ timer.repeats = false := by
  cases effect_of_step h hstep with
  | @addTimer added inThreadLoop request callback fresh free =>
    have hne : address ≠ added := by
      rintro rfl
      cases fresh.symm.trans hlive
    refine Or.inl ⟨timer.expiration, ?_⟩
    rw [s.addTimer_heap, Function.update_of_ne hne, hlive]
  | @restart pair rest before resetting free live repeats =>
    rcases eq_or_ne address pair.timer with rfl | hne
    · obtain rfl := Option.some.inj (live.symm.trans hlive)
      exact Or.inl ⟨addTime s.wall before.interval, Function.update_self _ _ _⟩
    · exact Or.inl ⟨timer.expiration, (Function.update_of_ne hne _ _).trans hlive⟩
  | @delete pair rest before resetting free live oneShot =>
    rcases eq_or_ne address pair.timer with rfl | hne
    · obtain rfl := Option.some.inj (live.symm.trans hlive)
      exact Or.inr oneShot
    · exact Or.inl ⟨timer.expiration, (Function.update_of_ne hne _ _).trans hlive⟩
  | _ => exact Or.inl ⟨timer.expiration, hlive⟩

/-- Every step keeps the timers as they were requested. -/
theorem asked_step (h : Owned s) (hasked : ∀ address timer, s.heap address = some timer → s.AskedFor timer)
    (hstep : s.step action = some s') (address : ℕ) (timer : Timer κ) (hlive : s'.heap address = some timer) :
    s'.AskedFor timer := by
  have hkept {timer : Timer κ} (hold : s.AskedFor timer) : s'.AskedFor timer := by
    obtain ⟨now, request, hfound, hkind⟩ := hold
    obtain ⟨added, hadded⟩ := requests_of_step h hstep
    refine ⟨now, request, ?_, hkind⟩
    rw [← hadded, List.getElem?_append_left (List.getElem?_eq_some_iff.mp hfound).1, hfound]
  cases effect_of_step h hstep with
  | @addTimer added inThreadLoop request callback fresh free =>
    rw [s.addTimer_heap] at hlive
    rcases update_eq_some hlive with ⟨-, hnew⟩ | ⟨-, hold⟩
    · obtain rfl := Option.some.inj hnew
      refine ⟨s.wall, request, ?_, rfl, fun _ => rfl⟩
      rw [s.addTimer_requests]
      exact List.getElem?_concat_length
    · exact hkept (hasked address timer hold)
  | @restart pair rest before resetting free live repeats =>
    rcases update_eq_some hlive with ⟨-, hnew⟩ | ⟨-, hold⟩
    · obtain rfl := Option.some.inj hnew
      obtain ⟨now, request, hfound, hkind, -⟩ := hkept (hasked _ before live)
      exact ⟨now, request, hfound, hkind, fun honce => by cases honce.symm.trans repeats⟩
    · exact hkept (hasked address timer hold)
  | delete resetting free live oneShot =>
    rcases update_eq_some hlive with ⟨-, hnone⟩ | ⟨-, hold⟩
    · cases hnone
    · exact hkept (hasked address timer hold)
  | _ => exact hkept (hasked address timer hlive)

/-- A timer that is put among the pending ones waits. -/
theorem waits_put {address : ℕ} {timer : Timer κ}
    (hpending : s'.pending = Function.update s.pending address (some timer))
    (hbefore : ∀ before, s.pending address = some before → before.number = timer.number) (number : ℕ) :
    s'.Waits number ↔ number = timer.number ∨ s.Waits number := by
  rw [Waits, hpending]
  constructor
  · rintro ⟨other, found, hfound, rfl⟩
    rcases update_eq_some hfound with ⟨-, hnew⟩ | ⟨-, hold⟩
    · exact Or.inl (congrArg Timer.number (Option.some.inj hnew)).symm
    · exact Or.inr ⟨other, found, hold, rfl⟩
  · rintro (rfl | ⟨other, found, hfound, rfl⟩)
    · exact ⟨address, timer, Function.update_self _ _ _, rfl⟩
    · rcases eq_or_ne other address with rfl | hne
      · exact ⟨other, timer, Function.update_self _ _ _, (hbefore found hfound).symm⟩
      · exact ⟨other, found, (Function.update_of_ne hne _ _).trans hfound, rfl⟩

/-- A timer that is taken from the pending ones does not wait any more. -/
theorem waits_take (h : Owned s) {address : ℕ} {timer : Timer κ} (hlive : s.pending address = some timer)
    (hpending : s'.pending = Function.update s.pending address none) (number : ℕ) :
    s'.Waits number ↔ s.Waits number ∧ number ≠ timer.number := by
  rw [Waits, hpending]
  constructor
  · rintro ⟨other, found, hfound, rfl⟩
    rcases update_eq_some hfound with ⟨-, hnone⟩ | ⟨hne, hold⟩
    · cases hnone
    · refine ⟨⟨other, found, hold, rfl⟩, fun heq => hne ?_⟩
      exact h.numbered.distinct _ _ _ _ (heap_of_pending hold) (heap_of_pending hlive) heq
  · rintro ⟨⟨other, found, hfound, rfl⟩, hne⟩
    refine ⟨other, found, ?_, rfl⟩
    have hother : other ≠ address := by
      rintro rfl
      exact hne (congrArg Timer.number (Option.some.inj (hfound.symm.trans hlive)))
    exact (Function.update_of_ne hother _ _).trans hfound

/-- A waiting timer that does not repeat goes on to wait for the same time, unless its callback is run. -/
theorem pending_of_step (h : Owned s) (hstep : s.step action = some s') {address : ℕ} {timer : Timer κ}
    (hpending : s.pending address = some timer) (honce : timer.repeats = false) :
    s'.pending address = some timer ∨ s.firing action = some timer := by
  cases pendingChange_of_step h hstep with
  | stays makes pending requests ran firing => exact Or.inl (pending ▸ hpending)
  | @made added _ _ _ _ fresh pending requests ran =>
    have hne : address ≠ added := by
      rintro rfl
      cases fresh.symm.trans (heap_of_pending hpending)
    exact Or.inl (by rw [pending, Function.update_of_ne hne, hpending])
  | @fired pair fired _ due expiration live pending requests ran firing =>
    rcases eq_or_ne address pair.timer with rfl | hne
    · exact Or.inr (firing.trans (live.symm.trans hpending))
    · exact Or.inl (by rw [pending, Function.update_of_ne hne, hpending])
  | @restarted changed restarted _ live repeats pending requests ran firing =>
    have hne : address ≠ changed := by
      rintro rfl
      obtain rfl := Option.some.inj (live.symm.trans (heap_of_pending hpending))
      cases honce.symm.trans repeats
    exact Or.inl (by rw [pending, Function.update_of_ne hne, hpending])

/-- Nothing changes for a timer that is neither made nor run. -/
theorem RunsOnce.congr (h : s.RunsOnce number) (hwaits : s'.Waits number ↔ s.Waits number)
    (htimes : s'.runTimes number = s.runTimes number) : s'.RunsOnce number := by
  rw [RunsOnce, hwaits, htimes]
  exact h

/-- The callback of the timer that is made next has not been run. -/
theorem Accounted.runTimes_new (h : Accounted s) : s.runTimes s.requests.length = [] := by
  rw [runTimes, List.map_eq_nil_iff, List.filter_eq_nil_iff]
  intro callback hmem
  simpa using (h.made callback hmem).ne

/-- Every step keeps a timer that does not repeat from being run twice, and from being forgotten. -/
theorem Accounted.oneShot_step (howned : Owned s) (h : Accounted s) (hstep : s.step action = some s') {now : ℤ}
    {request : TimerRequest} (hfound : s'.requests[number]? = some (now, request)) (honce : request.interval ≤ 0) :
    s'.RunsOnce number := by
  cases pendingChange_of_step howned hstep with
  | stays makes pending requests ran firing =>
    rw [requests] at hfound
    refine (h.oneShot number now request hfound honce).congr ?_ (runTimes_congr ran number)
    rw [Waits, Waits, pending]
  | made fresh pending requests ran =>
    have hwaits := waits_put pending fun before hbefore => by cases fresh.symm.trans (heap_of_pending hbefore)
    rw [requests] at hfound
    rcases getElem?_concat_cases hfound with ⟨hless, hold⟩ | ⟨rfl, -⟩
    · refine (h.oneShot number now request hold honce).congr ?_ (runTimes_congr ran number)
      exact (hwaits number).trans (or_iff_right hless.ne)
    · exact Or.inl ⟨(hwaits _).mpr (Or.inl rfl), (runTimes_congr ran _).trans h.runTimes_new⟩
  | @fired pair timer _ due expiration live pending requests ran firing =>
    rw [requests] at hfound
    have hbefore := h.oneShot number now request hfound honce
    have hwaits := waits_take howned live pending
    rcases eq_or_ne number timer.number with rfl | hne
    · refine Or.inr ⟨fun hafter => ((hwaits _).mp hafter).2 rfl, s.wall, ?_⟩
      rw [runTimes_self ran]
      rcases hbefore with ⟨-, hnone⟩ | ⟨hnot, -⟩
      · rw [hnone, List.nil_append]
      · exact absurd ⟨pair.timer, timer, live, rfl⟩ hnot
    · exact hbefore.congr ((hwaits number).trans (and_iff_left hne)) (runTimes_of_ne ran hne)
  | @restarted address timer _ live repeats pending requests ran firing =>
    rw [requests] at hfound
    refine (h.oneShot number now request hfound honce).congr ?_ (runTimes_congr ran number)
    have hsame (before : Timer κ) (hbefore : s.pending address = some before) :
        before.number = (timer.restart s.wall).number := by
      obtain rfl := Option.some.inj ((heap_of_pending hbefore).symm.trans live)
      rfl
    refine (waits_put pending hsame number).trans (or_iff_right ?_)
    rintro rfl
    have hrepeats := ((h.asked address timer live).request hfound).1.symm.trans repeats
    exact honce.not_gt (of_decide_eq_true hrepeats)

/-- No step deletes a timer that repeats. -/
theorem Accounted.repeating_step (howned : Owned s) (h : Accounted s) (hstep : s.step action = some s') {now : ℤ}
    {request : TimerRequest} (hfound : s'.requests[number]? = some (now, request))
    (hrepeats : 0 < request.interval) :
    s'.Alive number := by
  have hkept (hold : s.requests[number]? = some (now, request)) : s'.Alive number := by
    obtain ⟨address, timer, hlive, rfl⟩ := h.repeating number now request hold hrepeats
    rcases heap_of_step howned hstep hlive with ⟨expiration, hafter⟩ | honce
    · exact ⟨address, _, hafter, rfl⟩
    · have hkind := ((h.asked address timer hlive).request hold).1
      cases honce.symm.trans (hkind.trans (decide_eq_true hrepeats))
  cases pendingChange_of_step howned hstep with
  | @made address _ _ _ _ fresh pending requests ran =>
    rw [requests] at hfound
    rcases getElem?_concat_cases hfound with ⟨-, hold⟩ | ⟨rfl, -⟩
    · exact hkept hold
    · have hpending := congrFun pending address
      rw [Function.update_self] at hpending
      exact ⟨address, _, heap_of_pending hpending, rfl⟩
  | stays makes pending requests ran firing => exact hkept (requests ▸ hfound)
  | fired due expiration live pending requests ran firing => exact hkept (requests ▸ hfound)
  | restarted live repeats pending requests ran firing => exact hkept (requests ▸ hfound)

/-- Callbacks are those of timers that were made. -/
theorem Accounted.made_step (howned : Owned s) (h : Accounted s) (hstep : s.step action = some s') :
    ∀ callback ∈ s'.ran, callback.1 < s'.requests.length := by
  have hmore : s.requests.length ≤ s'.requests.length := (requests_of_step howned hstep).length_le
  have hkept (hran : s'.ran = s.ran) : ∀ callback ∈ s'.ran, callback.1 < s'.requests.length := fun callback hmem =>
    (h.made callback (hran ▸ hmem)).trans_le hmore
  cases pendingChange_of_step howned hstep with
  | stays makes pending requests ran firing => exact hkept ran
  | made fresh pending requests ran => exact hkept ran
  | fired due expiration live pending requests ran firing =>
    intro callback hmem
    rw [ran] at hmem
    rcases List.mem_append.mp hmem with hold | hnew
    · exact (h.made callback hold).trans_le hmore
    · obtain rfl := List.mem_singleton.mp hnew
      exact (howned.numbered.bounded _ _ (heap_of_pending live)).trans_le hmore
  | restarted live repeats pending requests ran firing => exact hkept ran

/-- Every step keeps account of the timers. -/
theorem accounted_step (s : TimerQueue κ) (action : TimerAction κ) (s' : TimerQueue κ) (h : Owned s ∧ Accounted s)
    (hstep : s.step action = some s') : Owned s' ∧ Accounted s' :=
  ⟨owned_step s action s' h.1 hstep, asked_step h.1 h.2.asked hstep, h.2.made_step h.1 hstep,
    fun _ _ _ hfound honce => h.2.oneShot_step h.1 hstep hfound honce,
    fun _ _ _ hfound hrepeats => h.2.repeating_step h.1 hstep hfound hrepeats⟩

/-- There is no timer in a new queue. -/
theorem accounted_new (wall monotonic : ℤ) : Accounted (new wall monotonic : TimerQueue κ) :=
  ⟨fun _ _ hlive => (by cases hlive), fun _ hmem => (by cases hmem), fun _ _ _ hfound => (by cases hfound),
    fun _ _ _ hfound => (by cases hfound)⟩

/-- Outside of `HandleRead` the live timers wait. -/
theorem Owned.waits_of_alive (h : Owned s) (houtside : s.position = .outside) (hlive : s.Alive number) :
    s.Waits number := by
  obtain ⟨address, timer, hlive, rfl⟩ := hlive
  refine ⟨address, timer, ?_, rfl⟩
  have hmem : address ∈ s.held := (h.holds.live address).mp (Option.isSome_iff_exists.mpr ⟨timer, hlive⟩)
  have hwaiting : s.waiting = s.held := by
    rw [waiting, held, entries, houtside]
    rfl
  rw [pending, hwaiting, if_pos hmem, hlive]

/-- In every run of the timer queue, with any readings of the clock, a timer that does not repeat waits and
has not been run, or has been run exactly once and does not wait; and one that repeats is never deleted, and
waits whenever the loop is not in `HandleRead`. -/
theorem accounted_run {wall monotonic : ℤ} {actions : List (TimerAction κ)}
    (hrun : run step (new wall monotonic) actions = some s) {now : ℤ} {request : TimerRequest}
    (hfound : s.requests[number]? = some (now, request)) :
    (request.interval ≤ 0 → s.RunsOnce number) ∧
      (0 < request.interval → s.Alive number ∧ (s.position = .outside → s.Waits number)) := by
  obtain ⟨howned, haccounted⟩ := run_invariant accounted_step
    ⟨owned_new wall monotonic, accounted_new wall monotonic⟩ hrun
  refine ⟨haccounted.oneShot number now request hfound, fun hrepeats => ?_⟩
  have hlive := haccounted.repeating number now request hfound hrepeats
  exact ⟨hlive, fun houtside => howned.waits_of_alive houtside hlive⟩

/-- The two timers of the run in which one is added by the other one's callback. -/
theorem accounted_reentrant : ∃ s : TimerQueue Unit,
    run step (new 0 0) (reentrantRun ++ .handleRead :: reentrantRead) = some s ∧ s.Waits 0 ∧ s.RunsOnce 1 := by
  have hends : (run step (new 0 0) (reentrantRun ++ .handleRead :: reentrantRead)).map
      (fun s => (s.position, s.requests[0]?, s.requests[1]?)) =
        some (.outside, some (0, .runEvery 1), some (0, .runAfter 1)) := by decide +kernel
  obtain ⟨s, hrun, hs⟩ := Option.map_eq_some_iff.mp hends
  obtain ⟨houtside, hrequests⟩ := Prod.mk.inj hs
  obtain ⟨hevery, hafter⟩ := Prod.mk.inj hrequests
  exact ⟨s, hrun, ((accounted_run hrun hevery).2 (by decide)).2 houtside, (accounted_run hrun hafter).1 (by decide)⟩

/-- The timer descriptor is not armed for a time that is over. -/
def Ahead (s : TimerQueue κ) : Prop := ∀ deadline, s.timerfd.deadline = some deadline → s.monotonic < deadline

/-- Time makes the descriptor readable when it reaches the deadline. -/
theorem ahead_clock (s : TimerQueue κ) (wall : ℤ) (elapsed : ℕ) : Ahead (s.clock wall elapsed) := by
  intro deadline hdeadline
  change (s.timerfd.advance (s.monotonic + elapsed)).deadline = some deadline at hdeadline
  change s.monotonic + elapsed < deadline
  rw [Timerfd.advance] at hdeadline
  split at hdeadline
  · next armed harmed =>
    split at hdeadline
    · cases hdeadline
    · next hlater =>
      rw [harmed] at hdeadline
      exact Option.some.inj hdeadline ▸ not_le.mp hlater
  · next hnone => cases hnone.symm.trans hdeadline

/-- `ResetTimer` arms the descriptor for a later time. -/
theorem ahead_resetTimer (s : TimerQueue κ) (timer : Timer κ) : Ahead (s.resetTimer timer) := by
  intro deadline hdeadline
  rw [resetTimer_armed] at hdeadline
  rw [← Option.some.inj hdeadline]
  exact lt_add_of_pos_right _ (lt_of_lt_of_le (by decide) (le_max_right _ _))

/-- Every step keeps the descriptor ahead of the clock. -/
theorem ahead_step (howned : Owned s) (h : Ahead s) (hstep : s.step action = some s') : Ahead s' := by
  cases stepped_of_step hstep with
  | clock wall elapsed => exact ahead_clock s wall elapsed
  | @addTimer address inThreadLoop => cases inThreadLoop <;> exact h
  | runQueued queued outside free => exact h
  | @addTimerInLoop address adding =>
    obtain ⟨timer, hlive⟩ := howned.holds.exists_object (i := address) (by simp [held, adding])
    rw [TimerQueue.addTimerInLoop, withTimer_of_live (s := { s with adding := none }) hlive]
    split
    · exact ahead_resetTimer _ timer
    · exact h
  | handleRead outside free => exact h
  | runCallback running free =>
    obtain ⟨timer, hlive, hrun, -⟩ := howned.runCallback running
    exact hrun ▸ h
  | allRun running free => exact h
  | resetOne resetting free =>
    obtain ⟨timer, hlive, hreset, -⟩ := howned.resetting resetting
    rw [hreset, afterReset]
    split
    · exact h
    · exact h
  | allReset resetting free =>
    rw [resetFirst]
    split
    · exact h
    · next first hfirst =>
      obtain ⟨timer, hlive, -⟩ := howned.inStep first (List.mem_append_left _ (List.mem_of_head? hfirst))
      rw [withTimer_of_live (s := { s with position := .outside }) hlive]
      exact ahead_resetTimer _ timer

/-- The callback of a timer that does not repeat was not run before the time of its request. -/
def NotEarly (s : TimerQueue κ) : Prop := ∀ number now request, s.requests[number]? = some (now, request) →
  request.interval ≤ 0 → ∀ time ∈ s.runTimes number, request.timestamp now ≤ time

/-- A callback that runs is due. -/
theorem expiration_le_of_firing (howned : Owned s) (hrequested : AsRequested s) (hstep : s.step action = some s')
    {timer : Timer κ} (hfiring : s.firing action = some timer) :
    timer.expiration ≤ s.wall ∧ ∃ address, s.pending address = some timer := by
  cases pendingChange_of_step howned hstep with
  | stays makes pending requests ran firing => cases firing.symm.trans hfiring
  | made fresh pending requests ran => cases hfiring
  | @fired pair fired _ due expiration live pending requests ran firing =>
    obtain rfl := Option.some.inj (firing.symm.trans hfiring)
    exact ⟨expiration ▸ hrequested.due pair due, pair.timer, live⟩
  | restarted live repeats pending requests ran firing => cases firing.symm.trans hfiring

/-- No step runs a callback early. -/
theorem notEarly_step (howned : Owned s) (haccounted : Accounted s) (hrequested : AsRequested s) (h : NotEarly s)
    (hstep : s.step action = some s') : NotEarly s' := by
  intro number now request hfound honce time hmem
  have hstill (hrequests : s'.requests = s.requests) (hran : s'.ran = s.ran) : request.timestamp now ≤ time := by
    rw [hrequests] at hfound
    rw [runTimes_congr hran] at hmem
    exact h number now request hfound honce time hmem
  cases pendingChange_of_step howned hstep with
  | stays makes pending requests ran firing => exact hstill requests ran
  | made fresh pending requests ran =>
    rw [requests] at hfound
    rw [runTimes_congr ran] at hmem
    rcases getElem?_concat_cases hfound with ⟨-, hold⟩ | ⟨rfl, -⟩
    · exact h number now request hold honce time hmem
    · rw [haccounted.runTimes_new] at hmem
      cases hmem
  | @fired pair timer _ due expiration live pending requests ran firing =>
    rw [requests] at hfound
    rcases eq_or_ne number timer.number with rfl | hne
    · rw [runTimes_self ran] at hmem
      rcases List.mem_append.mp hmem with hold | hnew
      · exact h _ now request hfound honce time hold
      · -- The callback runs for an entry that is due, and the entry has the time of the request.
        obtain rfl := List.mem_singleton.mp hnew
        obtain ⟨hkind, hexpires⟩ := (haccounted.asked _ timer (heap_of_pending live)).request hfound
        rw [← hexpires (hkind.trans (decide_eq_false honce.not_gt)), expiration]
        exact hrequested.due pair due
    · rw [runTimes_of_ne ran hne] at hmem
      exact h number now request hfound honce time hmem
  | restarted live repeats pending requests ran firing => exact hstill requests ran

/-- The loop has nothing to do: no call of `AddTimerInLoop` is queued, the timer descriptor is not readable,
and it was not set in the last 100 microseconds. -/
structure Idle (s : TimerQueue κ) : Prop where
  outside : s.position = .outside
  free : s.adding = none
  nothingQueued : s.toDoList = []
  quiet : s.timerfd.unread = false
  settled : ∀ call ∈ s.settimes.getLast?, call.1 + 100 ≤ s.wall

instance (s : TimerQueue κ) : Decidable s.Idle :=
  decidable_of_iff (s.position = .outside ∧ s.adding = none ∧ s.toDoList = [] ∧ s.timerfd.unread = false ∧
      ∀ call ∈ s.settimes.getLast?, call.1 + 100 ≤ s.wall)
    ⟨fun ⟨houtside, hfree, hnothing, hquiet, hsettled⟩ => ⟨houtside, hfree, hnothing, hquiet, hsettled⟩,
      fun h => ⟨h.outside, h.free, h.nothingQueued, h.quiet, h.settled⟩⟩

/-- When the loop has nothing to do, all timers that wait expire in the future. -/
theorem Idle.later (hidle : s.Idle) (howned : Owned s) (harmed : Armed s) (hahead : Ahead s) {address : ℕ}
    {timer : Timer κ} (hpending : s.pending address = some timer) : s.wall < timer.expiration := by
  obtain ⟨hmem, hlive⟩ := Option.ite_none_right_eq_some.mp hpending
  rw [waiting, hidle.outside, hidle.free, hidle.nothingQueued, HandleReadPosition.toRun, List.append_nil] at hmem
  obtain ⟨pair, hpair, rfl⟩ := List.mem_map.mp hmem
  obtain ⟨found, hfound, hexpiration⟩ := howned.inStep pair (List.mem_append_left _ hpair)
  obtain rfl := Option.some.inj (hfound.symm.trans hlive)
  obtain ⟨first, hfirst, hle⟩ := OrderedSet.first_le hpair
  have hbefore := TimerPair.timestamp_le_of_le hle
  rcases harmed.first hidle.outside first hfirst with hunread | ⟨deadline, now, value, hdeadline, hlast, hbound⟩
  · cases hidle.quiet.symm.trans hunread
  · have hlater := hahead deadline hdeadline
    have hsettled := hidle.settled (now, value) hlast
    omega

/-- What holds while both clocks advance together and the differences fit. -/
structure Timely (s : TimerQueue κ) : Prop where
  owned : Owned s
  accounted : Accounted s
  armed : Armed s
  ahead : Ahead s
  requested : AsRequested s
  recorded : Recorded s
  notEarly : NotEarly s

/-- The clock is not set back while both clocks advance together. -/
theorem clockAdvances_of_agree (hagree : s.clocksAgree action = true) : s.clockAdvances action = true := by
  cases action with
  | clock wall elapsed =>
    have hwall := of_decide_eq_true hagree
    exact decide_eq_true (by omega)
  | _ => rfl

/-- Every step at which the clocks agree, and the difference fits, keeps the queue timely. -/
theorem timely_step (s : TimerQueue κ) (action : TimerAction κ) (s' : TimerQueue κ) (h : Timely s)
    (hmeets : s.clocksAgree action = true ∧ s.DifferenceFits action) (hstep : s.step action = some s') :
    Timely s' := by
  have hadvances := clockAdvances_of_agree hmeets.1
  obtain ⟨howned, haccounted⟩ := accounted_step s action s' ⟨h.owned, h.accounted⟩ hstep
  exact ⟨howned, haccounted, (armed_step s action s' ⟨h.owned, h.armed⟩ hmeets hstep).2,
    ahead_step h.owned h.ahead hstep, h.requested.step h.owned hadvances hstep,
      h.recorded.step h.owned hadvances hstep,
    notEarly_step h.owned h.accounted h.requested h.notEarly hstep⟩

end TimerQueue

end WebServer.Timers
