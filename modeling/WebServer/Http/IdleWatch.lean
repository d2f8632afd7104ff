import WebServer.Http.IdleConnections

/-!
# Which connections stay under watch

There is at most one check for each connection, made when the connection is established and
used up when its callback runs. So a connection that is neither shut down nor closed has a
pending check as long as no check finds it active, and has none afterwards.
-/

namespace WebServer.Http

open WebServer.Foundation
open WebServer.Timers (TimerQueue TimerAction TimerRequest Timer)
open WebServer.Util (Session ascii)

namespace HttpLoop

/-- This timer is a pending check of the connection. -/
def Checks (timerQueue : TimerQueue TimerCallback) (timer id : ℕ) : Prop :=
  ∃ found, timerQueue.pending timer = some found ∧ found.callback = .handleIdleConnection id

/-- Every connection that is neither shut down nor closed has a pending check. -/
def Watched (s : HttpLoop) : Prop :=
  ∀ id connection, s.connections id = some connection → connection.state = .kConnected →
    ∃ timer, Checks s.timerQueue timer id

/-- If the action checks a connection that is neither shut down nor closed, the connection is idle. -/
def findsIdle (s : HttpLoop) (action : HttpLoopAction) : Bool :=
  match s.checked action with
  | some id =>
    match s.connections id with
    | some connection => connection.state = .kConnected → s.isIdle connection
    | none => true
  | none => true

variable {server : HttpServer} {s s' : HttpLoop}

/-- The checks do not repeat, belong to connections, and there is at most one for each connection. -/
structure OneCheck (timerQueue : TimerQueue TimerCallback) (established : ℕ) : Prop where
  owned : TimerQueue.Owned timerQueue
  oneShot : ∀ address timer id, timerQueue.heap address = some timer → timer.callback = .handleIdleConnection id →
    timer.repeats = false
  known : ∀ timer id, Checks timerQueue timer id → id < established
  one : ∀ timer timer' id, Checks timerQueue timer id → Checks timerQueue timer' id → timer = timer'

/-- How a new timer changes the pending checks. -/
theorem checks_addTimer {queue queue' : TimerQueue TimerCallback} (howned : TimerQueue.Owned queue) {address : ℕ}
    {inThreadLoop : Bool} {request : TimerRequest} {callback : TimerCallback}
    (hstep : queue.step (.addTimer address inThreadLoop request callback) = some queue') (timer id : ℕ) :
    Checks queue' timer id ↔ timer = address ∧ callback = .handleIdleConnection id ∨ Checks queue timer id := by
  cases TimerQueue.pendingChange_of_step howned hstep with
  | stays makes pending requests ran firing => cases makes
  | made fresh pending requests ran =>
    rw [Checks, Checks, pending]
    rcases eq_or_ne timer address with rfl | hne
    · have hnone : ¬ ∃ found, queue.pending timer = some found ∧ found.callback = .handleIdleConnection id := by
        rintro ⟨found, hfound, -⟩
        cases fresh.symm.trans (TimerQueue.heap_of_pending hfound)
      simp [hnone, Timer.new]
    · simp [hne]

/-- How another step of the timer queue changes the pending checks. -/
theorem checks_step {queue queue' : TimerQueue TimerCallback} {established : ℕ} (h : OneCheck queue established)
    {action : TimerAction TimerCallback} (hmakes : action.makesTimer = false)
    (hstep : queue.step action = some queue')
    (timer id : ℕ) : Checks queue' timer id ↔
      Checks queue timer id ∧ (queue.firing action).bind (fun timer => timer.callback.checks) ≠ some id := by
  cases TimerQueue.pendingChange_of_step h.owned hstep with
  | stays makes pending requests ran firing =>
    rw [Checks, pending, firing]
    simp [Checks]
  | made fresh pending requests ran => cases hmakes
  | @fired pair fired _ due expiration live pending requests ran firing =>
    rw [firing, Option.bind_some, Ne, TimerCallback.checks_eq_some]
    rcases eq_or_ne timer pair.timer with rfl | hne
    · refine iff_of_false ?_ ?_
      · rintro ⟨found, hfound, -⟩
        simp [pending] at hfound
      · rintro ⟨⟨found, hfound, hcheck⟩, hother⟩
        obtain rfl := Option.some.inj (live.symm.trans hfound)
        exact hother hcheck
    · rw [Checks, pending, Function.update_of_ne hne]
      exact (and_iff_left_of_imp fun hcheck hfired => hne (h.one timer pair.timer id hcheck
        ⟨fired, live, hfired⟩)).symm
  | @restarted address restarted _ live repeats pending requests ran firing =>
    have hnot : restarted.callback ≠ .handleIdleConnection id := fun hcheck => by
      cases (h.oneShot address restarted id live hcheck).symm.trans repeats
    rw [firing, Checks, pending]
    rcases eq_or_ne timer address with rfl | hne
    · refine iff_of_false ?_ ?_
      · rintro ⟨found, hfound, hcheck⟩
        rw [Function.update_self] at hfound
        obtain rfl := Option.some.inj hfound
        exact hnot hcheck
      · rintro ⟨⟨found, hfound, hcheck⟩, -⟩
        obtain rfl := Option.some.inj (live.symm.trans (TimerQueue.heap_of_pending hfound))
        exact hnot hcheck
    · rw [Function.update_of_ne hne]
      simp [Checks]

/-- A new check is for the connection established with it. -/
theorem OneCheck.addTimer {queue queue' : TimerQueue TimerCallback} {established established' : ℕ}
    (h : OneCheck queue established) (hmore : established ≤ established') {address : ℕ} {inThreadLoop : Bool}
    {request : TimerRequest} {callback : TimerCallback}
    (hstep : queue.step (.addTimer address inThreadLoop request callback) = some queue')
    (hnew : ∀ id, callback = .handleIdleConnection id → id = established ∧ id < established' ∧
      request.interval = 0) :
    OneCheck queue' established' := by
  have hchecks := checks_addTimer h.owned hstep
  refine ⟨TimerQueue.owned_step _ _ _ h.owned hstep, fun other timer id hlive hcheck => ?_,
    fun timer id hcheck => ?_,
    fun timer timer' id hcheck hcheck' => ?_⟩
  · rcases TimerQueue.live_of_step h.owned hstep hlive with ⟨before, expiration, hbefore, rfl⟩ | ⟨_, _, _, heq, rfl⟩
    · exact h.oneShot other before id hbefore hcheck
    · cases heq
      exact decide_eq_false (hnew id hcheck).2.2.not_gt
  · rcases (hchecks timer id).mp hcheck with ⟨-, hadded⟩ | hold
    · exact (hnew id hadded).2.1
    · exact (h.known timer id hold).trans_le hmore
  · rcases (hchecks timer id).mp hcheck with ⟨rfl, hadded⟩ | hold <;>
      rcases (hchecks timer' id).mp hcheck' with ⟨rfl, hadded'⟩ | hold'
    · rfl
    · exact absurd (hnew id hadded).1 (h.known timer' id hold').ne
    · exact absurd (hnew id hadded').1 (h.known timer id hold).ne
    · exact h.one timer timer' id hold hold'

/-- The other steps of the timer queue make no check. -/
theorem OneCheck.step {queue queue' : TimerQueue TimerCallback} {established : ℕ} (h : OneCheck queue established)
    {action : TimerAction TimerCallback} (hmakes : action.makesTimer = false)
    (hstep : queue.step action = some queue') : OneCheck queue' established := by
  have hchecks := checks_step h hmakes hstep
  refine ⟨TimerQueue.owned_step _ _ _ h.owned hstep, fun other timer id hlive hcheck => ?_,
    fun timer id hcheck => ?_,
    fun timer timer' id hcheck hcheck' => ?_⟩
  · rcases TimerQueue.live_of_step h.owned hstep hlive with ⟨before, expiration, hbefore, rfl⟩ | ⟨_, _, _, rfl, rfl⟩
    · exact h.oneShot other before id hbefore hcheck
    · cases hmakes
  · exact h.known timer id ((hchecks timer id).mp hcheck).1
  · exact h.one timer timer' id ((hchecks timer id).mp hcheck).1 ((hchecks timer' id).mp hcheck').1

/-- Every step keeps the checks. -/
theorem oneCheck_step (hauto : server.autoCloseIdleconnection = true) (s : HttpLoop) (action : HttpLoopAction)
    (s' : HttpLoop) (h : OneCheck s.timerQueue s.established) (hstep : server.loopStep s action = some s') :
    OneCheck s'.timerQueue s'.established := by
  cases loopEffect_of_step hauto h.owned hstep with
  | connectionEstablished connection step =>
    exact h.addTimer (Nat.le_succ _) step fun id heq => by cases heq; exact ⟨rfl, Nat.lt_succ_self _, rfl⟩
  | connection live connected => exact h
  | destroyed => exact h
  | otherTimer step => exact h.addTimer le_rfl step fun id heq => by cases heq
  | timers makes step connections => exact h.step makes step

/-- The condition as a statement about the connection that is checked. -/
theorem findsIdle_iff {action : HttpLoopAction} : s.findsIdle action = true ↔ ∀ id connection,
    s.checked action = some id → s.connections id = some connection → connection.state = .kConnected →
      s.isIdle connection = true := by
  rw [findsIdle]
  split
  · next id hchecked =>
    split
    · next connection hlive =>
      rw [decide_eq_true_iff]
      refine ⟨fun hidle other found hother hfound => ?_, fun hall => hall id connection hchecked hlive⟩
      obtain rfl := Option.some.inj (hchecked.symm.trans hother)
      obtain rfl := Option.some.inj (hlive.symm.trans hfound)
      exact hidle
    · next hnone =>
      refine iff_of_true rfl fun other found hother hfound => ?_
      obtain rfl := Option.some.inj (hchecked.symm.trans hother)
      cases hnone.symm.trans hfound
  · next hnone => exact iff_of_true rfl fun other found hother => by cases hnone.symm.trans hother

/-- Every step keeps the connections under watch unless it checks one that is not idle. -/
theorem watched_step (hauto : server.autoCloseIdleconnection = true) (h : OneCheck s.timerQueue s.established)
    (hwatched : s.Watched) {action : HttpLoopAction} (hstep : server.loopStep s action = some s') :
    s'.Watched ↔ s.findsIdle action = true := by
  cases loopEffect_of_step hauto h.owned hstep with
  | connectionEstablished connection step =>
    refine iff_of_true (fun id found hlive hconnected => ?_) rfl
    have hchecks := checks_addTimer h.owned step
    rcases eq_or_ne id s.established with rfl | hne
    · exact ⟨_, (hchecks _ _).mpr (Or.inl ⟨rfl, rfl⟩)⟩
    · simp only [Function.update_of_ne hne] at hlive
      obtain ⟨timer, hcheck⟩ := hwatched id found hlive hconnected
      exact ⟨timer, (hchecks timer id).mpr (Or.inr hcheck)⟩
  | @connection checked event before after live connected =>
    refine iff_of_true (fun id found hlive hconnected => ?_) rfl
    rcases eq_or_ne id checked with rfl | hne
    · simp only [Function.update_self] at hlive
      obtain rfl := Option.some.inj hlive
      exact hwatched id before live (connected hconnected)
    · simp only [Function.update_of_ne hne] at hlive
      exact hwatched id found hlive hconnected
  | @destroyed destroyed =>
    refine iff_of_true (fun id found hlive hconnected => ?_) rfl
    rcases eq_or_ne id destroyed with rfl | hne
    · simp at hlive
    · simp only [Function.update_of_ne hne] at hlive
      exact hwatched id found hlive hconnected
  | otherTimer step =>
    refine iff_of_true (fun id found hlive hconnected => ?_) rfl
    obtain ⟨timer, hcheck⟩ := hwatched id found hlive hconnected
    exact ⟨timer, (checks_addTimer h.owned step timer id).mpr (Or.inr hcheck)⟩
  | @timers action queue after makes step connections =>
    have hchecks := checks_step h makes step
    rw [findsIdle_iff]
    constructor
    · intro hstays id connection hchecked hlive hconnected
      -- Otherwise the connection stays open, and its only check is over.
      by_contra hactive
      have hafter : after id = some connection := by simp [connections, hlive, hactive]
      obtain ⟨timer, hcheck⟩ := hstays id connection hafter hconnected
      exact ((hchecks timer id).mp hcheck).2 hchecked
    · intro hidle id found hafter hconnected
      obtain ⟨connection, hlive, hfound⟩ := Option.map_eq_some_iff.mp ((connections id).symm.trans hafter)
      split at hfound
      · subst hfound
        cases (Session.sameInput_shutdown connection).state.symm.trans hconnected
      · next hnot =>
        subst hfound
        obtain ⟨timer, hcheck⟩ := hwatched id connection hlive hconnected
        refine ⟨timer, (hchecks timer id).mpr ⟨hcheck, fun hchecked => hnot ⟨hchecked, ?_⟩⟩⟩
        exact hidle id connection hchecked hlive hconnected

/-- There is no check at first. -/
theorem oneCheck_new (wall monotonic : ℤ) : OneCheck (.new wall monotonic) 0 := by
  have hnone (timer id : ℕ) : ¬ Checks (.new wall monotonic) timer id := by
    rintro ⟨found, hfound, -⟩
    cases TimerQueue.heap_of_pending hfound
  exact ⟨TimerQueue.owned_new wall monotonic, fun _ _ _ hlive => (by cases hlive),
    fun timer id hcheck => absurd hcheck (hnone timer id), fun timer _ id hcheck => absurd hcheck (hnone timer id)⟩

/-- With `auto_close_idleconnection_` on, every connection that is neither shut down nor closed has
a pending check at every point of a run if and only if every check in the run of such a
connection finds it idle. -/
theorem watched_iff (hauto : server.autoCloseIdleconnection = true) {wall monotonic : ℤ}
    {actions : List HttpLoopAction}
    {t : HttpLoop} (hrun : run server.loopStep (new wall monotonic) actions = some t) :
    (∀ first m, first <+: actions → run server.loopStep (new wall monotonic) first = some m → m.Watched) ↔
      Meets server.loopStep (fun s action => s.findsIdle action = true) (new wall monotonic) actions := by
  have hwatched : (new wall monotonic).Watched := fun id connection hlive => (by cases hlive)
  exact throughout_iff_meets (I := fun s => OneCheck s.timerQueue s.established) (oneCheck_step hauto)
    (fun s action s' h hwatched hstep => watched_step hauto h hwatched hstep) (oneCheck_new wall monotonic) hwatched
    hrun

/-- A connection is established, sends a byte after some microseconds, and its check runs at the
other time. -/
def checkRun (message check : ℕ) : List HttpLoopAction :=
  [.connectionEstablished 5 0 (.new .kGet .kUnknown) .new 8 true, .timers .addTimerInLoop,
    .timers (.clock message message),
    .connection 0 (.readable (some (ascii "G")) ⟨0, .wouldBlock, .wouldBlock, 0, .kGet, .kUnknown⟩),
    .timers (.clock check (check - message)), .timers .handleRead, .timers .next, .timers .next, .timers .next,
    .timers .next]

/-- A check which finds the connection idle shuts it down. -/
theorem watched_checkRun : ∃ s,
    run (HttpServer.defaultServer true).loopStep (new 0 0) (checkRun 1000000 9500000) = some s ∧ s.Watched := by
  have hends : (run (HttpServer.defaultServer true).loopStep (new 0 0) (checkRun 1000000 9500000)).isSome := by
    decide +kernel
  obtain ⟨s, hrun⟩ := Option.isSome_iff_exists.mp hends
  have hidle : Meets (HttpServer.defaultServer true).loopStep (fun s action => s.findsIdle action = true) (new 0 0)
      (checkRun 1000000 9500000) := by decide +kernel
  exact ⟨s, hrun, (watched_iff rfl hrun).mpr hidle _ s (List.prefix_refl _) hrun⟩

/-- A connection which was active five seconds after it was established is not watched once its
check has run. -/
theorem not_watched_checkRun : ¬ ∀ actions t, run (HttpServer.defaultServer true).loopStep
    (new 0 0) actions = some t →
    t.timerQueue.position = .outside → t.Watched := by
  intro hall
  have hends : (run (HttpServer.defaultServer true).loopStep (new 0 0) (checkRun 5000000 8000000)).map (fun s =>
      (s.timerQueue.waiting, s.timerQueue.position, (s.connections 0).map fun connection => connection.state)) =
        some ([], .outside, some .kConnected) := by decide +kernel
  obtain ⟨t, hrun, ht⟩ := Option.map_eq_some_iff.mp hends
  obtain ⟨hwaiting, hrest⟩ := Prod.mk.inj ht
  obtain ⟨houtside, hconnection⟩ := Prod.mk.inj hrest
  obtain ⟨connection, hlive, hconnected⟩ := Option.map_eq_some_iff.mp hconnection
  obtain ⟨timer, found, hpending, -⟩ := hall _ t hrun houtside 0 connection hlive hconnected
  rw [TimerQueue.pending, hwaiting] at hpending
  cases hpending

end HttpLoop

end WebServer.Http
