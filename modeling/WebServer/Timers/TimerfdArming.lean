import WebServer.Timers.TimerOwnership

/-!
# The kernel timer wakes the loop in time

Outside of `HandleRead`, while there are timers, the timer descriptor is readable or armed for
the first of them. It is set whenever the first entry moves forward, and at the end of
`HandleRead`; in between it may be off, because the entries in front have been taken out. The
deadline is a time of the monotonic clock, so it is compared with the entries under the
assumption that both clocks advance together. `ResetTimer` computes the time until the expiration in
`int64_t`: for an expiration that is more than `2^63` microseconds ago the difference becomes positive, and
the timer descriptor is armed for a time in the far future.
-/

namespace WebServer.Timers

open WebServer.Foundation

variable {κ : Type}

/-- A value which `timerfd_settime` accepts and which arms the timer. -/
structure Itimerspec.Arms (value : Itimerspec) : Prop where
  nonzero : value ≠ ⟨0, 0⟩
  nsec_nonneg : 0 ≤ value.nsec
  nsec_lt : value.nsec < 1000000000

namespace TimerQueue

/-- The timer descriptor is readable, or armed for a time which is not behind the entry and not
behind 100 microseconds after the last call of `ResetTimer`. -/
def ArmedFor (s : TimerQueue κ) (first : TimerPair) : Prop :=
  s.timerfd.unread = true ∨ ∃ deadline now value, s.timerfd.deadline = some deadline ∧
    s.settimes.getLast? = some (now, value) ∧ deadline + (s.wall - s.monotonic) ≤ max first.timestamp (now + 100)

/-- The invariant: outside of `HandleRead` the first entry is waited for. -/
structure Armed (s : TimerQueue κ) : Prop where
  first : s.position = .outside → ∀ first, s.timers.first = some first → s.ArmedFor first
  values : ∀ call ∈ s.settimes, call.2.Arms

/-- Both clocks advance by the same amount. -/
def clocksAgree (s : TimerQueue κ) : TimerAction κ → Bool
  | .clock wall elapsed => wall - s.wall = elapsed
  | _ => true

/-- The timer for which `ResetTimer` is called in a step. -/
def resetsTimer (s : TimerQueue κ) : TimerAction κ → Option (Timer κ)
  | .addTimerInLoop => (s.adding.bind s.heap).filter s.resetInstantly
  | .next =>
    match s.position with
    | .resetting [] => s.timers.first.bind fun first => s.heap first.timer
    | _ => none
  | _ => none

/-- The expiration for which `ResetTimer` is called is not so long ago that the difference leaves `int64_t`. -/
def DifferenceFits (s : TimerQueue κ) (action : TimerAction κ) : Prop :=
  ∀ timer ∈ s.resetsTimer action, -9223372036854775808 ≤ timer.expiration - s.wall

instance (s : TimerQueue κ) (action : TimerAction κ) : Decidable (s.DifferenceFits action) :=
  inferInstanceAs (Decidable (∀ timer ∈ s.resetsTimer action, _))

/-- The time until the expiration which the value stands for. -/
theorem timerValue_duration (expiration now : ℤ) :
    (timerValue expiration now).sec * kMicrosecond2Second + (timerValue expiration now).nsec / 1000 =
      max (wrap64 (expiration - now)) 100 ∧ (timerValue expiration now).Arms := by
  have hsecond : kMicrosecond2Second = 1000000 := rfl
  obtain ⟨dif, hdif, hmax, hpos⟩ : ∃ dif,
      (if wrap64 (expiration - now) < 100 then 100 else wrap64 (expiration - now)) = dif ∧
        dif = max (wrap64 (expiration - now)) 100 ∧ 100 ≤ dif := ⟨_, rfl, by split <;> omega, by split <;> omega⟩
  have hvalue : timerValue expiration now = ⟨dif / 1000000, dif % 1000000 * 1000⟩ := by
    rw [timerValue, hdif, hsecond, Int.tdiv_eq_ediv_of_nonneg (by omega), Int.tmod_eq_emod_of_nonneg (by omega)]
  rw [hvalue, hsecond, ← hmax]
  refine ⟨?_, fun hzero => ?_, ?_, ?_⟩
  · change dif / 1000000 * 1000000 + dif % 1000000 * 1000 / 1000 = dif
    omega
  · obtain ⟨hsec, hnsec⟩ := Itimerspec.mk.inj hzero
    omega
  · change 0 ≤ dif % 1000000 * 1000
    omega
  · change dif % 1000000 * 1000 < 1000000000
    omega

/-- `ResetTimer` arms the timer for the difference, but not earlier than 100 microseconds from now. -/
theorem resetTimer_armed (s : TimerQueue κ) (timer : Timer κ) :
    (s.resetTimer timer).timerfd = ⟨some (s.monotonic + max (wrap64 (timer.expiration - s.wall)) 100), false⟩ := by
  obtain ⟨hduration, harms⟩ := timerValue_duration timer.expiration s.wall
  rw [resetTimer, Timerfd.settime, if_neg harms.nonzero, hduration]

/-- After `ResetTimer` of the first entry the timer descriptor is armed for it. -/
theorem armedFor_resetTimer (s : TimerQueue κ) {timer : Timer κ} {first : TimerPair}
    (h : timer.expiration = first.timestamp) (hfits : -9223372036854775808 ≤ timer.expiration - s.wall) :
    (s.resetTimer timer).ArmedFor first := by
  refine Or.inr ⟨s.monotonic + max (wrap64 (timer.expiration - s.wall)) 100, s.wall,
    timerValue timer.expiration s.wall, ?_, List.getLast?_concat, ?_⟩
  · rw [resetTimer_armed]
  · change s.monotonic + max (wrap64 (timer.expiration - s.wall)) 100 + (s.wall - s.monotonic) ≤
      max first.timestamp (s.wall + 100)
    have hwrapped := wrap64_le hfits
    rw [← h]
    omega

/-- `ResetTimer` passes values that arm the timer. -/
theorem values_resetTimer {s : TimerQueue κ} (h : ∀ call ∈ s.settimes, call.2.Arms) (timer : Timer κ) :
    ∀ call ∈ (s.resetTimer timer).settimes, call.2.Arms := by
  intro call hmem
  rcases List.mem_append.mp hmem with hold | hnew
  · exact h call hold
  · obtain rfl := List.mem_singleton.mp hnew
    exact (timerValue_duration timer.expiration s.wall).2

/-- When the clocks advance together, the timer descriptor stays armed for an entry, or becomes readable. -/
theorem ArmedFor.clock {s : TimerQueue κ} {first : TimerPair} (h : s.ArmedFor first) {wall : ℤ} {elapsed : ℕ}
    (hagree : wall - s.wall = elapsed) : (s.clock wall elapsed).ArmedFor first := by
  rcases h with hunread | ⟨deadline, now, value, hdeadline, hlast, hbound⟩
  · refine Or.inl ?_
    change (s.timerfd.advance (s.monotonic + elapsed)).unread = true
    rw [Timerfd.advance]
    split
    · split
      · rfl
      · exact hunread
    · exact hunread
  · have hadvance : (s.clock wall elapsed).timerfd =
        if deadline ≤ s.monotonic + elapsed then ⟨none, true⟩ else s.timerfd := by
      simp only [TimerQueue.clock, Timerfd.advance, hdeadline]
    by_cases hreached : deadline ≤ s.monotonic + elapsed
    · refine Or.inl ?_
      rw [hadvance, if_pos hreached]
    · refine Or.inr ⟨deadline, now, value, ?_, hlast, ?_⟩
      · rw [hadvance, if_neg hreached, hdeadline]
      · change deadline + (wall - (s.monotonic + elapsed)) ≤ max first.timestamp (now + 100)
        omega

/-- An entry that expires at the same time is waited for in the same way. -/
theorem ArmedFor.congr {s s' : TimerQueue κ} {first first' : TimerPair} (h : s.ArmedFor first)
    (htimestamp : first'.timestamp = first.timestamp) (htimerfd : s'.timerfd = s.timerfd)
    (hsettimes : s'.settimes = s.settimes) (hwall : s'.wall = s.wall) (hmonotonic : s'.monotonic = s.monotonic) :
    s'.ArmedFor first' := by
  rw [ArmedFor, htimestamp, htimerfd, hsettimes, hwall, hmonotonic]
  exact h

/-- `AddTimerInLoop` arms the timer descriptor for the timer if this becomes the first one. -/
theorem Armed.addTimerInLoop {s : TimerQueue κ} (h : Armed s) {address : ℕ} {timer : Timer κ}
    (hlive : s.heap address = some timer)
    (hfits : s.resetInstantly timer = true → -9223372036854775808 ≤ timer.expiration - s.wall) :
    Armed (s.addTimerInLoop address) := by
  have hinserted : (s.timers.insert ⟨timer.expiration, address⟩).first =
      some (s.timers.first.elim ⟨timer.expiration, address⟩ (min ⟨timer.expiration, address⟩)) :=
    s.timers.first_insert _
  rw [TimerQueue.addTimerInLoop, withTimer_of_live hlive]
  split
  · next hinstantly =>
    have hreset := hinstantly
    have hfirst : (s.timers.insert ⟨timer.expiration, address⟩).first = some ⟨timer.expiration, address⟩ := by
      rw [hinserted]
      rw [resetInstantly] at hreset
      split at hreset
      · next hempty => rw [hempty, Option.elim_none]
      · next old hold =>
        have hless : (⟨timer.expiration, address⟩ : TimerPair) < old :=
          TimerPair.lt_iff.mpr (Or.inl (of_decide_eq_true hreset))
        rw [hold, Option.elim_some, min_eq_left hless.le]
    refine ⟨fun _ first hsome => ?_, values_resetTimer h.values timer⟩
    obtain rfl := Option.some.inj (hfirst.symm.trans hsome)
    exact armedFor_resetTimer (s.insert address timer) rfl (hfits hinstantly)
  · next hkeep =>
    refine ⟨fun houtside first hsome => ?_, h.values⟩
    rw [resetInstantly] at hkeep
    split at hkeep
    · exact absurd rfl hkeep
    · next old hold =>
      have hfirst : first = min ⟨timer.expiration, address⟩ old := by
        have hnow := hinserted.symm.trans hsome
        rw [hold, Option.elim_some] at hnow
        exact (Option.some.inj hnow).symm
      have hlater : old.timestamp ≤ timer.expiration := not_lt.mp fun hless => hkeep (decide_eq_true hless)
      have htimestamp : first.timestamp = old.timestamp := by
        rcases le_total (⟨timer.expiration, address⟩ : TimerPair) old with hle | hle
        · rw [hfirst, min_eq_left hle]
          exact le_antisymm (TimerPair.timestamp_le_of_le hle) hlater
        · rw [hfirst, min_eq_right hle]
      exact (h.first houtside old hold).congr htimestamp rfl rfl rfl rfl

/-- The end of `ResetTimers` arms the timer descriptor for the first entry. -/
theorem armed_resetFirst {s : TimerQueue κ} (hinStep : InStep s.heap s.timers.elements)
    (hfits : ∀ timer ∈ s.timers.first.bind fun first => s.heap first.timer,
      -9223372036854775808 ≤ timer.expiration - s.wall)
    (hvalues : ∀ call ∈ s.settimes, call.2.Arms) : Armed s.resetFirst := by
  rw [resetFirst]
  cases hfirst : s.timers.first with
  | none => exact ⟨fun _ first hsome => (by rw [hfirst] at hsome; cases hsome), hvalues⟩
  | some first =>
    obtain ⟨timer, hlive, hexpiration⟩ := hinStep first (List.mem_of_head? hfirst)
    simp only [withTimer_of_live hlive]
    refine ⟨fun _ first' hsome => ?_, values_resetTimer hvalues timer⟩
    obtain rfl := Option.some.inj (hfirst.symm.trans hsome)
    have hreset : timer ∈ s.timers.first.bind fun first => s.heap first.timer := by
      rw [hfirst]
      exact hlive
    exact armedFor_resetTimer s hexpiration (hfits timer hreset)

/-- Every step at which the clocks agree, and the difference fits, keeps the timer descriptor armed. -/
theorem armed_step (s : TimerQueue κ) (action : TimerAction κ) (s' : TimerQueue κ) (h : Owned s ∧ Armed s)
    (hmeets : s.clocksAgree action = true ∧ s.DifferenceFits action) (hstep : s.step action = some s') :
    Owned s' ∧ Armed s' := by
  obtain ⟨howned, harmed⟩ := h
  obtain ⟨hagree, hfits⟩ := hmeets
  refine ⟨owned_step s action s' howned hstep, ?_⟩
  have hinside {t : TimerQueue κ} (hposition : t.position ≠ .outside)
    (hvalues : t.settimes = s.settimes) : Armed t :=
    ⟨fun houtside => absurd houtside hposition, hvalues ▸ harmed.values⟩
  cases stepped_of_step hstep with
  | clock wall elapsed =>
    exact ⟨fun houtside first hfirst => (harmed.first houtside first hfirst).clock (of_decide_eq_true hagree),
      harmed.values⟩
  | @addTimer address inThreadLoop request callback fresh bound free =>
    cases inThreadLoop <;> exact ⟨harmed.first, harmed.values⟩
  | runQueued queued outside free => exact ⟨harmed.first, harmed.values⟩
  | @addTimerInLoop address adding =>
    obtain ⟨timer, hlive⟩ := howned.holds.exists_object (i := address) (by simp [held, adding])
    refine Armed.addTimerInLoop (s := { s with adding := none })
      ⟨harmed.first, harmed.values⟩ hlive fun hreset => ?_
    apply hfits timer
    rw [resetsTimer, adding, Option.bind_some, hlive]
    exact Option.mem_filter_iff.mpr ⟨rfl, hreset⟩
  | handleRead outside free => exact hinside (by simp [TimerQueue.handleRead]) rfl
  | runCallback running free =>
    obtain ⟨timer, hlive, hrun, -⟩ := howned.runCallback running
    rw [hrun]
    exact hinside (by simp) rfl
  | allRun running free => exact hinside (by simp) rfl
  | resetOne resetting free =>
    obtain ⟨timer, hlive, hreset, -⟩ := howned.resetting resetting
    rw [hreset, afterReset]
    split
    · exact hinside (by simp) rfl
    · exact hinside (by simp) rfl
  | allReset resetting free =>
    refine armed_resetFirst (fun pair hmem => howned.inStep pair (List.mem_append_left _ hmem)) ?_ harmed.values
    intro timer hmem
    apply hfits timer
    rw [resetsTimer, resetting]
    exact hmem

/-- In every run in which the wall clock and the monotonic clock advance together and `ResetTimer` is not
called for an expiration more than `2^63` microseconds ago, while there are timers the timer descriptor is
readable or armed for the first of them whenever the loop is not in `HandleRead`, and every value passed to
`timerfd_settime` arms the timer. -/
theorem armed_run {wall monotonic : ℤ} {actions : List (TimerAction κ)} {s : TimerQueue κ}
    (hmeets : Meets step (fun s action => s.clocksAgree action = true ∧ s.DifferenceFits action)
      (new wall monotonic)
      actions)
    (hrun : run step (new wall monotonic) actions = some s) :
    (s.position = .outside → ∀ first, s.timers.first = some first → s.ArmedFor first) ∧
      ∀ call ∈ s.settimes, call.2.Arms := by
  have hnew : Armed (new wall monotonic : TimerQueue κ) :=
    ⟨fun _ _ hfirst => (by cases hfirst), fun _ hmem => (by cases hmem)⟩
  obtain ⟨-, harmed⟩ := run_invariant_of_meets armed_step ⟨owned_new wall monotonic, hnew⟩ hmeets hrun
  exact ⟨harmed.first, harmed.values⟩

/-- A run in which a timer is added in front of another one, both expire, and one is restarted. -/
def frontRun : List (TimerAction Unit) :=
  [.addTimer 8 true (.runAfter 2) (), .addTimerInLoop, .addTimer 16 true (.runEvery 1) (), .addTimerInLoop,
    .clock 3000000 2000000, .handleRead, .next, .next, .next, .next, .next, .next]

/-- The timer descriptor is armed for the restarted timer. -/
theorem armed_frontRun : ∃ s : TimerQueue Unit, run step (new 1000000 0) frontRun = some s ∧
    s.ArmedFor ⟨4000000, 16⟩ ∧ ∀ call ∈ s.settimes, call.2.Arms := by
  have hend : (run step (new 1000000 0) frontRun).map (fun s => (s.position, s.timers.first)) =
      some (.outside, some ⟨4000000, 16⟩) := by decide +kernel
  obtain ⟨s, hrun, hs⟩ := Option.map_eq_some_iff.mp hend
  have hmeets : Meets step (fun s action => s.clocksAgree action = true ∧ s.DifferenceFits action) (new 1000000 0)
      frontRun := by decide +kernel
  obtain ⟨hfirst, hvalues⟩ := armed_run hmeets hrun
  exact ⟨s, hrun, hfirst (Prod.mk.inj hs).1 _ (Prod.mk.inj hs).2, hvalues⟩

/-- A timer for the earliest timestamp is overdue, and the timer descriptor is armed for the latest time. -/
theorem not_armed_earliest : ∃ s : TimerQueue Unit,
    run step (new 1 0) [.addTimer 8 true (.runAt (-9223372036854775808)) (), .addTimerInLoop] = some s ∧
      s.position = .outside ∧ ∃ first, s.timers.first = some first ∧ ¬ s.ArmedFor first := by
  have hend : (run step (new 1 0) [.addTimer 8 true (.runAt (-9223372036854775808)) (), .addTimerInLoop]).map
      (fun s => ((s.position, s.timers.first), (s.timerfd, s.settimes.map Prod.fst), (s.wall, s.monotonic))) =
        some ((.outside, some ⟨-9223372036854775808, 8⟩), (⟨some 9223372036854775807, false⟩, [1]), (1, 0)) := by
    decide +kernel
  obtain ⟨s, hrun, hs⟩ := Option.map_eq_some_iff.mp hend
  simp only [Prod.mk.injEq] at hs
  obtain ⟨⟨houtside, hfirst⟩, ⟨htimerfd, hsettimes⟩, hwall, hmonotonic⟩ := hs
  refine ⟨s, hrun, houtside, _, hfirst, ?_⟩
  rintro (hunread | ⟨deadline, now, value, hdeadline, hlast, hbound⟩)
  · rw [htimerfd] at hunread
    cases hunread
  · have hnow : some now = some 1 := by
      have hlasts := congrArg List.getLast? hsettimes
      rw [List.getLast?_map, hlast] at hlasts
      exact hlasts
    obtain rfl := Option.some.inj hnow
    rw [htimerfd] at hdeadline
    obtain rfl := Option.some.inj hdeadline
    rw [hwall, hmonotonic] at hbound
    exact absurd hbound (by decide)

end TimerQueue

end WebServer.Timers
