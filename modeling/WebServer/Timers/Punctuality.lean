import Mathlib.Data.List.Chain
import Mathlib.Data.Rat.Floor
import WebServer.Timers.PendingTimers

/-!
# How early a callback can run

`HandleRead` runs a callback only when the expiration of its timer has been reached, and the
expiration is computed from the clock reading at the request or at the restart. `AddTime` cuts
the delay to whole seconds and adds it in `int64_t`, so delays with a fraction of a second are not kept,
and neither are delays for which the sum does not fit.
-/

namespace WebServer.Timers

open WebServer.Foundation

variable {κ : Type}

/-- The microseconds of the whole seconds of a delay. -/
def addMicroseconds (addSeconds : ℚ) : ℤ := addSeconds.num.tdiv addSeconds.den * kMicrosecond2Second

/-- Nothing is taken away for a positive delay. -/
theorem addMicroseconds_nonneg {d : ℚ} (hd : 0 < d) : 0 ≤ addMicroseconds d :=
  mul_nonneg (Int.tdiv_nonneg (Rat.num_pos.mpr hd).le (by positivity)) (by decide)

/-- A whole number of seconds is kept, and the fraction of a second is lost. -/
theorem addMicroseconds_spec {d : ℚ} (hd : 0 < d) : (addMicroseconds d : ℚ) ≤ d * kMicrosecond2Second ∧
    ((∃ seconds : ℕ, d = seconds) ↔ (addMicroseconds d : ℚ) = d * kMicrosecond2Second) := by
  have hfloor : addMicroseconds d = ⌊d⌋ * kMicrosecond2Second := by
    rw [addMicroseconds, Rat.floor_def', Int.tdiv_eq_ediv_of_nonneg (Rat.num_pos.mpr hd).le]
  have hsecond : (kMicrosecond2Second : ℚ) = 1000000 := by norm_num [kMicrosecond2Second]
  have hle := Int.floor_le d
  rw [hfloor, Int.cast_mul, hsecond]
  refine ⟨by linarith, ?_, fun hkept => ?_⟩
  · rintro ⟨seconds, rfl⟩
    rw [Int.floor_natCast, Int.cast_natCast]
  · obtain ⟨seconds, hseconds⟩ := Int.eq_ofNat_of_zero_le (Int.floor_nonneg.mpr hd.le)
    refine ⟨seconds, ?_⟩
    rw [hseconds, Int.cast_natCast] at hkept
    linarith

/-- While the sum fits an `int64_t`, the whole seconds are added. -/
theorem addTime_eq {now : ℤ} {d : ℚ} (hd : 0 < d) (hnow : -9223372036854775808 ≤ now)
    (hfits : now + addMicroseconds d < 9223372036854775808) (hproduct : addMicroseconds d < 9223372036854775808) :
    addTime now d = now + addMicroseconds d := by
  have hadded := addMicroseconds_nonneg hd
  have hsecond : kMicrosecond2Second = 1000000 := rfl
  have hseconds : wrap64 (d.num.tdiv d.den) = d.num.tdiv d.den := by
    rw [addMicroseconds, hsecond] at hproduct hadded
    exact wrap64_eq (by omega) (by omega)
  rw [addTime, hseconds, ← addMicroseconds, wrap64_eq (by omega) hproduct, wrap64_eq (by omega) hfits]

/-- A delay with a fraction of a second, and one for which the sum does not fit, are not added in full. -/
theorem addTime_lt {latest : ℤ} {d : ℚ} (hd : 0 < d) (hlatest : 0 ≤ latest)
    (hlost : ¬ ((∃ seconds : ℕ, d = seconds) ∧ latest + d * kMicrosecond2Second < 9223372036854775808)) :
    (addTime latest d : ℚ) < latest + d * kMicrosecond2Second := by
  obtain ⟨hle, hwhole⟩ := addMicroseconds_spec hd
  have hadded := addMicroseconds_nonneg hd
  by_cases hfits : latest + addMicroseconds d < 9223372036854775808
  · rw [addTime_eq hd (by omega) hfits (by omega), Int.cast_add]
    refine add_lt_add_right (lt_of_le_of_ne hle fun hkept => hlost ⟨hwhole.mpr hkept, ?_⟩) _
    rw [← hkept]
    exact_mod_cast hfits
  · have hlarge : (9223372036854775808 : ℚ) ≤ latest + addMicroseconds d := by exact_mod_cast not_lt.mp hfits
    have hwrapped : (addTime latest d : ℚ) < 9223372036854775808 := by exact_mod_cast wrap64_lt _
    linarith

/-- The timestamp of a request with a delay. -/
theorem TimerRequest.timestamp_of_wait {request : TimerRequest} {wait : ℚ} (h : request.wait = some wait)
    (now : ℤ) :
    request.timestamp now = addTime now wait := by
  cases request with
  | runAt timestamp => cases h
  | runAfter waitTime => exact Option.some.inj h ▸ rfl
  | runEvery interval => exact Option.some.inj h ▸ rfl

/-- A timer that repeats does so with the delay of its request. -/
theorem TimerRequest.interval_of_wait {request : TimerRequest} {wait : ℚ} (h : request.wait = some wait)
    (hrepeats : 0 < request.interval) : request.interval = wait := by
  cases request with
  | runAt timestamp => cases h
  | runAfter waitTime => exact absurd hrepeats (lt_irrefl 0)
  | runEvery interval => exact Option.some.inj h

namespace TimerQueue

/-- The times when the callback of a timer was run. -/
def runTimes (s : TimerQueue κ) (number : ℕ) : List ℤ := (s.ran.filter (·.1 = number)).map Prod.snd

/-- The callbacks registered for this delay were not run early. -/
structure OnTime (s : TimerQueue κ) (d : ℚ) : Prop where
  runAfter : ∀ (number : ℕ) (now : ℤ), s.requests[number]? = some (now, .runAfter d) →
    ∀ time ∈ s.runTimes number, now + d * kMicrosecond2Second ≤ time
  runEvery : ∀ (number : ℕ) (now : ℤ), s.requests[number]? = some (now, .runEvery d) →
    (now :: s.runTimes number).IsChain fun earlier later : ℤ => earlier + d * kMicrosecond2Second ≤ later

/-- The clock is not set back. -/
def clockAdvances (s : TimerQueue κ) : TimerAction κ → Bool
  | .clock wall _ => s.wall ≤ wall
  | _ => true

/-- The clock shows a time up to the given one when `AddTime` is called for this delay. -/
def addsBy (latest : ℤ) (d : ℚ) (s : TimerQueue κ) (action : TimerAction κ) : Prop :=
  s.addsTime action = some d → -9223372036854775808 ≤ s.wall ∧ s.wall ≤ latest

instance (latest : ℤ) (d : ℚ) (s : TimerQueue κ) (action : TimerAction κ) : Decidable (addsBy latest d s action) :=
  inferInstanceAs (Decidable (_ → _))

/-- Callbacks registered for this delay are never run early while the clock is not set back, where they are
registered, and registered again, up to the given time. -/
def Punctual (κ : Type) (d : ℚ) (latest : ℤ) : Prop :=
  ∀ (wall monotonic : ℤ) (actions : List (TimerAction κ)) (s : TimerQueue κ),
    Meets step (fun s action => s.clockAdvances action = true ∧ addsBy latest d s action)
      (new wall monotonic) actions →
      run step (new wall monotonic) actions = some s → s.OnTime d

/-- The entries that are being run are due, and the live timers are as they were requested. -/
structure AsRequested (s : TimerQueue κ) : Prop where
  due : ∀ pair ∈ s.position.toRun, pair.timestamp ≤ s.wall
  requested : ∀ address timer, s.heap address = some timer → ∃ now request,
    s.requests[timer.number]? = some (now, request) ∧ timer.interval = request.interval ∧
      timer.repeats = decide (0 < request.interval)

/-- What happened to a timer is in the past. -/
structure Recorded (s : TimerQueue κ) : Prop where
  made : ∀ callback ∈ s.ran, callback.1 < s.requests.length
  past : ∀ number now request, s.requests[number]? = some (now, request) →
    ∀ time ∈ now :: s.runTimes number, time ≤ s.wall

/-- The invariant for a delay: what happened to a timer is spaced by its delay, and so is the expiration of a timer
whose callback is still to be run. -/
structure Paced (d : ℚ) (s : TimerQueue κ) : Prop where
  spaced : ∀ number now request, s.requests[number]? = some (now, request) → request.wait = some d →
    (now :: s.runTimes number).Pairwise fun earlier later => earlier + addMicroseconds d ≤ later
  waits : ∀ address timer now request, s.pending address = some timer →
    s.requests[timer.number]? = some (now, request) → request.wait = some d →
      ∀ time ∈ now :: s.runTimes timer.number, time + addMicroseconds d ≤ timer.expiration

/-- The clock is not behind after a step. -/
theorem wall_le_of_step {s s' : TimerQueue κ} {action : TimerAction κ} (h : Owned s)
    (hadvances : s.clockAdvances action = true) (hstep : s.step action = some s') : s.wall ≤ s'.wall := by
  cases effect_of_step h hstep with
  | clock wall elapsed => exact of_decide_eq_true hadvances
  | @addTimer address inThreadLoop => cases inThreadLoop <;> exact le_rfl
  | _ => exact le_rfl

/-- Every step keeps the timers as they were requested. -/
theorem AsRequested.step {s s' : TimerQueue κ} {action : TimerAction κ} (howned : Owned s) (h : AsRequested s)
    (hadvances : s.clockAdvances action = true) (hstep : s.step action = some s') : AsRequested s' := by
  refine ⟨fun pair hmem => ?_, fun address timer hlive => ?_⟩
  · cases effect_of_step howned hstep with
    | clock wall elapsed => exact (h.due pair hmem).trans (of_decide_eq_true hadvances)
    | @addTimer address inThreadLoop => cases inThreadLoop <;> exact h.due pair hmem
    | runQueued queued outside free => exact h.due pair hmem
    | addTimerInLoop adding live timerfd settimes => exact h.due pair hmem
    | handleRead outside free => exact TimerPair.timestamp_le_of_le (OrderedSet.mem_below.mp hmem).2.le
    | runCallback running free live =>
      refine h.due pair ?_
      rw [running]
      exact List.mem_cons_of_mem _ hmem
    | _ => cases hmem
  · rcases live_of_step howned hstep hlive with ⟨before, expiration, hbefore, rfl⟩ |
      ⟨inThreadLoop, request, callback, rfl, rfl⟩
    · obtain ⟨now, request, hfound, hmatch⟩ := h.requested address before hbefore
      refine ⟨now, request, ?_, hmatch⟩
      obtain ⟨added, hadded⟩ := requests_of_step howned hstep
      rw [← hadded, List.getElem?_append_left (List.getElem?_eq_some_iff.mp hfound).1, hfound]
    · cases pendingChange_of_step howned hstep with
      | stays makes pending requests ran firing => cases makes
      | made fresh pending requests ran =>
        refine ⟨s.wall, request, ?_, rfl, rfl⟩
        rw [requests]
        exact List.getElem?_concat_length

/-- A callback of a timer adds to the times of this timer. -/
theorem runTimes_self {s s' : TimerQueue κ} {number : ℕ} {time : ℤ} (h : s'.ran = s.ran ++ [(number, time)]) :
    s'.runTimes number = s.runTimes number ++ [time] := by
  simp [runTimes, h]

/-- A callback of a timer does not concern the others. -/
theorem runTimes_of_ne {s s' : TimerQueue κ} {number other : ℕ} {time : ℤ} (h : s'.ran = s.ran ++ [(number, time)])
    (hne : other ≠ number) : s'.runTimes other = s.runTimes other := by
  simp [runTimes, h, hne.symm]

/-- Where no callback is run the times stay. -/
theorem runTimes_congr {s s' : TimerQueue κ} (hran : s'.ran = s.ran) (number : ℕ) :
    s'.runTimes number = s.runTimes number := by
  rw [runTimes, runTimes, hran]

/-- The callback of a timer that is made next has not been run. -/
theorem Recorded.runTimes_new {s : TimerQueue κ} (h : Recorded s) : s.runTimes s.requests.length = [] := by
  rw [runTimes, List.map_eq_nil_iff, List.filter_eq_nil_iff]
  intro callback hmem
  simpa using (h.made callback hmem).ne

/-- While no request is made and no callback is run, only the clock matters. -/
theorem Recorded.still {s s' : TimerQueue κ} (h : Recorded s) (hwall : s.wall ≤ s'.wall)
    (hrequests : s'.requests = s.requests) (hran : s'.ran = s.ran) : Recorded s' := by
  refine ⟨?_, fun number now request hfound time hmem => ?_⟩
  · rw [hran, hrequests]
    exact h.made
  · rw [hrequests] at hfound
    rw [runTimes_congr hran] at hmem
    exact (h.past number now request hfound time hmem).trans hwall

/-- Every step puts down the present time. -/
theorem Recorded.step {s s' : TimerQueue κ} {action : TimerAction κ} (howned : Owned s) (h : Recorded s)
    (hadvances : s.clockAdvances action = true) (hstep : s.step action = some s') : Recorded s' := by
  have hwall := wall_le_of_step howned hadvances hstep
  cases pendingChange_of_step howned hstep with
  | stays makes pending requests ran firing => exact h.still hwall requests ran
  | restarted live repeats pending requests ran firing => exact h.still hwall requests ran
  | made fresh pending requests ran =>
    refine ⟨fun call hmem => ?_, fun number now request hfound => ?_⟩
    · rw [ran] at hmem
      rw [requests, List.length_append]
      exact Nat.lt_add_right _ (h.made call hmem)
    · rw [requests] at hfound
      rw [runTimes_congr ran]
      rcases getElem?_concat_cases hfound with ⟨-, hold⟩ | ⟨rfl, hadded⟩
      · exact fun time hmem => (h.past number now request hold time hmem).trans hwall
      · obtain ⟨rfl, rfl⟩ := Prod.mk.inj hadded
        simpa [h.runTimes_new] using hwall
  | @fired pair timer _ due expiration live pending requests ran firing =>
    refine ⟨fun call hmem => ?_, fun number now request hfound time hmem => ?_⟩
    · rw [ran] at hmem
      rw [requests]
      rcases List.mem_append.mp hmem with hold | hnew
      · exact h.made call hold
      · obtain rfl := List.mem_singleton.mp hnew
        exact howned.numbered.bounded _ timer (heap_of_pending live)
    · rw [requests] at hfound
      rcases eq_or_ne number timer.number with rfl | hne
      · rw [runTimes_self ran, ← List.cons_append] at hmem
        rcases List.mem_append.mp hmem with hold | hnew
        · exact (h.past _ now request hfound time hold).trans hwall
        · exact List.mem_singleton.mp hnew ▸ hwall
      · rw [runTimes_of_ne ran hne] at hmem
        exact (h.past number now request hfound time hmem).trans hwall

variable {d : ℚ}

/-- While no request is made and no callback is run, only the expirations matter. -/
theorem Paced.still {s s' : TimerQueue κ} (h : Paced d s) (hrequests : s'.requests = s.requests)
    (hran : s'.ran = s.ran)
    (hwaits : ∀ address timer now request, s'.pending address = some timer →
      s.requests[timer.number]? = some (now, request) → request.wait = some d →
        ∀ time ∈ now :: s.runTimes timer.number, time + addMicroseconds d ≤ timer.expiration) : Paced d s' := by
  have htimes : s'.runTimes = s.runTimes := funext (runTimes_congr hran)
  constructor
  · rw [hrequests, htimes]
    exact h.spaced
  · rw [hrequests, htimes]
    exact hwaits

/-- A new timer expires its delay from now. -/
theorem Paced.add {s s' : TimerQueue κ} (howned : Owned s) (hrecorded : Recorded s) (h : Paced d s) {address : ℕ}
    {request : TimerRequest} {callback : κ}
    (hadds : request.wait = some d → addTime s.wall d = s.wall + addMicroseconds d)
    (hpending : s'.pending = Function.update s.pending address
      (some (.new (request.timestamp s.wall) callback request.interval s.requests.length)))
    (hrequests : s'.requests = s.requests ++ [(s.wall, request)]) (hran : s'.ran = s.ran) : Paced d s' := by
  have htimes : s'.runTimes = s.runTimes := funext (runTimes_congr hran)
  refine ⟨fun number now request' hfound hwait => ?_, fun other timer now request' hlive hfound hwait => ?_⟩
  · rw [hrequests] at hfound
    rw [htimes]
    rcases getElem?_concat_cases hfound with ⟨-, hold⟩ | ⟨rfl, -⟩
    · exact h.spaced number now request' hold hwait
    · rw [hrecorded.runTimes_new]
      exact List.pairwise_singleton _ _
  · rw [hrequests] at hfound
    rw [hpending] at hlive
    rw [htimes]
    rcases update_eq_some hlive with ⟨-, hmade⟩ | ⟨-, hold⟩
    · obtain rfl := Option.some.inj hmade
      have hadded : (now, request') = (s.wall, request) :=
        Option.some.inj (hfound.symm.trans List.getElem?_concat_length)
      obtain ⟨rfl, rfl⟩ := Prod.mk.inj hadded
      intro time hmem
      have htime : time = s.wall := by simpa [Timer.new, hrecorded.runTimes_new] using hmem
      exact htime ▸ ((TimerRequest.timestamp_of_wait hwait s.wall).trans (hadds hwait)).ge
    · rcases getElem?_concat_cases hfound with ⟨-, hbefore⟩ | ⟨hlast, -⟩
      · exact h.waits other timer now request' hold hbefore hwait
      · exact absurd hlast (howned.numbered.bounded other timer (heap_of_pending hold)).ne

/-- A callback runs when its timer has expired. -/
theorem Paced.fire {s s' : TimerQueue κ} (howned : Owned s) (h : Paced d s) {address : ℕ} {timer : Timer κ}
    (hdue : timer.expiration ≤ s.wall) (hlive : s.pending address = some timer)
    (hpending : s'.pending = Function.update s.pending address none) (hrequests : s'.requests = s.requests)
    (hran : s'.ran = s.ran ++ [(timer.number, s.wall)]) : Paced d s' := by
  have hself := runTimes_self hran
  refine ⟨fun number now request hfound hwait => ?_, fun other timer' now request hother hfound hwait => ?_⟩
  · rw [hrequests] at hfound
    rcases eq_or_ne number timer.number with rfl | hne
    · rw [hself, ← List.cons_append]
      refine List.pairwise_append.mpr ⟨h.spaced _ now request hfound hwait, List.pairwise_singleton _ _, ?_⟩
      intro time hmem later hlater
      obtain rfl := List.mem_singleton.mp hlater
      exact (h.waits address timer now request hlive hfound hwait time hmem).trans hdue
    · rw [runTimes_of_ne hran hne]
      exact h.spaced number now request hfound hwait
  · rw [hrequests] at hfound
    rw [hpending] at hother
    rcases update_eq_some hother with ⟨-, hnone⟩ | ⟨hne, hold⟩
    · cases hnone
    · have hnumber : timer'.number ≠ timer.number := fun heq => hne
        (howned.numbered.distinct other address timer' timer (heap_of_pending hold) (heap_of_pending hlive) heq)
      rw [runTimes_of_ne hran hnumber]
      exact h.waits other timer' now request hold hfound hwait

/-- A restarted timer expires its interval from now. -/
theorem Paced.restart {s s' : TimerQueue κ} (hrequested : AsRequested s) (hrecorded : Recorded s) (h : Paced d s)
    {address : ℕ} {timer : Timer κ} (hlive : s.heap address = some timer) (hrepeats : timer.repeats = true)
    (hadds : timer.interval = d → addTime s.wall d = s.wall + addMicroseconds d)
    (hpending : s'.pending = Function.update s.pending address (some (timer.restart s.wall)))
    (hrequests : s'.requests = s.requests) (hran : s'.ran = s.ran) : Paced d s' := by
  refine h.still hrequests hran fun other found now request hother hfound hwait => ?_
  rw [hpending] at hother
  rcases update_eq_some hother with ⟨-, hnew⟩ | ⟨-, hold⟩
  · obtain rfl := Option.some.inj hnew
    obtain ⟨now', request', hfound', hinterval, hrepeat⟩ := hrequested.requested address timer hlive
    obtain ⟨rfl, rfl⟩ := Prod.mk.inj (Option.some.inj (hfound'.symm.trans hfound))
    have hpositive : 0 < request'.interval := of_decide_eq_true (hrepeat.symm.trans hrepeats)
    have hdelay : timer.interval = d := hinterval.trans (TimerRequest.interval_of_wait hwait hpositive)
    have hexpiration : (timer.restart s.wall).expiration = s.wall + addMicroseconds d := by
      rw [← hadds hdelay, ← hdelay]
      rfl
    intro time hmem
    rw [hexpiration]
    exact Int.add_le_add_right (hrecorded.past _ now' request' hfound time hmem) _
  · exact h.waits other found now request hold hfound hwait

/-- Every step that adds the whole delay keeps the timers paced. -/
theorem Paced.step {s s' : TimerQueue κ} {action : TimerAction κ} (howned : Owned s) (hrequested : AsRequested s)
    (hrecorded : Recorded s) (h : Paced d s)
    (hadds : s.addsTime action = some d → addTime s.wall d = s.wall + addMicroseconds d)
    (hstep : s.step action = some s') : Paced d s' := by
  cases pendingChange_of_step howned hstep with
  | stays makes pending requests ran firing => exact h.still requests ran (pending ▸ h.waits)
  | made fresh pending requests ran => exact h.add howned hrecorded hadds pending requests ran
  | fired due expiration live pending requests ran firing =>
    exact h.fire howned (expiration.le.trans (hrequested.due _ due)) live pending requests ran
  | restarted live repeats pending requests ran firing adds =>
    refine h.restart hrequested hrecorded live repeats (fun hdelay => hadds ?_) pending requests ran
    rw [adds, hdelay]

/-- What holds of the timers while the clock is not set back. -/
structure Timed (s : TimerQueue κ) : Prop where
  owned : Owned s
  requested : AsRequested s
  recorded : Recorded s

/-- Every step keeps this. -/
theorem Timed.step {s s' : TimerQueue κ} {action : TimerAction κ} (h : Timed s)
    (hadvances : s.clockAdvances action = true) (hstep : s.step action = some s') : Timed s' where
  owned := owned_step s action s' h.owned hstep
  requested := h.requested.step h.owned hadvances hstep
  recorded := h.recorded.step h.owned hadvances hstep

/-- Nothing has happened in a new queue. -/
theorem timed_new (wall monotonic : ℤ) : Timed (new wall monotonic : TimerQueue κ) where
  owned := owned_new wall monotonic
  requested := ⟨fun _ hmem => (by cases hmem), fun _ _ hlive => (by cases hlive)⟩
  recorded := ⟨fun _ hmem => (by cases hmem), fun _ _ _ hfound => (by cases hfound)⟩

/-- In every run in which the clock is not set back the timers for a delay are paced, where the sum of the
delay and a time at which it is added fits an `int64_t`. -/
theorem paced_run {wall monotonic latest : ℤ} {actions : List (TimerAction κ)} {s : TimerQueue κ} (hd : 0 < d)
    (hlatest : 0 ≤ latest) (hfits : latest + addMicroseconds d < 9223372036854775808)
    (hmeets : Meets TimerQueue.step (fun s action => s.clockAdvances action = true ∧ addsBy latest d s action)
      (new wall monotonic) actions)
    (hrun : run TimerQueue.step (new wall monotonic) actions = some s) : Paced d s := by
  have hnew : Timed (new wall monotonic : TimerQueue κ) ∧ Paced d (new wall monotonic : TimerQueue κ) :=
    ⟨timed_new wall monotonic, fun _ _ _ hfound => (by cases hfound), fun _ _ _ _ hlive => (by cases hlive)⟩
  refine (run_invariant_of_meets (I := fun s => Timed s ∧ Paced d s) (fun s action s' h hmeets hstep => ?_)
    hnew hmeets hrun).2
  obtain ⟨htimed, hpaced⟩ := h
  refine ⟨htimed.step hmeets.1 hstep, ?_⟩
  refine hpaced.step htimed.owned htimed.requested htimed.recorded (fun hadds => ?_) hstep
  obtain ⟨hlower, hupper⟩ := hmeets.2 hadds
  exact addTime_eq hd hlower (by omega) (by omega)

/-- Whole seconds are kept. -/
theorem Paced.onTime {s : TimerQueue κ} (h : Paced d s)
    (hwhole : (addMicroseconds d : ℚ) = d * kMicrosecond2Second) : s.OnTime d := by
  have hcast {earlier later : ℤ} : (earlier : ℚ) + d * kMicrosecond2Second ≤ later ↔
      earlier + addMicroseconds d ≤ later := by
    rw [← hwhole]
    exact_mod_cast Iff.rfl
  refine ⟨fun number now hfound time hmem => ?_, fun number now hfound => ?_⟩
  · exact hcast.mpr (List.rel_of_pairwise_cons (h.spaced number now _ hfound rfl) hmem)
  · exact ((h.spaced number now _ hfound rfl).imp hcast.mpr).isChain

/-- `HandleRead` runs the callbacks of its entries one after the other; it does not call `AddTime` meanwhile. -/
theorem run_callbacks {s : TimerQueue κ} (howned : Owned s) (hfree : s.adding = none) {rest : List TimerPair}
    (hrunning : s.position = .running rest) (latest : ℤ) (d : ℚ) : ∃ t : TimerQueue κ,
      Meets TimerQueue.step (fun s action => s.clockAdvances action = true ∧ addsBy latest d s action) s
        (List.replicate rest.length .next) ∧
      run TimerQueue.step s (List.replicate rest.length .next) = some t ∧ t.requests = s.requests ∧
        t.ran = s.ran ++ rest.filterMap fun pair => (s.heap pair.timer).map fun timer =>
          (timer.number, s.wall) := by
  induction rest generalizing s with
  | nil => exact ⟨s, trivial, rfl, rfl, (List.append_nil _).symm⟩
  | cons pair rest ih =>
    obtain ⟨timer, hlive, hrun, howned'⟩ := howned.runCallback hrunning
    have hstep : s.step .next =
        some { s with position := .running rest, ran := s.ran ++ [(timer.number, s.wall)] } := by
      rw [TimerQueue.step, if_pos hfree, next, hrunning, ← hrun]
    have hquiet : addsBy latest d s .next := fun hadds => by simp [addsTime, hrunning] at hadds
    obtain ⟨t, hmeets, hrest, hrequests, hran⟩ := ih howned' hfree rfl
    refine ⟨t, (meets_cons_of_step hstep).mpr ⟨⟨rfl, hquiet⟩, hmeets⟩, run_cons_eq_some.mpr ⟨_, hstep, hrest⟩,
      hrequests, ?_⟩
    rw [hran, List.filterMap_cons, hlive, Option.map_some, List.append_assoc, List.singleton_append]

/-- Outside of `HandleRead`, a callback registered with `RunAfter` can be run as soon as the time comes that
`AddTime` returns, and at once if this time is over. -/
theorem exists_run_runAfter {s : TimerQueue κ} (howned : Owned s) (houtside : s.position = .outside)
    (hfree : s.adding = none) {address : ℕ} (hfresh : s.heap address = none) (hbound : address < uintptrMax)
    (hwall : -9223372036854775808 ≤ s.wall) (d : ℚ) (callback : κ) : ∃ actions t,
      Meets TimerQueue.step (fun m action => m.clockAdvances action = true ∧ addsBy s.wall d m action) s actions ∧
      run TimerQueue.step s actions = some t ∧ t.requests[s.requests.length]? = some (s.wall, .runAfter d) ∧
        max (addTime s.wall d) s.wall ∈ t.runTimes s.requests.length := by
  let timer : Timer κ := .new (addTime s.wall d) callback 0 s.requests.length
  let added := s.addTimer address true (.runAfter d) callback
  have hadd : s.step (.addTimer address true (.runAfter d) callback) = some added :=
    if_pos ⟨hfresh, hbound, fun _ => ⟨hfree, by rw [callsOut, houtside]⟩⟩
  have hlive : added.heap address = some timer := Function.update_self _ _ _
  obtain ⟨fd, settimes, hinLoop⟩ := addTimerInLoop_eq (s := { added with adding := none }) hlive
  let waits : TimerQueue κ := { added with
    adding := none, timers := s.timers.insert ⟨timer.expiration, address⟩, timerfd := fd, settimes }
  have hinsert : added.step .addTimerInLoop = some waits := congrArg some hinLoop
  -- The clock goes on to the expiration, or stays where it is.
  let time := max (addTime s.wall d) s.wall
  let late := waits.clock time (time - s.wall).toNat
  have hclock : waits.step (.clock time (time - s.wall).toNat) = some late := rfl
  have hread : late.step .handleRead = some late.handleRead := if_pos ⟨houtside, rfl⟩
  have hreached : Owned late.handleRead := by
    have hadded := owned_step s _ added howned hadd
    have hwaits := owned_step added _ waits hadded hinsert
    exact owned_step late _ _ (owned_step waits _ late hwaits hclock) hread
  obtain ⟨t, hmeets, hrun, hrequests, hran⟩ := run_callbacks hreached rfl rfl s.wall d
  have hno {m : TimerQueue κ} {action : TimerAction κ} (h : m.addsTime action = none) : addsBy s.wall d m action :=
    fun hadds => by cases h.symm.trans hadds
  refine ⟨_ :: _ :: _ :: _ :: _, t, ?_, run_cons_eq_some.mpr ⟨added, hadd, run_cons_eq_some.mpr ⟨waits, hinsert,
    run_cons_eq_some.mpr ⟨late, hclock, run_cons_eq_some.mpr ⟨_, hread, hrun⟩⟩⟩⟩, ?_, ?_⟩
  · refine (meets_cons_of_step hadd).mpr ⟨⟨rfl, fun _ => ⟨hwall, le_rfl⟩⟩, ?_⟩
    refine (meets_cons_of_step hinsert).mpr ⟨⟨rfl, hno rfl⟩, ?_⟩
    refine (meets_cons_of_step hclock).mpr ⟨⟨decide_eq_true (le_max_right _ _), hno rfl⟩, ?_⟩
    exact (meets_cons_of_step hread).mpr ⟨⟨rfl, hno rfl⟩, hmeets⟩
  · rw [hrequests]
    exact List.getElem?_concat_length
  · have hexpired : (⟨timer.expiration, address⟩ : TimerPair) < ⟨late.wall, uintptrMax⟩ := by
      rcases (le_max_left (addTime s.wall d) s.wall).lt_or_eq with hbefore | hnow
      · exact TimerPair.lt_iff.mpr (Or.inl hbefore)
      · exact TimerPair.lt_iff.mpr (Or.inr ⟨hnow, hbound⟩)
    have hdue : (⟨timer.expiration, address⟩ : TimerPair) ∈ late.timers.below ⟨late.wall, uintptrMax⟩ :=
      OrderedSet.mem_below.mpr ⟨OrderedSet.mem_insert.mpr (Or.inl rfl), hexpired⟩
    rw [runTimes, hran, List.mem_map]
    refine ⟨(s.requests.length, time), List.mem_filter.mpr ⟨List.mem_append_right _ ?_, ?_⟩, rfl⟩
    · refine List.mem_filterMap.mpr ⟨_, hdue, ?_⟩
      exact congrArg (Option.map _) hlive
    · exact decide_eq_true rfl

/-- Exactly the delays of whole seconds are kept for which the sum of the delay and the latest time at which it is
added stays below `2^63` microseconds. -/
theorem punctual_iff [Inhabited κ] {d : ℚ} (hd : 0 < d) {latest : ℤ} (hlatest : 0 ≤ latest) :
    Punctual κ d latest ↔
      (∃ seconds : ℕ, d = seconds) ∧ latest + d * kMicrosecond2Second < 9223372036854775808 := by
  obtain ⟨hle, hwhole⟩ := addMicroseconds_spec hd
  constructor
  · intro hpunctual
    by_contra hlost
    obtain ⟨actions, s, hmeets, hrun, hrequest, htime⟩ := exists_run_runAfter (s := new latest 0)
      (owned_new latest 0)
      rfl rfl rfl (by decide : 8 < uintptrMax) (Int.le_trans (by decide) hlatest) d (default : κ)
    have honTime := (hpunctual latest 0 actions s hmeets hrun).runAfter _ _ hrequest _ htime
    have hearly := addTime_lt hd hlatest hlost
    have hpositive : (0 : ℚ) < d * kMicrosecond2Second := mul_pos hd (by norm_num [kMicrosecond2Second])
    change (latest : ℚ) + d * kMicrosecond2Second ≤ (max (addTime latest d) latest : ℤ) at honTime
    rw [Int.cast_max] at honTime
    rcases le_max_iff.mp honTime with hadded | hstays
    · exact absurd hearly hadded.not_gt
    · linarith
  · rintro ⟨hseconds, hfits⟩ wall monotonic actions s hmeets hrun
    have hkept := hwhole.mp hseconds
    rw [← hkept] at hfits
    exact (paced_run hd hlatest (by exact_mod_cast hfits) hmeets hrun).onTime hkept

/-- The eight seconds of the idle check are kept for the next hundred thousand years; two and a half seconds are not
kept, and neither are 9223372036855 seconds. -/
theorem punctual_eight : Punctual Unit 8 3000000000000000000 ∧ ¬ Punctual Unit (5 / 2) 0 ∧
    ¬ Punctual Unit 9223372036855 0 := by
  refine ⟨(punctual_iff (by norm_num) (by norm_num)).mpr ⟨⟨8, by norm_num⟩, ?_⟩, fun hpunctual => ?_,
    fun hpunctual => ?_⟩
  · norm_num [kMicrosecond2Second]
  · obtain ⟨⟨seconds, hseconds⟩, -⟩ := (punctual_iff (by norm_num) le_rfl).mp hpunctual
    have hdouble : (5 : ℚ) = 2 * seconds := by linarith
    have hodd : 5 = 2 * seconds := by exact_mod_cast hdouble
    omega
  · obtain ⟨-, hfits⟩ := (punctual_iff (by norm_num) le_rfl).mp hpunctual
    norm_num [kMicrosecond2Second] at hfits

/-- A timer for half a second expires at once, and its callback runs after 100 microseconds. -/
def halfSecondRun : List (TimerAction Unit) :=
  [.addTimer 8 true (.runAfter (1 / 2)) (), .addTimerInLoop, .clock 100 100, .handleRead, .next]

/-- Not every delay of whole microseconds is kept. -/
theorem not_punctual_half : ¬ ∀ d : ℚ, 0 < d → (∃ microseconds : ℕ, d * kMicrosecond2Second = microseconds) →
    Punctual Unit d 0 := by
  intro hall
  have hend : (run step (new 0 0) halfSecondRun).map (fun s => (s.requests, s.runTimes 0)) =
      some ([(0, .runAfter (1 / 2))], [100]) := by decide +kernel
  obtain ⟨s, hrun, hs⟩ := Option.map_eq_some_iff.mp hend
  obtain ⟨hrequests, htimes⟩ := Prod.mk.inj hs
  have hadvances : Meets step (fun s action => s.clockAdvances action = true ∧ addsBy 0 (1 / 2) s action) (new 0 0)
      halfSecondRun := by decide +kernel
  have hpunctual := hall (1 / 2) (by norm_num) ⟨500000, by norm_num [kMicrosecond2Second]⟩
  have honTime := (hpunctual 0 0 halfSecondRun s hadvances hrun).runAfter 0 0 (by rw [hrequests]; rfl) 100
    (htimes ▸ List.mem_singleton_self _)
  norm_num [kMicrosecond2Second] at honTime

end TimerQueue

end WebServer.Timers
