import Mathlib.Algebra.Order.Field.Rat
import Mathlib.Data.Prod.Lex
import Mathlib.Logic.Function.Basic
import WebServer.Foundation.OrderedSet
import WebServer.Foundation.Run

/-!
# The timer queue of a loop

`TimerQueue` holds the live `Timer` objects under their addresses, the set `timers_`, the copy
`active_timers_` which `HandleRead` makes of the entries that are due, and the state of the
timer descriptor. The clock moves between the steps, and no step uses two readings of it, so
the readings within one function of the source may differ.

Timers are made in any thread. In the thread of the loop `AddTimerInLoop` runs at once, also
inside a callback of `HandleRead`; elsewhere it is queued in `to_do_list_`. Using a timer that
was deleted is a fault.
-/

namespace WebServer.Timers

open WebServer.Foundation

/-- `kMicrosecond2Second`. -/
def kMicrosecond2Second : ℤ := 1000 * 1000

/-- The value of an exact result in an `int64_t`. -/
def wrap64 (n : ℤ) : ℤ := (n + 9223372036854775808) % 18446744073709551616 - 9223372036854775808

/-- A result in the range of `int64_t` is kept. -/
theorem wrap64_eq {n : ℤ} (h : -9223372036854775808 ≤ n) (h' : n < 9223372036854775808) : wrap64 n = n := by
  rw [wrap64]
  omega

/-- Every value of an `int64_t` is smaller than `2^63`. -/
theorem wrap64_lt (n : ℤ) : wrap64 n < 9223372036854775808 := by
  rw [wrap64]
  omega

/-- A result that is not too small for an `int64_t` does not become larger. -/
theorem wrap64_le {n : ℤ} (h : -9223372036854775808 ≤ n) : wrap64 n ≤ n := by
  rw [wrap64]
  omega

/-- `Timestamp::AddTime(timestamp, add_seconds)`: the cast cuts off the fraction of a second, and the product
and the sum are computed in `int64_t`. -/
def addTime (timestamp : ℤ) (addSeconds : ℚ) : ℤ :=
  wrap64 (timestamp + wrap64 (wrap64 (addSeconds.num.tdiv addSeconds.den) * kMicrosecond2Second))

/-- The data members of `Timer`, and a number which tells the timers apart, since an address may
be used again. -/
structure Timer (κ : Type) where
  expiration : ℤ
  callback : κ
  interval : ℚ
  repeats : Bool
  number : ℕ

namespace Timer

variable {κ : Type}

/-- The constructor. -/
def new (expiration : ℤ) (callback : κ) (interval : ℚ) (number : ℕ) : Timer κ :=
  ⟨expiration, callback, interval, 0 < interval, number⟩

/-- `Restart(now)`. -/
def restart (timer : Timer κ) (now : ℤ) : Timer κ := { timer with expiration := addTime now timer.interval }

end Timer

/-- `TimerPair`: an expiration and the address of a timer. -/
@[ext] structure TimerPair where
  timestamp : ℤ
  timer : ℕ
deriving DecidableEq

namespace TimerPair

/-- The pair as an element of the lexicographic product. -/
def key (pair : TimerPair) : Lex (ℤ × ℕ) := toLex (pair.timestamp, pair.timer)

/-- Different pairs have different keys. -/
theorem key_injective : Function.Injective key := by
  intro first second h
  obtain ⟨htimestamp, htimer⟩ := Prod.mk.inj (toLex.injective h)
  exact TimerPair.ext htimestamp htimer

/-- Pairs are ordered by the expiration, and by the address if the expiration is the same. -/
instance : LinearOrder TimerPair := LinearOrder.lift' key key_injective

/-- The order of pairs. -/
theorem lt_iff {first second : TimerPair} : first < second ↔
    first.timestamp < second.timestamp ∨ first.timestamp = second.timestamp ∧ first.timer < second.timer :=
  Prod.Lex.toLex_lt_toLex

/-- A smaller pair does not expire later. -/
theorem timestamp_le_of_le {first second : TimerPair} (h : first ≤ second) :
    first.timestamp ≤ second.timestamp := by
  rcases h.lt_or_eq with hless | rfl
  · rcases lt_iff.mp hless with hbefore | ⟨hsame, -⟩
    · exact hbefore.le
    · exact hsame.le
  · exact le_rfl

end TimerPair

/-- `UINTPTR_MAX`. -/
def uintptrMax : ℕ := 2 ^ 64 - 1

/-- `it_value` of `struct itimerspec`. -/
structure Itimerspec where
  sec : ℤ
  nsec : ℤ
deriving DecidableEq

/-- The timer descriptor: the time of the monotonic clock for which it is armed, and whether an
expiration has not been read yet. -/
structure Timerfd where
  deadline : Option ℤ
  unread : Bool
deriving DecidableEq

namespace Timerfd

/-- The monotonic clock has reached this time. -/
def advance (fd : Timerfd) (monotonic : ℤ) : Timerfd :=
  match fd.deadline with
  | some deadline => if deadline ≤ monotonic then ⟨none, true⟩ else fd
  | none => fd

/-- `timerfd_settime`: a value of zero disarms the timer. -/
def settime (monotonic : ℤ) (value : Itimerspec) : Timerfd :=
  if value = ⟨0, 0⟩ then ⟨none, false⟩
  else ⟨some (monotonic + (value.sec * kMicrosecond2Second + value.nsec / 1000)), false⟩

end Timerfd

/-- A call of `RunAt`, `RunAfter` or `RunEvery`. -/
inductive TimerRequest where
  | runAt (timestamp : ℤ)
  | runAfter (waitTime : ℚ)
  | runEvery (interval : ℚ)
deriving DecidableEq

namespace TimerRequest

/-- The timestamp which is passed to `AddTimer`. -/
def timestamp (now : ℤ) : TimerRequest → ℤ
  | runAt timestamp => timestamp
  | runAfter waitTime => addTime now waitTime
  | runEvery interval => addTime now interval

/-- The delay which a request asks for. -/
def wait : TimerRequest → Option ℚ
  | runAt _ => none
  | runAfter waitTime => some waitTime
  | runEvery interval => some interval

/-- The interval which is passed to `AddTimer`. -/
def interval : TimerRequest → ℚ
  | runAt _ => 0
  | runAfter _ => 0
  | runEvery interval => interval

end TimerRequest

/-- Where the loop is in `HandleRead`: outside of it, behind some callbacks, or behind the restart
or deletion of some timers. What is left of `active_timers_` is listed. -/
inductive HandleReadPosition where
  | outside
  | running (rest : List TimerPair)
  | resetting (rest : List TimerPair)
deriving DecidableEq

/-- The timer queue with its environment: the timers `AddTimerInLoop` is called for or queued for,
the wall clock and the monotonic clock, and a record of the calls of `timerfd_settime` with the
clock readings used for them, of the constructed timers, numbered in order, with the clock
readings used for them, and of the callbacks run, with the time when they are. -/
structure TimerQueue (κ : Type) where
  heap : ℕ → Option (Timer κ)
  timers : OrderedSet TimerPair
  activeTimers : List TimerPair
  timerfd : Timerfd
  position : HandleReadPosition
  adding : Option ℕ
  toDoList : List ℕ
  wall : ℤ
  monotonic : ℤ
  settimes : List (ℤ × Itimerspec)
  requests : List (ℤ × TimerRequest)
  ran : List (ℕ × ℤ)
  fault : Bool

/-- What can happen: time passes, a timer is constructed at an address and handed over, a queued or
a direct call of `AddTimerInLoop` runs, `HandleRead` starts, and `HandleRead` goes on. -/
inductive TimerAction (κ : Type) where
  | clock (wall : ℤ) (elapsed : ℕ)
  | addTimer (address : ℕ) (inThreadLoop : Bool) (request : TimerRequest) (callback : κ)
  | runQueued
  | addTimerInLoop
  | handleRead
  | next

namespace TimerQueue

variable {κ : Type}

/-- The constructor, with the readings of the clocks. -/
def new (wall monotonic : ℤ) : TimerQueue κ where
  heap _ := none
  timers := .empty
  activeTimers := []
  timerfd := ⟨none, false⟩
  position := .outside
  adding := none
  toDoList := []
  wall := wall
  monotonic := monotonic
  settimes := []
  requests := []
  ran := []
  fault := false

/-- Use a timer through its address. -/
def withTimer (s : TimerQueue κ) (address : ℕ) (use : Timer κ → TimerQueue κ) : TimerQueue κ :=
  match s.heap address with
  | some timer => use timer
  | none => { s with fault := true }

/-- The value for `timerfd_settime` until the expiration, at least 100 microseconds. The difference is
computed in `int64_t`. -/
def timerValue (expiration now : ℤ) : Itimerspec :=
  let microSecondsDif := if wrap64 (expiration - now) < 100 then 100 else wrap64 (expiration - now)
  ⟨microSecondsDif.tdiv kMicrosecond2Second, microSecondsDif.tmod kMicrosecond2Second * 1000⟩

/-- `ResetTimer(timer)`. -/
def resetTimer (s : TimerQueue κ) (timer : Timer κ) : TimerQueue κ :=
  let value := timerValue timer.expiration s.wall
  { s with timerfd := .settime s.monotonic value, settimes := s.settimes ++ [(s.wall, value)] }

/-- The flag which `Insert(timer)` returns. -/
def resetInstantly (s : TimerQueue κ) (timer : Timer κ) : Bool :=
  match s.timers.first with
  | none => true
  | some first => timer.expiration < first.timestamp

/-- What `Insert(timer)` does to `timers_`. -/
def insert (s : TimerQueue κ) (address : ℕ) (timer : Timer κ) : TimerQueue κ :=
  { s with timers := s.timers.insert ⟨timer.expiration, address⟩ }

/-- `AddTimerInLoop(timer)`. -/
def addTimerInLoop (s : TimerQueue κ) (address : ℕ) : TimerQueue κ :=
  s.withTimer address fun timer =>
    if s.resetInstantly timer then (s.insert address timer).resetTimer timer else s.insert address timer

/-- `AddTimer(timestamp, cb, interval)` with the timestamp of the request, up to the call of
`AddTimerInLoop`. -/
def addTimer (s : TimerQueue κ) (address : ℕ) (inThreadLoop : Bool) (request : TimerRequest) (callback : κ) :
    TimerQueue κ :=
  let timer := Timer.new (request.timestamp s.wall) callback request.interval s.requests.length
  let made := { s with
    heap := Function.update s.heap address (some timer)
    requests := s.requests ++ [(s.wall, request)] }
  if inThreadLoop then { made with adding := some address } else { made with toDoList := s.toDoList ++ [address] }

/-- The timer is made. -/
theorem addTimer_heap (s : TimerQueue κ) (address : ℕ) (inThreadLoop : Bool) (request : TimerRequest)
    (callback : κ) :
    (s.addTimer address inThreadLoop request callback).heap = Function.update s.heap address
      (some (.new (request.timestamp s.wall) callback request.interval s.requests.length)) := by
  cases inThreadLoop <;> rfl

/-- The request is put down. -/
theorem addTimer_requests (s : TimerQueue κ) (address : ℕ) (inThreadLoop : Bool) (request : TimerRequest)
    (callback : κ) :
    (s.addTimer address inThreadLoop request callback).requests = s.requests ++ [(s.wall, request)] := by
  cases inThreadLoop <;> rfl

/-- `HandleRead()` up to the first callback: the expiration is read, and the entries up to the
present time are taken out of the set. -/
def handleRead (s : TimerQueue κ) : TimerQueue κ :=
  let expired := s.timers.below ⟨s.wall, uintptrMax⟩
  { s with
    timerfd := { s.timerfd with unread := false }
    activeTimers := expired
    timers := s.timers.eraseBelow ⟨s.wall, uintptrMax⟩
    position := .running expired }

/-- `Run()` of the timer of an entry. -/
def runCallback (s : TimerQueue κ) (pair : TimerPair) : TimerQueue κ :=
  s.withTimer pair.timer fun timer => { s with ran := s.ran ++ [(timer.number, s.wall)] }

/-- The body of the loop in `ResetTimers()`. -/
def resetOne (s : TimerQueue κ) (pair : TimerPair) : TimerQueue κ :=
  s.withTimer pair.timer fun timer =>
    if timer.repeats then
      let restarted := timer.restart s.wall
      insert { s with heap := Function.update s.heap pair.timer (some restarted) } pair.timer restarted
    else { s with heap := Function.update s.heap pair.timer none }

/-- The end of `ResetTimers()`. -/
def resetFirst (s : TimerQueue κ) : TimerQueue κ :=
  match s.timers.first with
  | none => s
  | some first => s.withTimer first.timer s.resetTimer

/-- Go on with `HandleRead`. -/
def next (s : TimerQueue κ) : Option (TimerQueue κ) :=
  match s.position with
  | .outside => none
  | .running [] => some { s with position := .resetting s.activeTimers }
  | .running (pair :: rest) => some (runCallback { s with position := .running rest } pair)
  | .resetting (pair :: rest) => some (resetOne { s with position := .resetting rest } pair)
  | .resetting [] => some (resetFirst { s with position := .outside })

/-- Time passes. -/
def clock (s : TimerQueue κ) (wall : ℤ) (elapsed : ℕ) : TimerQueue κ :=
  { s with
    wall := wall
    monotonic := s.monotonic + elapsed
    timerfd := s.timerfd.advance (s.monotonic + elapsed) }

/-- The loop runs code that may call `AddTimer`: a callback of `HandleRead`, or code elsewhere. -/
def callsOut (s : TimerQueue κ) : Bool :=
  match s.position with
  | .outside => true
  | .running rest => rest.length < s.activeTimers.length
  | .resetting _ => false

/-- Perform one action. An address that is in use is not handed out again. -/
def step (s : TimerQueue κ) : TimerAction κ → Option (TimerQueue κ)
  | .clock wall elapsed => some (s.clock wall elapsed)
  | .addTimer address inThreadLoop request callback =>
    if s.heap address = none ∧ address < uintptrMax ∧ (inThreadLoop → s.adding = none ∧ s.callsOut) then
      some (s.addTimer address inThreadLoop request callback)
    else none
  | .runQueued =>
    match s.toDoList with
    | [] => none
    | address :: rest =>
      if s.position = .outside ∧
        s.adding = none then some { s with toDoList := rest, adding := some address } else none
  | .addTimerInLoop => s.adding.map fun address => addTimerInLoop { s with adding := none } address
  | .handleRead => if s.position = .outside ∧ s.adding = none then some s.handleRead else none
  | .next => if s.adding = none then s.next else none

/-- What a step does, and when it is taken. -/
inductive Stepped (s : TimerQueue κ) : TimerAction κ → TimerQueue κ → Prop where
  | clock (wall : ℤ) (elapsed : ℕ) : Stepped s (.clock wall elapsed) (s.clock wall elapsed)
  | addTimer {address : ℕ} {inThreadLoop : Bool} (request : TimerRequest) (callback : κ)
    (fresh : s.heap address = none)
      (bound : address < uintptrMax) (free : inThreadLoop = true → s.adding = none) :
      Stepped s (.addTimer address inThreadLoop request callback) (s.addTimer address inThreadLoop request callback)
  | runQueued {address : ℕ} {rest : List ℕ} (queued : s.toDoList = address :: rest)
    (outside : s.position = .outside)
      (free : s.adding = none) : Stepped s .runQueued { s with toDoList := rest, adding := some address }
  | addTimerInLoop {address : ℕ} (adding : s.adding = some address) :
      Stepped s .addTimerInLoop (TimerQueue.addTimerInLoop { s with adding := none } address)
  | handleRead (outside : s.position = .outside) (free : s.adding = none) : Stepped s .handleRead s.handleRead
  | runCallback {pair : TimerPair} {rest : List TimerPair} (running : s.position = .running (pair :: rest))
      (free : s.adding = none) : Stepped s .next (TimerQueue.runCallback { s with position := .running rest } pair)
  | allRun (running : s.position = .running []) (free : s.adding = none) :
      Stepped s .next { s with position := .resetting s.activeTimers }
  | resetOne {pair : TimerPair} {rest : List TimerPair} (resetting : s.position = .resetting (pair :: rest))
      (free : s.adding = none) : Stepped s .next (TimerQueue.resetOne { s with position := .resetting rest } pair)
  | allReset (resetting : s.position = .resetting []) (free : s.adding = none) :
      Stepped s .next (TimerQueue.resetFirst { s with position := .outside })

/-- Every step is one of these. -/
theorem stepped_of_step {s s' : TimerQueue κ} {action : TimerAction κ} (h : s.step action = some s') :
    Stepped s action s' := by
  cases action with
  | clock wall elapsed =>
    obtain rfl := Option.some.inj h
    exact .clock wall elapsed
  | addTimer address inThreadLoop request callback =>
    obtain ⟨⟨hfresh, hbound, hfree⟩, hs'⟩ := Option.ite_none_right_eq_some.mp h
    obtain rfl := Option.some.inj hs'
    exact .addTimer request callback hfresh hbound fun hin => (hfree hin).1
  | runQueued =>
    rw [step] at h
    split at h
    · cases h
    · next address rest hqueue =>
      obtain ⟨⟨houtside, hfree⟩, hs'⟩ := Option.ite_none_right_eq_some.mp h
      obtain rfl := Option.some.inj hs'
      exact .runQueued hqueue houtside hfree
  | addTimerInLoop =>
    obtain ⟨address, hadding, rfl⟩ := Option.map_eq_some_iff.mp h
    exact .addTimerInLoop hadding
  | handleRead =>
    obtain ⟨⟨houtside, hfree⟩, hs'⟩ := Option.ite_none_right_eq_some.mp h
    obtain rfl := Option.some.inj hs'
    exact .handleRead houtside hfree
  | next =>
    obtain ⟨hfree, hnext⟩ := Option.ite_none_right_eq_some.mp h
    rw [next] at hnext
    split at hnext
    · cases hnext
    · next hrunning =>
      obtain rfl := Option.some.inj hnext
      exact .allRun hrunning hfree
    · next pair rest hrunning =>
      obtain rfl := Option.some.inj hnext
      exact .runCallback hrunning hfree
    · next pair rest hresetting =>
      obtain rfl := Option.some.inj hnext
      exact .resetOne hresetting hfree
    · next hresetting =>
      obtain rfl := Option.some.inj hnext
      exact .allReset hresetting hfree

/-- A live timer can be used. -/
theorem withTimer_of_live {s : TimerQueue κ} {address : ℕ} {timer : Timer κ} (h : s.heap address = some timer)
    (use : Timer κ → TimerQueue κ) : s.withTimer address use = use timer := by
  rw [withTimer, h]

end TimerQueue

end WebServer.Timers
