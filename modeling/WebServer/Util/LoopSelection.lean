import Mathlib.Data.Int.Init
import WebServer.Foundation.RoundRobin
import WebServer.Foundation.Run
import WebServer.Util.TcpServer

/-!
# The choice of a loop for a new connection

`NextLoop()` reads `loops_` at a cursor and reduces the cursor by `thread_num_`, the number given
to the last `SetThreadNum`, and not by the size of `loops_`. The two are equal after the first
`StartLoop()`; afterwards either of them can be changed alone. As long as `thread_num_` is not
zero and at most the size of `loops_`, every call is defined, and otherwise enough further calls
end with a division by zero or with a read outside `loops_`.

An object of `EventLoop` is identified by the number of threads started before its own.
-/

namespace WebServer.Util

open WebServer.Foundation

/-- A pointer to a loop: the one given to the constructor, or the one run by a thread of the pool. -/
inductive LoopPointer where
  | base
  | worker (created : ℕ)
deriving DecidableEq

/-- The data members of `EventLoopThreadPool` which its functions read. -/
structure ThreadPool extends EventLoopThreadPool LoopPointer where
  threadNum : ℤ

/-- What is undefined in C++: a read outside `loops_`, and a remainder by zero. -/
inductive PoolFault where
  | outOfRange
  | divisionByZero

/-- The calls of the pool: `SetThreadNums` and `Start` of `TcpServer` make the first two of them, and
`HandleNewConn` makes the last one. -/
inductive PoolCall where
  | setThreadNum (n : ℤ)
  | startLoop
  | nextLoop
deriving DecidableEq

namespace EventLoopThreadPool

variable {Loop : Type} {pool : EventLoopThreadPool Loop}

/-- What the next calls of `NextLoop()` return. -/
def selections (pool : EventLoopThreadPool Loop) : ℕ → List Loop
  | 0 => []
  | k + 1 => pool.nextLoop :: pool.advance.selections k

/-- With threads `NextLoop()` returns the loop at the cursor. -/
theorem getElem?_nextLoop (h : pool.next < pool.loops.length) :
    pool.loops[pool.next]? = some pool.nextLoop := by
  have hloops : ¬ pool.loops.isEmpty = true := by
    rw [List.isEmpty_iff_length_eq_zero]
    omega
  rw [nextLoop, if_neg hloops, List.getD_eq_getElem?_getD, List.getElem?_eq_getElem h, Option.getD_some]

/-- With threads `NextLoop()` moves the cursor to the next place in `loops_`. -/
theorem advance_eq (h : pool.next < pool.loops.length) :
    pool.advance = { pool with next := (pool.next + 1) % pool.loops.length } := by
  refine if_neg fun hempty => ?_
  rw [List.isEmpty_iff_length_eq_zero.mp hempty] at h
  cases h

/-- The loops are returned in a round robin. -/
theorem selections_eq_rotation (h : pool.next < pool.loops.length) (k : ℕ) :
    pool.selections k = rotation pool.loops pool.next k := by
  induction k generalizing pool with
  | zero => rfl
  | succ k ih =>
    have hhere : pool.loops[pool.next % pool.loops.length]? = some pool.nextLoop := by
      rw [Nat.mod_eq_of_lt h, getElem?_nextLoop h]
    have hlater : pool.advance.selections k = rotation pool.loops (pool.next + 1) k := by
      rw [advance_eq h, ← rotation_mod]
      exact ih (Nat.mod_lt _ (by omega))
    rw [selections, hlater, rotation_succ hhere]

/-- Every section of the calls returns all loops equally often, up to one time. -/
theorem selections_balanced [DecidableEq Loop] (hnodup : pool.loops.Nodup) (h : pool.next < pool.loops.length)
    {k : ℕ} {passed : List Loop} (hpassed : passed <:+: pool.selections k) : Balanced pool.loops passed := by
  rw [selections_eq_rotation h] at hpassed
  obtain ⟨first, count, rfl⟩ := exists_rotation_of_infix hpassed
  exact rotation_balanced hnodup first count

end EventLoopThreadPool

namespace ThreadPool

/-- `EventLoopThreadPool(loop)`. -/
def new : ThreadPool where
  threadNum := 0
  baseLoop := .base
  loops := []
  next := 0

/-- `SetThreadNum(n)`. -/
def setThreadNum (pool : ThreadPool) (n : ℤ) : ThreadPool := { pool with threadNum := n }

/-- The body of the loop in `StartLoop()`: a new thread runs a new loop. -/
def startThread (pool : ThreadPool) : ThreadPool :=
  { pool with loops := pool.loops ++ [.worker pool.loops.length] }

/-- `StartLoop()`. -/
def startLoop (pool : ThreadPool) : ThreadPool := startThread^[pool.threadNum.toNat] pool

/-- `NextLoop()`: the loop and the pool after the call. The remainder has the sign of `next_ + 1`. -/
def nextLoop (pool : ThreadPool) : Except PoolFault (LoopPointer × ThreadPool) :=
  if pool.loops.isEmpty then .ok (pool.baseLoop, pool)
  else match pool.loops[pool.next]? with
    | none => .error .outOfRange
    | some ret =>
      if pool.threadNum = 0 then .error .divisionByZero
      else .ok (ret, { pool with next := (((pool.next + 1 : ℕ) : ℤ).tmod pool.threadNum).toNat })

/-- One call; a call that is undefined has no next state. -/
def step (pool : ThreadPool) : PoolCall → Option ThreadPool
  | .setThreadNum n => some (pool.setThreadNum n)
  | .startLoop => some pool.startLoop
  | .nextLoop => pool.nextLoop.toOption.map Prod.snd

/-- What the calls of `NextLoop()` return, up to the first one that is undefined. -/
def selected (pool : ThreadPool) : List PoolCall → List LoopPointer
  | [] => []
  | .setThreadNum n :: rest => (pool.setThreadNum n).selected rest
  | .startLoop :: rest => pool.startLoop.selected rest
  | .nextLoop :: rest =>
    match pool.nextLoop with
    | .ok (ret, after) => ret :: after.selected rest
    | .error _ => []

/-- The call neither divides by zero nor reads outside `loops_`. -/
def Defined (pool : ThreadPool) (call : PoolCall) : Prop :=
  call = .nextLoop → ∀ fault, pool.nextLoop ≠ .error fault

/-- Every call from the constructor on is defined. -/
def SelectsSafely (calls : List PoolCall) : Prop := Meets step Defined new calls

/-- If the first threads are started at some point and from there on only `NextLoop()` is called, every
section of these calls returns all the loops of the threads equally often, up to one time. -/
def SelectsEvenly (calls : List PoolCall) : Prop :=
  ∀ before after pool, calls = before ++ .startLoop :: after → run step new before = some pool →
    pool.loops = [] → 0 < pool.threadNum → (∀ call ∈ after, call = .nextLoop) →
    ∀ passed, passed <:+: pool.startLoop.selected after → Balanced pool.startLoop.loops passed

/-- The cursor will be reduced to a place in `loops_`; a number below zero acts as its absolute value. -/
def Fits (pool : ThreadPool) : Prop :=
  pool.loops = [] ∨ pool.threadNum ≠ 0 ∧ pool.threadNum.natAbs ≤ pool.loops.length

/-- The condition on a call: `thread_num_` fits when `NextLoop()` is called. -/
def FitsWhenCalled (pool : ThreadPool) (call : PoolCall) : Prop := call = .nextLoop → pool.Fits

instance (pool : ThreadPool) : Decidable pool.Fits := inferInstanceAs (Decidable (_ ∨ _))

instance (pool : ThreadPool) (call : PoolCall) : Decidable (pool.FitsWhenCalled call) :=
  inferInstanceAs (Decidable (_ → _))

/-- The calls which set the pool up, without those which use it. -/
def settings (calls : List PoolCall) : List PoolCall := calls.filter (· ≠ .nextLoop)

variable {pool pool' : ThreadPool}

/-- The loops after some turns of the loop in `StartLoop()`. -/
theorem iterate_startThread (n : ℕ) (pool : ThreadPool) : startThread^[n] pool =
    { pool with loops := pool.loops ++ (List.range' pool.loops.length n).map LoopPointer.worker } := by
  induction n generalizing pool with
  | zero => simp
  | succ n ih =>
    rw [Function.iterate_succ_apply, ih, List.range'_succ]
    simp [startThread]

/-- `StartLoop()` appends the loops of new threads, and changes nothing else. -/
theorem startLoop_eq (pool : ThreadPool) : pool.startLoop = { pool with
    loops := pool.loops ++ (List.range' pool.loops.length pool.threadNum.toNat).map LoopPointer.worker } :=
  iterate_startThread pool.threadNum.toNat pool

/-- `StartLoop()` adds as many loops as `thread_num_` says. -/
theorem length_startLoop (pool : ThreadPool) :
    pool.startLoop.loops.length = pool.loops.length + pool.threadNum.toNat := by
  simp [startLoop_eq]

/-- A remainder of a number that is not negative. -/
theorem toNat_tmod (m : ℕ) (n : ℤ) : ((m : ℤ).tmod n).toNat = m % n.natAbs := by
  cases n <;> rfl

/-- The four ways in which a call of `NextLoop()` ends. -/
theorem nextLoop_cases (pool : ThreadPool) :
    (pool.loops = [] ∧ pool.nextLoop = .ok (pool.baseLoop, pool)) ∨
      (pool.loops ≠ [] ∧ pool.loops.length ≤ pool.next ∧ pool.nextLoop = .error .outOfRange) ∨
      (pool.next < pool.loops.length ∧ pool.threadNum = 0 ∧ pool.nextLoop = .error .divisionByZero) ∨
      ∃ ret, pool.loops[pool.next]? = some ret ∧ pool.threadNum ≠ 0 ∧
        pool.nextLoop = .ok (ret, { pool with next := (pool.next + 1) % pool.threadNum.natAbs }) := by
  by_cases hnil : pool.loops = []
  · exact .inl ⟨hnil, if_pos (List.isEmpty_iff.mpr hnil)⟩
  have hloops : ¬ pool.loops.isEmpty = true := fun h => hnil (List.isEmpty_iff.mp h)
  cases hnext : pool.loops[pool.next]? with
  | none =>
    refine .inr (.inl ⟨hnil, List.getElem?_eq_none_iff.mp hnext, ?_⟩)
    rw [nextLoop, if_neg hloops, hnext]
  | some ret =>
    by_cases hnum : pool.threadNum = 0
    · refine .inr (.inr (.inl ⟨(List.getElem?_eq_some_iff.mp hnext).1, hnum, ?_⟩))
      rw [nextLoop, if_neg hloops, hnext]
      exact if_pos hnum
    · refine .inr (.inr (.inr ⟨ret, rfl, hnum, ?_⟩))
      rw [nextLoop, if_neg hloops, hnext, ← toNat_tmod]
      exact if_neg hnum

/-- When a call of `NextLoop()` is defined. -/
theorem defined_nextLoop_iff : pool.Defined .nextLoop ↔
    pool.loops = [] ∨ pool.next < pool.loops.length ∧ pool.threadNum ≠ 0 := by
  obtain ⟨hnil, hcall⟩ | ⟨hloops, hnext, hcall⟩ | ⟨hnext, hnum, hcall⟩ | ⟨ret, hnext, hnum, hcall⟩ :=
    pool.nextLoop_cases
  · refine iff_of_true (fun _ fault => ?_) (.inl hnil)
    rw [hcall]
    simp
  · refine iff_of_false (fun h => h rfl _ hcall) ?_
    rintro (hnil | ⟨hlt, -⟩)
    · exact hloops hnil
    · omega
  · refine iff_of_false (fun h => h rfl _ hcall) ?_
    rintro (hnil | ⟨-, hne⟩)
    · rw [hnil] at hnext
      cases hnext
    · exact hne hnum
  · refine iff_of_true (fun _ fault => ?_) (.inr ⟨(List.getElem?_eq_some_iff.mp hnext).1, hnum⟩)
    rw [hcall]
    simp

/-- What a call of `NextLoop()` does to the pool. -/
theorem step_nextLoop (h : step pool .nextLoop = some pool') : pool.loops = [] ∧ pool' = pool ∨
    pool.next < pool.loops.length ∧ pool.threadNum ≠ 0 ∧
      pool' = { pool with next := (pool.next + 1) % pool.threadNum.natAbs } := by
  obtain ⟨hnil, hcall⟩ | ⟨-, -, hcall⟩ | ⟨-, -, hcall⟩ | ⟨ret, hnext, hnum, hcall⟩ := pool.nextLoop_cases
  · rw [step, hcall] at h
    exact .inl ⟨hnil, (Option.some.inj h).symm⟩
  · rw [step, hcall] at h
    cases h
  · rw [step, hcall] at h
    cases h
  · rw [step, hcall] at h
    exact .inr ⟨(List.getElem?_eq_some_iff.mp hnext).1, hnum, (Option.some.inj h).symm⟩

/-- Every loop returned so far was the base loop, or the cursor points at a loop. -/
def CursorInRange (pool : ThreadPool) : Prop :=
  pool.next < pool.loops.length ∨ pool.loops = [] ∧ pool.next = 0

/-- Until the first thread is started the cursor does not move. -/
def AtStart (pool : ThreadPool) : Prop := pool.loops = [] → pool.next = 0

/-- No call moves the cursor while there are no threads. -/
theorem atStart_step (pool : ThreadPool) (call : PoolCall) (pool' : ThreadPool) (h : pool.AtStart)
    (hstep : step pool call = some pool') : pool'.AtStart := by
  cases call with
  | setThreadNum n =>
    obtain rfl := Option.some.inj hstep
    exact h
  | startLoop =>
    obtain rfl := Option.some.inj hstep
    rw [startLoop_eq]
    intro hnil
    exact h (List.append_eq_nil_iff.mp hnil).1
  | nextLoop =>
    obtain ⟨-, rfl⟩ | ⟨hnext, -, rfl⟩ := step_nextLoop hstep
    · exact h
    · intro hnil
      have hempty : pool.loops = [] := hnil
      rw [hempty] at hnext
      cases hnext

/-- Every call keeps the cursor in range where `thread_num_` fits when `NextLoop()` is called. -/
theorem cursorInRange_step (pool : ThreadPool) (call : PoolCall) (pool' : ThreadPool) (h : pool.CursorInRange)
    (hfits : pool.FitsWhenCalled call) (hstep : step pool call = some pool') : pool'.CursorInRange := by
  cases call with
  | setThreadNum n =>
    obtain rfl := Option.some.inj hstep
    exact h
  | startLoop =>
    obtain rfl := Option.some.inj hstep
    have hlength := pool.length_startLoop
    have hnext : pool.startLoop.next = pool.next := by rw [startLoop_eq]
    by_cases hnil : pool.startLoop.loops = []
    · rw [hnil, List.length_nil] at hlength
      exact .inr ⟨hnil, by rcases h with h | h <;> omega⟩
    · have hpos := List.length_pos_of_ne_nil hnil
      exact .inl (by rcases h with h | h <;> omega)
  | nextLoop =>
    obtain ⟨-, rfl⟩ | ⟨hnext, hnum, rfl⟩ := step_nextLoop hstep
    · exact h
    · obtain hnil | ⟨-, hle⟩ := hfits rfl
      · rw [hnil] at hnext
        cases hnext
      · -- the new cursor is below `thread_num_`, which is at most the size of `loops_`
        have hmod := Nat.mod_lt (pool.next + 1) (Int.natAbs_pos.mpr hnum)
        exact .inl (hmod.trans_le hle)

/-- The numbers given to `SetThreadNum` bound the cursor: with numbers of type `int`, `next_ + 1` is one, too. -/
theorem next_lt_of_numbers {bound : ℕ} (hbound : 0 < bound) {calls : List PoolCall}
    (hnumbers : Meets step (fun _ call => ∀ n, call = .setThreadNum n → n.natAbs ≤ bound) new calls)
    (hrun : run step new calls = some pool) : pool.next < bound := by
  have hinvariant : pool.threadNum.natAbs ≤ bound ∧ pool.next < bound := by
    refine run_invariant_of_meets (I := fun s => s.threadNum.natAbs ≤ bound ∧ s.next < bound)
      (fun s call s' hs hnumber hstep => ?_) ⟨Nat.zero_le bound, hbound⟩ hnumbers hrun
    cases call with
    | setThreadNum n =>
      obtain rfl := Option.some.inj hstep
      exact ⟨hnumber n rfl, hs.2⟩
    | startLoop =>
      obtain rfl := Option.some.inj hstep
      rw [startLoop_eq]
      exact hs
    | nextLoop =>
      obtain ⟨-, rfl⟩ | ⟨-, hnum, rfl⟩ := step_nextLoop hstep
      · exact hs
      · exact ⟨hs.1, (Nat.mod_lt _ (Int.natAbs_pos.mpr hnum)).trans_le hs.1⟩
  exact hinvariant.2

/-- Where the cursor is in range and `thread_num_` fits, a call is defined. -/
theorem defined_of_fits {call : PoolCall} (h : pool.CursorInRange) (hfits : pool.FitsWhenCalled call) :
    pool.Defined call := by
  rintro rfl
  refine defined_nextLoop_iff.mpr ?_ rfl
  obtain hnil | ⟨hnum, -⟩ := hfits rfl
  · exact .inl hnil
  · obtain hnext | ⟨hnil, -⟩ := h
    · exact .inr ⟨hnext, hnum⟩
    · exact .inl hnil

/-- In a run whose `NextLoop()` calls find a fitting `thread_num_`, all of them are defined. -/
theorem selectsSafely_of_fits {calls : List PoolCall} (h : Meets step FitsWhenCalled new calls) :
    SelectsSafely calls :=
  h.mono_of_kept cursorInRange_step (fun _ _ => defined_of_fits) (.inr ⟨rfl, rfl⟩)

/-- As many threads were started as `thread_num_` says. -/
def Matched (pool : ThreadPool) : Prop :=
  pool.next < pool.loops.length ∧ pool.threadNum = pool.loops.length

/-- The first `StartLoop()` with a positive number leaves a pool in which the two sizes agree. -/
theorem startLoop_matched (hstart : pool.AtStart) (hnil : pool.loops = []) (hnum : 0 < pool.threadNum) :
    pool.startLoop.Matched := by
  have hlength := pool.length_startLoop
  have hnext : pool.startLoop.next = pool.next := by rw [startLoop_eq]
  have hsame : pool.startLoop.threadNum = pool.threadNum := by rw [startLoop_eq]
  have hzero := hstart hnil
  rw [hnil, List.length_nil] at hlength
  exact ⟨by omega, by omega⟩

/-- The threads run different loops. -/
theorem nodup_startLoop (hnil : pool.loops = []) : pool.startLoop.loops.Nodup := by
  simp only [startLoop_eq, hnil, List.nil_append]
  exact List.Nodup.map (fun _ _ h => LoopPointer.worker.inj h) List.nodup_range'

/-- Where the sizes agree, `NextLoop()` is the one of a pool whose threads were started. -/
theorem nextLoop_of_matched (h : pool.Matched) : pool.nextLoop =
    .ok (pool.toEventLoopThreadPool.nextLoop, ⟨pool.toEventLoopThreadPool.advance, pool.threadNum⟩) := by
  have hnext := EventLoopThreadPool.getElem?_nextLoop h.1
  obtain ⟨hnil, -⟩ | ⟨-, hle, -⟩ | ⟨-, hzero, -⟩ | ⟨ret, hret, -, hcall⟩ := pool.nextLoop_cases
  · rw [hnil] at hnext
    cases hnext
  · exact absurd h.1 (Nat.not_lt.mpr hle)
  · rw [h.2, Int.natCast_eq_zero] at hzero
    exact absurd h.1 (by omega)
  · obtain rfl := Option.some.inj (hret.symm.trans hnext)
    rw [hcall, EventLoopThreadPool.advance_eq h.1, h.2, Int.natAbs_natCast]

/-- Calls of `NextLoop()` keep the sizes. -/
theorem Matched.advance (h : pool.Matched) : Matched ⟨pool.toEventLoopThreadPool.advance, pool.threadNum⟩ := by
  rw [EventLoopThreadPool.advance_eq h.1]
  exact ⟨Nat.mod_lt _ (by have := h.1; omega), h.2⟩

/-- Where the sizes agree, the calls of `NextLoop()` return what those of a pool whose threads were started do. -/
theorem selected_of_matched (h : pool.Matched) {calls : List PoolCall} (hcalls : ∀ call ∈ calls, call = .nextLoop) :
    pool.selected calls = pool.toEventLoopThreadPool.selections calls.length := by
  induction calls generalizing pool with
  | nil => rfl
  | cons call rest ih =>
    obtain rfl := hcalls call List.mem_cons_self
    have hlater := ih h.advance fun call hmem => hcalls call (List.mem_cons_of_mem _ hmem)
    rw [selected, nextLoop_of_matched h]
    exact congrArg (List.cons _) hlater

/-- The first threads are used equally often, as long as nothing but `NextLoop()` is called. -/
theorem selectsEvenly (calls : List PoolCall) : SelectsEvenly calls := by
  intro before after pool _ hrun hnil hnum hafter passed hpassed
  have hstart : pool.AtStart := run_invariant atStart_step (fun _ => rfl) hrun
  have hmatched := startLoop_matched hstart hnil hnum
  rw [selected_of_matched hmatched hafter] at hpassed
  exact EventLoopThreadPool.selections_balanced (nodup_startLoop hnil) hmatched.1 hpassed

/-- A call that is defined moves the cursor once there are threads. -/
theorem step_of_defined (hloops : pool.loops ≠ []) (h : pool.Defined .nextLoop) :
    step pool .nextLoop = some { pool with next := (pool.next + 1) % pool.threadNum.natAbs } := by
  obtain ⟨hnil, -⟩ | ⟨-, -, hcall⟩ | ⟨-, -, hcall⟩ | ⟨ret, -, -, hcall⟩ := pool.nextLoop_cases
  · exact absurd hnil hloops
  · exact absurd hcall (h rfl _)
  · exact absurd hcall (h rfl _)
  · rw [step, hcall]
    rfl

/-- Where `thread_num_` does not fit, a call that is defined moves the cursor on, even to the end of `loops_`. -/
theorem step_of_not_fits (h : ¬ pool.Fits) (hdefined : pool.Defined .nextLoop) :
    pool.next < pool.loops.length ∧ step pool .nextLoop = some { pool with next := pool.next + 1 } := by
  obtain ⟨hloops, hlarge⟩ := not_or.mp h
  obtain hnil | ⟨hnext, hnum⟩ := defined_nextLoop_iff.mp hdefined
  · exact absurd hnil hloops
  have hlt : pool.loops.length < pool.threadNum.natAbs := Nat.lt_of_not_le fun hle => hlarge ⟨hnum, hle⟩
  have hplace : (pool.next + 1) % pool.threadNum.natAbs = pool.next + 1 := Nat.mod_eq_of_lt (by omega)
  exact ⟨hnext, hplace ▸ step_of_defined hloops hdefined⟩

/-- Where `thread_num_` does not fit, enough calls of `NextLoop()` end with one that is undefined. -/
theorem not_meets_of_not_fits (h : ¬ pool.Fits) {k : ℕ} (hk : pool.loops.length ≤ pool.next + k) :
    ¬ Meets step Defined pool (List.replicate (k + 1) .nextLoop) := by
  intro hmeets
  obtain ⟨hnext, hmoved⟩ := step_of_not_fits h hmeets.head
  induction k generalizing pool with
  | zero => omega
  | succ k ih =>
    -- the cursor comes one place closer to the end, and the pool still does not fit
    have hlater := hmeets.tail hmoved
    have hfits : ¬ Fits { pool with next := pool.next + 1 } := h
    obtain ⟨hnext', hmoved'⟩ := step_of_not_fits hfits hlater.head
    exact ih hfits (by simp only; omega) hlater hnext' hmoved'

/-- The loops and `thread_num_` are the same, the cursor need not be. -/
def SetUpAlike (pool pool' : ThreadPool) : Prop :=
  pool.loops = pool'.loops ∧ pool.threadNum = pool'.threadNum

/-- If `thread_num_` fits after each of the settings, it fits at every call made between them. -/
theorem fits_of_settings {calls : List PoolCall} (halike : SetUpAlike pool pool')
    (h : ∀ before s, before <+: settings calls → run step pool' before = some s → s.Fits) :
    Meets step FitsWhenCalled pool calls := by
  induction calls generalizing pool pool' with
  | nil => exact trivial
  | cons call rest ih =>
    have hhere : pool'.Fits := h [] pool' List.nil_prefix rfl
    refine ⟨fun _ => ?_, fun next hstep => ?_⟩
    · rwa [Fits, halike.1, halike.2]
    cases call with
    | setThreadNum n =>
      obtain rfl := Option.some.inj hstep
      have hset : SetUpAlike (pool.setThreadNum n) (pool'.setThreadNum n) := ⟨halike.1, rfl⟩
      refine ih hset fun before s hprefix hrun => ?_
      exact h (.setThreadNum n :: before) s (List.cons_prefix_cons.mpr ⟨rfl, hprefix⟩) hrun
    | startLoop =>
      obtain rfl := Option.some.inj hstep
      have hstarted : SetUpAlike pool.startLoop pool'.startLoop := by
        rw [startLoop_eq, startLoop_eq, SetUpAlike, halike.1, halike.2]
        exact ⟨rfl, rfl⟩
      refine ih hstarted fun before s hprefix hrun => ?_
      exact h (.startLoop :: before) s (List.cons_prefix_cons.mpr ⟨rfl, hprefix⟩) hrun
    | nextLoop =>
      have hmoved : SetUpAlike next pool' := by
        obtain ⟨-, rfl⟩ | ⟨-, -, rfl⟩ := step_nextLoop hstep
        · exact halike
        · exact halike
      exact ih hmoved h

/-- Calls of `NextLoop()` are no settings. -/
theorem settings_burst (before after : List PoolCall) (k : ℕ) :
    settings (before ++ List.replicate k .nextLoop ++ after) = settings (before ++ after) := by
  simp [settings]

/-- Settings are taken over as they are. -/
theorem settings_settings (calls : List PoolCall) : settings (settings calls) = settings calls := by
  simp [settings]

/-- **Loop selection.** Every run in which `thread_num_` fits whenever `NextLoop()` is called is safe and even.
The calls of `NextLoop()` can stand anywhere between the settings if and only if `thread_num_` fits after
each of these. -/
theorem nextLoop_safe_and_even (calls : List PoolCall) :
    (Meets step FitsWhenCalled new calls → SelectsSafely calls ∧ SelectsEvenly calls) ∧
      ((∀ others, settings others = settings calls → SelectsSafely others ∧ SelectsEvenly others) ↔
        ∀ before pool, before <+: settings calls → run step new before = some pool → pool.Fits) := by
  refine ⟨fun h => ⟨selectsSafely_of_fits h, selectsEvenly calls⟩, fun h before pool hprefix hrun => ?_, ?_⟩
  · by_contra hfits
    obtain ⟨after, hsplit⟩ := hprefix
    -- the connections arrive while `thread_num_` does not fit
    have hsettings : settings (before ++ List.replicate (pool.loops.length + 1) .nextLoop ++ after) =
        settings calls := by
      rw [settings_burst, hsplit, settings_settings]
    have hmeets := (meets_append.mp (h _ hsettings).1).1
    exact not_meets_of_not_fits hfits (Nat.le_add_left _ _) ((meets_append.mp hmeets).2 pool hrun)
  · intro h others hsame
    have halike : SetUpAlike new new := ⟨rfl, rfl⟩
    have hmeets : Meets step FitsWhenCalled new others := by
      apply fits_of_settings halike
      rwa [hsame]
    exact ⟨selectsSafely_of_fits hmeets, selectsEvenly others⟩

/-- Two threads are started, and a third one while the connections arrive. -/
def twoStarts : List PoolCall :=
  [.setThreadNum 2, .startLoop, .nextLoop, .nextLoop, .nextLoop, .setThreadNum 1, .startLoop, .setThreadNum 3,
    .nextLoop, .nextLoop]

/-- The third thread is used after the other two. -/
theorem nextLoop_safe_and_even_twoStarts : (SelectsSafely twoStarts ∧ SelectsEvenly twoStarts) ∧
    new.selected twoStarts = [.worker 0, .worker 1, .worker 0, .worker 1, .worker 2] :=
  ⟨(nextLoop_safe_and_even twoStarts).1 (by decide), rfl⟩

/-- A number set after the threads were started: zero is a divisor at once, and with three for one thread the
second connection is given a loop from outside `loops_`. -/
theorem nextLoop_faults :
    (run step new [.setThreadNum 2, .startLoop, .setThreadNum 0]).map nextLoop = some (.error .divisionByZero) ∧
      (run step new [.setThreadNum 1, .startLoop, .setThreadNum 3, .nextLoop]).map nextLoop =
        some (.error .outOfRange) ∧
      ¬ ∀ calls, (∀ n, .setThreadNum n ∈ calls → 0 ≤ n) → SelectsSafely calls ∧ SelectsEvenly calls := by
  refine ⟨rfl, rfl, fun h => ?_⟩
  have hsafe := (h ([.setThreadNum 2, .startLoop, .setThreadNum 0] ++ [.nextLoop]) (by simp)).1
  exact Meets.at_run hsafe rfl rfl .divisionByZero rfl

end ThreadPool

end WebServer.Util
