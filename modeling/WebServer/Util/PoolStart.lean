import WebServer.Foundation.Heap
import WebServer.Util.LoopSelection
import WebServer.Util.ThreadStart

/-!
# Starting the threads of the pool

`StartLoop()` of the pool starts one thread after the other. Each thread constructs its own loop and
announces it, and `StartLoop()` of its `EventLoopThread` returns the loop that was announced. While the
next threads are started, those started before take steps as well.

Whatever the order of these steps is, the pool gets the loops that it has in `ThreadPool.startLoop`, where
the threads are started at once.
-/

namespace WebServer.Util

open WebServer.Foundation

/-- `loop_` under its mutex and condition variable: `StartLoop()` waits until it is not null, and `StartFunc()`
sets it. -/
def announcedLoop (loop : LoopPointer) : MonitorSpec Party (Option LoopPointer) where
  waits := Party.waits
  ready announced := announced ≠ none
  update _ _ := some loop
  wakes _ := .one

/-- The loop is announced. -/
theorem announces_announcedLoop (loop : LoopPointer) : Announces (announcedLoop loop) none where
  lawful := by
    refine ⟨fun _ _ _ => rfl, fun _ _ _ _ hnone => (by cases hnone), fun _ _ t u ht hu => ?_⟩
    cases t with
    | thread => cases ht
    | starter =>
      cases u with
      | thread => cases hu
      | starter => rfl
  waits := rfl
  before := rfl
  after := rfl

/-- An `EventLoopThread`: the loop which its thread constructs, and how far its start is. -/
structure EventLoopThread where
  loop : LoopPointer
  start : ThreadStart (Option LoopPointer)

/-- `StartLoop()` of the pool: `thread_num_`, the pointers in `loops_`, the count `i`, and the threads started by
this call. -/
structure PoolStart where
  threadNum : ℤ
  loops : List (Option LoopPointer)
  i : ℕ
  threads : List EventLoopThread

/-- The steps: a new `EventLoopThread`, a step of the start of one of them, and the end of the loop body. -/
inductive PoolStartAction where
  | construct
  | thread (k : ℕ) (action : StartAction)
  | emplace

/-- A thread wakes up for no reason. -/
def PoolStartAction.isSpurious : PoolStartAction → Bool
  | thread _ action => action.isSpurious
  | _ => false

namespace PoolStart

/-- `StartLoop()` is called. -/
def new (pool : ThreadPool) : PoolStart := ⟨pool.threadNum, pool.loops.map some, 0, []⟩

/-- One step. -/
def step (s : PoolStart) : PoolStartAction → Option PoolStart
  | .construct =>
    if s.threads.length = s.i ∧ (s.i : ℤ) < s.threadNum then
      some { s with threads := s.threads ++ [⟨.worker s.loops.length, .new none⟩] }
    else none
  | .thread k action =>
    s.threads[k]?.bind fun thread =>
      (thread.start.step (announcedLoop thread.loop) action).map fun start =>
        { s with threads := s.threads.set k { thread with start } }
  | .emplace =>
    s.threads[s.i]?.bind fun thread =>
      if thread.start.returned then
        thread.start.result.map fun loop => { s with loops := s.loops ++ [loop], i := s.i + 1 }
      else none

/-- `StartLoop()` has returned. -/
def returned (s : PoolStart) : Bool := s.threads.length = s.i ∧ ¬ (s.i : ℤ) < s.threadNum

/-- The invariant, over the pool whose `StartLoop()` was called. -/
structure Starting (pool : ThreadPool) (s : PoolStart) : Prop where
  threadNum : s.threadNum = pool.threadNum
  length : s.threads.length = s.i ∨ s.threads.length = s.i + 1
  bound : s.threads.length ≤ pool.threadNum.toNat
  loops : s.loops = (ThreadPool.startThread^[s.i] pool).loops.map some
  loop : ∀ (k : ℕ) (thread : EventLoopThread), s.threads[k]? = some thread →
    thread.loop = .worker (pool.loops.length + k)
  started : ∀ (k : ℕ) (thread : EventLoopThread), s.threads[k]? = some thread →
    ThreadStart.Started (announcedLoop thread.loop) none thread.start
  before : ∀ (k : ℕ) (thread : EventLoopThread), s.threads[k]? = some thread → k < s.i →
    thread.start.returned = true

variable {pool : ThreadPool} {s s' : PoolStart}

/-- At the start of the call no thread was started. -/
theorem starting_new (pool : ThreadPool) : Starting pool (new pool) where
  threadNum := rfl
  length := Or.inl rfl
  bound := Nat.zero_le _
  loops := rfl
  loop _ _ h := by cases h
  started _ _ h := by cases h
  before _ _ h := by cases h

/-- The number of loops. -/
theorem Starting.length_loops (h : Starting pool s) : s.loops.length = pool.loops.length + s.i := by
  rw [h.loops, ThreadPool.iterate_startThread]
  simp

/-- A new thread is behind those that were started. -/
theorem Starting.construct (h : Starting pool s) (hlength : s.threads.length = s.i)
    (hmore : (s.i : ℤ) < s.threadNum) :
    Starting pool { s with threads := s.threads ++ [⟨.worker s.loops.length, .new none⟩] } where
  threadNum := h.threadNum
  length := Or.inr (by rw [List.length_append, hlength]; rfl)
  bound := by
    rw [h.threadNum] at hmore
    rw [List.length_append, hlength, List.length_singleton]
    omega
  loops := h.loops
  loop k thread hk := by
    rcases getElem?_concat_cases hk with ⟨-, hold⟩ | ⟨rfl, rfl⟩
    · exact h.loop k thread hold
    · change LoopPointer.worker s.loops.length = _
      rw [h.length_loops, hlength]
  started k thread hk := by
    rcases getElem?_concat_cases hk with ⟨-, hold⟩ | ⟨rfl, rfl⟩
    · exact h.started k thread hold
    · exact ThreadStart.started_new _ _
  before k thread hk hlt := by
    rcases getElem?_concat_cases hk with ⟨-, hold⟩ | ⟨rfl, -⟩
    · exact h.before k thread hold hlt
    · exact absurd hlength (Nat.ne_of_lt hlt)

/-- The step of a thread does not concern the others. -/
theorem Starting.thread (h : Starting pool s) {k : ℕ} {thread : EventLoopThread} (hk : s.threads[k]? = some thread)
    {action : StartAction} {start : ThreadStart (Option LoopPointer)}
    (hstart : thread.start.step (announcedLoop thread.loop) action = some start) :
    Starting pool { s with threads := s.threads.set k { thread with start } } where
  threadNum := h.threadNum
  length := by
    rw [List.length_set]
    exact h.length
  bound := by
    rw [List.length_set]
    exact h.bound
  loops := h.loops
  loop j found hj := by
    rcases getElem?_set_cases hj with ⟨rfl, rfl⟩ | ⟨-, hold⟩
    · exact h.loop j thread hk
    · exact h.loop j found hold
  started j found hj := by
    rcases getElem?_set_cases hj with ⟨rfl, rfl⟩ | ⟨-, hold⟩
    · exact ThreadStart.started_step (announces_announcedLoop _) _ _ _ (h.started j thread hk) hstart
    · exact h.started j found hold
  before j found hj hlt := by
    rcases getElem?_set_cases hj with ⟨rfl, rfl⟩ | ⟨-, hold⟩
    · exact ThreadStart.returned_step hstart (h.before j thread hk hlt)
    · exact h.before j found hold hlt

/-- The loop that is appended is the one of the thread. -/
theorem Starting.emplace (h : Starting pool s) {thread : EventLoopThread} (hthread : s.threads[s.i]? = some thread)
    (hreturned : thread.start.returned = true) {loop : Option LoopPointer}
    (hresult : thread.start.result = some loop) :
    Starting pool { s with loops := s.loops ++ [loop], i := s.i + 1 } where
  threadNum := h.threadNum
  length := by
    have hlt := (List.getElem?_eq_some_iff.mp hthread).1
    rcases h.length with hsame | hmore
    · omega
    · exact Or.inl hmore
  bound := h.bound
  loops := by
    have hannounced := (h.started s.i thread hthread).result hreturned
    have hloop : loop = some (.worker (pool.loops.length + s.i)) := by
      rw [hresult] at hannounced
      rw [Option.some.inj hannounced, ← h.loop s.i thread hthread]
      rfl
    rw [h.loops, hloop, Function.iterate_succ_apply', ThreadPool.startThread, List.map_append]
    have hlength := h.length_loops
    rw [h.loops, List.length_map] at hlength
    rw [hlength]
    rfl
  loop := h.loop
  started := h.started
  before k found hk hlt := by
    by_cases hlast : k = s.i
    · subst hlast
      obtain rfl := Option.some.inj (hthread.symm.trans hk)
      exact hreturned
    · exact h.before k found hk (Nat.lt_of_le_of_ne (Nat.le_of_lt_succ hlt) hlast)

/-- Every step keeps the invariant. -/
theorem starting_step (s : PoolStart) (action : PoolStartAction) (s' : PoolStart) (h : Starting pool s)
    (hstep : s.step action = some s') : Starting pool s' := by
  cases action with
  | construct =>
    obtain ⟨⟨hlength, hmore⟩, hs'⟩ := Option.ite_none_right_eq_some.mp hstep
    exact Option.some.inj hs' ▸ h.construct hlength hmore
  | thread k action =>
    obtain ⟨thread, hthread, hmap⟩ := Option.bind_eq_some_iff.mp hstep
    obtain ⟨start, hstart, rfl⟩ := Option.map_eq_some_iff.mp hmap
    exact h.thread hthread hstart
  | emplace =>
    obtain ⟨thread, hthread, hmap⟩ := Option.bind_eq_some_iff.mp hstep
    obtain ⟨hreturned, hresult⟩ := Option.ite_none_right_eq_some.mp hmap
    obtain ⟨loop, hloop, rfl⟩ := Option.map_eq_some_iff.mp hresult
    exact h.emplace hthread hreturned hloop

/-- Until `StartLoop()` has returned, some thread can go on. -/
theorem Starting.exists_step (h : Starting pool s) :
    (∃ action s', PoolStartAction.isSpurious action = false ∧ s.step action = some s') ∨ s.returned = true := by
  rcases h.length with hsame | hmore
  · by_cases hnext : (s.i : ℤ) < s.threadNum
    · exact Or.inl ⟨.construct, _, rfl, if_pos ⟨hsame, hnext⟩⟩
    · exact Or.inr (decide_eq_true ⟨hsame, hnext⟩)
  · have hlt : s.i < s.threads.length := by omega
    obtain ⟨thread, hthread⟩ : ∃ thread, s.threads[s.i]? = some thread := ⟨_, List.getElem?_eq_getElem hlt⟩
    have hstarted := h.started s.i thread hthread
    rcases hstarted.exists_step (announces_announcedLoop _) with ⟨action, start, hfree, hstart⟩ | ⟨hreturned, -⟩
    · refine Or.inl ⟨.thread s.i action, { s with threads := s.threads.set s.i { thread with start } }, hfree, ?_⟩
      rw [step, hthread, Option.bind_some, hstart, Option.map_some]
    · refine Or.inl ⟨.emplace, { s with loops := s.loops ++ [some thread.loop], i := s.i + 1 }, rfl, ?_⟩
      rw [step, hthread, Option.bind_some, if_pos hreturned, hstarted.result hreturned, Option.map_some]
      rfl

/-- The steps that are left: of the threads started so far, of those to be started, and the end of the loop body. -/
def measure (s : PoolStart) : ℕ :=
  (s.threads.map fun thread => thread.start.measure).sum + 43 * (s.threadNum.toNat - s.threads.length) +
    (s.threads.length - s.i)

/-- Replacing one thread changes its part of the sum. -/
theorem sum_measure_set {threads : List EventLoopThread} {k : ℕ} {thread : EventLoopThread}
    (hk : threads[k]? = some thread) (thread' : EventLoopThread) :
    ((threads.set k thread').map fun thread => thread.start.measure).sum + thread.start.measure =
      (threads.map fun thread => thread.start.measure).sum + thread'.start.measure := by
  induction threads generalizing k with
  | nil => cases hk
  | cons first rest ih =>
    cases k with
    | zero =>
      obtain rfl := Option.some.inj hk
      simp only [List.set_cons_zero, List.map_cons, List.sum_cons]
      omega
    | succ k =>
      have hrest := ih hk
      simp only [List.set_cons_succ, List.map_cons, List.sum_cons]
      omega

/-- Every step uses one of them up, unless a thread wakes up for no reason. -/
theorem measure_step {action : PoolStartAction} (hstep : s.step action = some s') :
    s'.measure + 1 ≤ s.measure + if action.isSpurious then 4 else 0 := by
  cases action with
  | construct =>
    obtain ⟨⟨hlength, hmore⟩, hs'⟩ := Option.ite_none_right_eq_some.mp hstep
    obtain rfl := Option.some.inj hs'
    have hnew : (ThreadStart.new (none : Option LoopPointer)).measure = 41 := ThreadStart.measure_new none
    simp only [measure, List.map_append, List.sum_append, List.map_cons, List.map_nil, List.sum_cons, List.sum_nil,
      List.length_append, List.length_singleton, hnew, PoolStartAction.isSpurious]
    omega
  | thread k action =>
    obtain ⟨thread, hthread, hmap⟩ := Option.bind_eq_some_iff.mp hstep
    obtain ⟨start, hstart, rfl⟩ := Option.map_eq_some_iff.mp hmap
    have hmeasure := ThreadStart.measure_step hstart
    have hsum := sum_measure_set hthread { thread with start }
    dsimp only at hsum
    change _ + 1 ≤ s.measure + if action.isSpurious then 4 else 0
    simp only [measure, List.length_set]
    omega
  | emplace =>
    obtain ⟨thread, hthread, hmap⟩ := Option.bind_eq_some_iff.mp hstep
    obtain ⟨-, hresult⟩ := Option.ite_none_right_eq_some.mp hmap
    obtain ⟨loop, -, rfl⟩ := Option.map_eq_some_iff.mp hresult
    have hlt := (List.getElem?_eq_some_iff.mp hthread).1
    simp only [measure, PoolStartAction.isSpurious]
    omega

/-- In every run of `StartLoop()`, whatever the order of the steps of all threads is and whenever they wake up
for no reason: when it has returned, `loops_` is what it is in the pool whose threads are started at once, and
each thread it has started is past the announcement of its loop; until then some thread can always go on; and
apart from what the wakeups cost, the number of steps is bounded. -/
theorem startLoop_run {actions : List PoolStartAction} (hrun : run step (new pool) actions = some s) :
    (s.returned = true → s.loops = pool.startLoop.loops.map some ∧
      ∀ thread ∈ s.threads, thread.start.announcement.position .thread = .updated) ∧
    ((∃ action s', PoolStartAction.isSpurious action = false ∧ s.step action = some s') ∨ s.returned = true) ∧
    actions.length ≤ 43 * pool.threadNum.toNat + 4 * actions.countP PoolStartAction.isSpurious := by
  have hstarting := run_invariant starting_step (starting_new pool) hrun
  refine ⟨fun hreturned => ?_, hstarting.exists_step, ?_⟩
  · obtain ⟨hlength, hover⟩ := of_decide_eq_true hreturned
    have hbound := hstarting.bound
    rw [hstarting.threadNum] at hover
    have hi : s.i = pool.threadNum.toNat := by omega
    refine ⟨by rw [hstarting.loops, hi, ThreadPool.startLoop], fun thread hmem => ?_⟩
    obtain ⟨k, hlt, rfl⟩ := List.getElem_of_mem hmem
    have hk := List.getElem?_eq_getElem hlt
    have hleft := hstarting.before k _ hk (by omega)
    refine (hstarting.started k _ hk).settled ?_
    rw [of_decide_eq_true hleft]
    rfl
  · have hbound : s.measure + actions.length ≤ (new pool).measure + 4 * actions.countP PoolStartAction.isSpurious :=
      run_length_le (fun s action s' hstep => measure_step hstep) hrun
    have hnew : (new pool).measure = 43 * pool.threadNum.toNat := by simp [measure, new]
    omega

/-- A pool of one thread, which announces its loop before the starter asks for it. -/
def oneThreadActions : List PoolStartAction :=
  [.construct] ++ [StartAction.create, .latch (.lock .starter), .latch (.test .starter), .latch (.lock .thread),
    .latch (.update .thread), .latch (.notify .thread none), .latch (.unlock .thread), .announce (.lock .thread),
    .announce (.update .thread), .announce (.notify .thread none), .announce (.unlock .thread),
    .latch (.relock .starter), .latch (.test .starter), .latch (.unlock .starter), .announce (.lock .starter),
    .announce (.test .starter), .announce (.unlock .starter)].map (.thread 0) ++ [.emplace]

/-- The loop of the thread is in the pool. -/
theorem startLoop_oneThread : ∃ s, run step (new (ThreadPool.new.setThreadNum 1)) oneThreadActions = some s ∧
    s.loops = [some (.worker 0)] := by
  have hrun : run step (new (ThreadPool.new.setThreadNum 1)) oneThreadActions = some _ := rfl
  exact ⟨_, hrun, ((startLoop_run hrun).1 rfl).1⟩

end PoolStart

end WebServer.Util
