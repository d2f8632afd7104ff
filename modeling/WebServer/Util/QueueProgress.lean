import WebServer.Util.PendingTasks

/-!
# Queued functions are run

A function that waits is started before `epoll_wait` has returned twice: whatever the other threads and
the descriptors do meanwhile, the loop thread swaps the queue once between two returns and then calls the
whole batch. And no event from outside is needed to get there. From every state the loop thread can run
everything that waits, with no descriptor ready but its own eventfd, once the threads that are still in
`QueueOneFunc` have written to it.
-/

namespace WebServer.Util

open WebServer.Foundation

variable {Task Chan Producer : Type}

/-- `epoll_wait` returns. -/
def LoopAction.isPoll : LoopAction Task Chan Producer → Bool
  | poll _ => true
  | _ => false

/-- The action needs nothing from outside: nothing is pushed, and nothing is reported but the eventfd. -/
def LoopAction.Inward : LoopAction Task Chan Producer → Prop
  | push _ _ => False
  | ownPush _ => False
  | poll active => active = [.wakeup]
  | _ => True

/-- Inward actions push nothing. -/
theorem LoopAction.Inward.pushed_eq_nil {action : LoopAction Task Chan Producer} (h : action.Inward) :
    action.pushed = [] := by
  cases action with
  | push producer task => cases h
  | ownPush task => cases h
  | _ => rfl

namespace EventLoop

variable [DecidableEq Chan] [DecidableEq Producer]

/-- The batch with the given number of functions was taken: unless the queue is still to be swapped before the next
`epoll_wait`, they are started or in the rest of the batch. -/
def Taken (count : ℕ) (s : EventLoop Task Chan Producer) : Prop :=
  s.position.pollsFirst = true → count ≤ (s.ran ++ s.position.remaining).length

/-- How far the loop has come with the functions queued so far, by the returns of `epoll_wait`. -/
def Served (count : ℕ) : ℕ → EventLoop Task Chan Producer → Prop
  | 0, s => count ≤ s.queued.length
  | 1, s => count ≤ s.queued.length ∧ s.Taken count
  | _, s => count ≤ s.ran.length

variable {s s' t : EventLoop Task Chan Producer} {action : LoopAction Task Chan Producer} {count : ℕ}

/-- What was queued stays queued or is started. -/
theorem length_queued_le (h : s.step action = some s') : s.queued.length ≤ s'.queued.length := by
  rw [queued_step h, List.length_append]
  exact Nat.le_add_right _ _

/-- A started function stays started. -/
theorem length_ran_le (h : s.step action = some s') : s.ran.length ≤ s'.ran.length := by
  cases stepped_of_step h with
  | runNext task rest hposition =>
    rw [List.length_append]
    exact Nat.le_add_right _ _
  | _ => exact Nat.le_refl _

/-- No step puts a function of the batch back. -/
theorem taken_step (hcount : count ≤ s.queued.length) (htaken : s.Taken count) (h : s.step action = some s') :
    s'.Taken count := by
  rw [Taken] at htaken ⊢
  cases stepped_of_step h with
  | push producer task hidle => exact htaken
  | write producer howes => exact htaken
  | poll active hposition hreported => exact fun hpolls => by cases hpolls
  | handleRead active hposition => exact fun hpolls => by cases hpolls
  | ownPush task hmay => exact htaken
  | ownWrite howes => exact htaken
  | handlerDone channel active hposition hsettled => exact fun hpolls => by cases hpolls
  | beginFunctors hposition => exact fun hpolls => by cases hpolls
  | swap hposition =>
    intro _
    have hnone : s.position.remaining = [] := by rw [hposition]; rfl
    rwa [queued, hnone, List.append_nil] at hcount
  | runNext task rest hposition =>
    intro _
    have hbefore := htaken (by rw [hposition]; rfl)
    rw [hposition, LoopPosition.remaining] at hbefore
    simpa [LoopPosition.remaining] using hbefore
  | functorDone rest hposition hsettled =>
    intro _
    have hbefore := htaken (by rw [hposition]; rfl)
    rwa [hposition] at hbefore
  | endFunctors hposition =>
    intro _
    have hbefore := htaken (by rw [hposition]; rfl)
    rwa [hposition] at hbefore

/-- Only from `epoll_wait` it returns. -/
theorem polling_of_isPoll (h : s.step action = some s') (hpoll : action.isPoll = true) :
    s.position = .polling ∧ s'.position.pollsFirst = false := by
  cases stepped_of_step h with
  | poll active hposition hreported => exact ⟨hposition, rfl⟩
  | _ => cases hpoll

/-- Every return of `epoll_wait` brings the loop further, and no step sets it back. -/
theorem served_step (k : ℕ) (h : Served count k s) (hstep : s.step action = some s') :
    Served count (if action.isPoll then k + 1 else k) s' := by
  match k, h with
  | 0, h =>
    have hcount : count ≤ s'.queued.length := Nat.le_trans h (length_queued_le hstep)
    split_ifs with hpoll
    · refine ⟨hcount, fun hpolls => ?_⟩
      rw [(polling_of_isPoll hstep hpoll).2] at hpolls
      cases hpolls
    · exact hcount
  | 1, ⟨hcount, htaken⟩ =>
    split_ifs with hpoll
    · have hposition := (polling_of_isPoll hstep hpoll).1
      have hnone : s.position.remaining = [] := by rw [hposition]; rfl
      have hran := htaken (by rw [hposition]; rfl)
      rw [hnone, List.append_nil] at hran
      exact Nat.le_trans hran (length_ran_le hstep)
    · exact ⟨Nat.le_trans hcount (length_queued_le hstep), taken_step hcount htaken hstep⟩
  | k + 2, h =>
    have hran : count ≤ s'.ran.length := Nat.le_trans h (length_ran_le hstep)
    split_ifs
    · exact hran
    · exact hran

omit [DecidableEq Chan] [DecidableEq Producer] in
/-- The started functions are the first ones of those that were queued. -/
theorem ran_prefix_queued (s : EventLoop Task Chan Producer) : s.ran <+: s.queued := by
  rw [queued, List.append_assoc]
  exact List.prefix_append _ _

/-- When `epoll_wait` has returned twice, everything that waited before was started. -/
theorem served_run {more : List (LoopAction Task Chan Producer)} (hrun : run step s more = some t)
    (hpolls : 2 ≤ more.countP LoopAction.isPoll) : s.queued <+: t.ran := by
  have hstart : Served s.queued.length 0 s := Nat.le_refl _
  have hserved := run_levels (fun k _ _ _ => served_step k) hstart hrun
  obtain ⟨k, hk⟩ := Nat.exists_eq_add_of_le hpolls
  rw [Nat.zero_add, hk, Nat.add_comm 2 k] at hserved
  refine List.prefix_of_prefix_length_le ?_ t.ran_prefix_queued hserved
  rw [queued_run hrun]
  exact List.prefix_append _ _

/-- The loop gets there by itself. -/
abbrev GetsTo (s t : EventLoop Task Chan Producer) : Prop := ReachedBy step LoopAction.Inward s t

/-- Inward actions queue nothing. -/
theorem queued_of_getsTo (h : s.GetsTo t) : t.queued = s.queued := by
  obtain ⟨actions, hinward, hrun⟩ := h
  have hpushed : actions.flatMap LoopAction.pushed = [] :=
    List.flatMap_eq_nil_iff.mpr fun action haction => (hinward action haction).pushed_eq_nil
  rw [queued_run hrun, hpushed, List.append_nil]

/-- Reached states are announced. -/
theorem announced_of_getsTo (hs : s.Announced) (h : s.GetsTo t) : t.Announced := by
  obtain ⟨actions, -, hrun⟩ := h
  exact run_invariant announced_step hs hrun

/-- The callbacks end one after the other. -/
theorem getsTo_handled (active : List (ActiveChannel Chan)) (hposition : s.position = .handling active)
    (howes : s.owesWrite = false) : ∃ t, s.GetsTo t ∧ t.position = .handling [] := by
  induction active generalizing s with
  | nil => exact ⟨s, .refl _ _ _, hposition⟩
  | cons channel active ih =>
    cases channel with
    | wakeup =>
      have hstep : s.step .handleRead = some { s with wakeupCount := 0, position := .handling active } := by
        simp [step, hposition]
      obtain ⟨t, hgets, ht⟩ := ih (s := { s with wakeupCount := 0, position := .handling active }) rfl howes
      exact ⟨t, .head hstep trivial hgets, ht⟩
    | other channel =>
      have hstep : s.step .handlerDone = some { s with position := .handling active } := by
        simp [step, hposition, howes]
      obtain ⟨t, hgets, ht⟩ := ih (s := { s with position := .handling active }) rfl howes
      exact ⟨t, .head hstep trivial hgets, ht⟩

/-- The functions of the batch are called one after the other. -/
theorem getsTo_polling (rest : List Task) (hposition : s.position = .running rest) (howes : s.owesWrite = false) :
    ∃ t, s.GetsTo t ∧ t.position = .polling ∧ t.toDoList = s.toDoList := by
  induction rest generalizing s with
  | nil =>
    have hstep : s.step .endFunctors =
        some { s with callingFunctors := false, funclists := [], position := .polling } := by simp [step, hposition]
    exact ⟨_, .head hstep trivial (.refl _ _ _), rfl, rfl⟩
  | cons task rest ih =>
    let started : EventLoop Task Chan Producer := { s with ran := s.ran ++ [task], position := .calling rest }
    let called : EventLoop Task Chan Producer := { s with ran := s.ran ++ [task], position := .running rest }
    have hstart : s.step .runNext = some started := by simp [step, hposition, started]
    have hdone : started.step .functorDone = some called := by simp [step, howes, started, called]
    obtain ⟨t, hgets, ht⟩ := ih (s := called) rfl howes
    exact ⟨t, .head hstart trivial (.head hdone trivial hgets), ht⟩

/-- From a callback on, the loop swaps the queue and calls all of it. -/
theorem getsTo_swapped (hs : s.Announced) (hposition : s.position = .handling []) :
    ∃ t, s.GetsTo t ∧ t.position = .polling ∧ t.toDoList = [] := by
  have howes := hs.settled (by simp [hposition])
  let begun : EventLoop Task Chan Producer := { s with callingFunctors := true, position := .swapping }
  let swapped : EventLoop Task Chan Producer :=
    { begun with funclists := s.toDoList, toDoList := [], position := .running s.toDoList }
  have hbegin : s.step .beginFunctors = some begun := by simp [step, hposition, begun]
  have hswap : begun.step .swap = some swapped := rfl
  obtain ⟨t, hgets, ht⟩ := getsTo_polling (s := swapped) s.toDoList rfl howes
  exact ⟨t, .head hbegin trivial (.head hswap trivial hgets), ht⟩

/-- With functions queued, the eventfd lets `epoll_wait` return. -/
theorem getsTo_woken (hs : s.Announced) (hposition : s.position = .polling) (hqueue : s.toDoList ≠ []) :
    ∃ t, s.GetsTo t ∧ t.position = .handling [.wakeup] := by
  have hpoll (s : EventLoop Task Chan Producer) (hposition : s.position = .polling) (hcount : 0 < s.wakeupCount) :
      s.step (.poll [.wakeup]) = some { s with position := .handling [.wakeup] } := by
    simp [step, hposition, Nat.ne_of_gt hcount]
  have howes := hs.settled (by simp [hposition])
  rcases hs.announced (by rw [hposition]; rfl) hqueue with hcount | hwrite | ⟨producer, hwriting⟩
  · exact ⟨_, .head (hpoll s hposition hcount) rfl (.refl _ _ _), rfl⟩
  · rw [howes] at hwrite
    cases hwrite
  · have hwritten : s.step (.write producer) =
        some { s.notify with writing := Function.update s.writing producer false } := by simp [step, hwriting]
    have hreturn :=
      hpoll { s.notify with writing := Function.update s.writing producer false } hposition s.notify_pos
    exact ⟨_, .head hwritten trivial (.head hreturn rfl (.refl _ _ _)), rfl⟩

/-- From every position the loop gets back to `epoll_wait`. -/
theorem exists_getsTo_polling (hs : s.Announced) : ∃ t, s.GetsTo t ∧ t.position = .polling := by
  cases hposition : s.position with
  | polling => exact ⟨s, .refl _ _ _, hposition⟩
  | handling active =>
    obtain ⟨m, hhandled, hm⟩ := getsTo_handled active hposition (hs.settled (by simp [hposition]))
    obtain ⟨t, hswapped, ht, -⟩ := getsTo_swapped (announced_of_getsTo hs hhandled) hm
    exact ⟨t, hhandled.trans hswapped, ht⟩
  | swapping =>
    let swapped : EventLoop Task Chan Producer :=
      { s with funclists := s.toDoList, toDoList := [], position := .running s.toDoList }
    have hswap : s.step .swap = some swapped := by simp [step, hposition, swapped]
    obtain ⟨t, hgets, ht, -⟩ :=
      getsTo_polling (s := swapped) s.toDoList rfl (hs.settled (by simp [hposition]))
    exact ⟨t, .head hswap trivial hgets, ht⟩
  | running rest =>
    obtain ⟨t, hgets, ht, -⟩ := getsTo_polling rest hposition (hs.settled (by simp [hposition]))
    exact ⟨t, hgets, ht⟩
  | calling rest =>
    have hdone (s : EventLoop Task Chan Producer) (hposition : s.position = .calling rest)
        (howes : s.owesWrite = false) : ∃ t, s.GetsTo t ∧ t.position = .polling := by
      let called : EventLoop Task Chan Producer := { s with position := .running rest }
      have hstep : s.step .functorDone = some called := by simp [step, hposition, howes, called]
      obtain ⟨t, hgets, ht, -⟩ := getsTo_polling (s := called) rest rfl howes
      exact ⟨t, .head hstep trivial hgets, ht⟩
    cases howes : s.owesWrite with
    | false => exact hdone s hposition howes
    | true =>
      have hwritten : s.step .ownWrite = some { s.notify with owesWrite := false } := by simp [step, howes]
      obtain ⟨t, hgets, ht⟩ := hdone { s.notify with owesWrite := false } hposition rfl
      exact ⟨t, .head hwritten trivial hgets, ht⟩

/-- From every announced state the loop can empty the queue and get back to `epoll_wait`. -/
theorem exists_getsTo_drained (hs : s.Announced) : ∃ t, s.GetsTo t ∧ t.position = .polling ∧ t.toDoList = [] := by
  obtain ⟨m, hfirst, hm⟩ := exists_getsTo_polling hs
  by_cases hqueue : m.toDoList = []
  · exact ⟨m, hfirst, hm, hqueue⟩
  · have hannounced := announced_of_getsTo hs hfirst
    obtain ⟨woken, hwoken, hposition⟩ := getsTo_woken hannounced hm hqueue
    have hsettled := (announced_of_getsTo hannounced hwoken).settled (by simp [hposition])
    obtain ⟨handled, hhandled, hnone⟩ := getsTo_handled [.wakeup] hposition hsettled
    obtain ⟨t, hswapped, ht⟩ := getsTo_swapped
      (announced_of_getsTo (announced_of_getsTo hannounced hwoken) hhandled) hnone
    exact ⟨t, hfirst.trans (hwoken.trans (hhandled.trans hswapped)), ht⟩

/-- In every run of a loop and the threads that queue functions, and from every state of it: when `epoll_wait` has
returned twice, everything that was queued before was started, in order; and the loop can start everything that
is queued with no event but its own wakeup. -/
theorem queue_progress {actions : List (LoopAction Task Chan Producer)} (hrun : run step new actions = some s) :
    (∀ more t, run step s more = some t → 2 ≤ more.countP LoopAction.isPoll → s.ran ++ s.pending <+: t.ran) ∧
      ∃ more t, (∀ action ∈ more, action.Inward) ∧ run step s more = some t ∧ t.ran = s.ran ++ s.pending := by
  have hqueued : s.queued = s.ran ++ s.pending := List.append_assoc _ _ _
  rw [← hqueued]
  refine ⟨fun more t hmore => served_run hmore, ?_⟩
  obtain ⟨t, hgets, hposition, hqueue⟩ :=
    exists_getsTo_drained (run_invariant announced_step announced_new hrun)
  have hran : t.ran = t.queued := by
    have hnone : t.position.remaining = [] := by rw [hposition]; rfl
    rw [queued, hnone, hqueue, List.append_nil, List.append_nil]
  have hsame := queued_of_getsTo hgets
  obtain ⟨more, hinward, hmore⟩ := hgets
  exact ⟨more, t, hinward, hmore, hran.trans hsame⟩

/-- The loop calls a batch, and another thread queues a function. -/
def batchActions : List (LoopAction ℕ Unit Unit) :=
  [.poll [.other ()], .handlerDone, .beginFunctors, .swap, .push () 7]

/-- The batch ends, and the next round follows. -/
def roundActions : List (LoopAction ℕ Unit Unit) :=
  [.endFunctors, .write (), .poll [.wakeup], .handleRead, .beginFunctors, .swap, .runNext, .functorDone,
    .endFunctors,
    .poll []]

/-- A function that is queued while the batch runs is started in the next round. -/
theorem queue_progress_nextRound : ∃ s t : EventLoop ℕ Unit Unit,
    run step new batchActions = some s ∧ run step s roundActions = some t ∧ [7] <+: t.ran := by
  have hrun : run step (new : EventLoop ℕ Unit Unit) batchActions = some _ := rfl
  refine ⟨_, _, hrun, rfl, ?_⟩
  exact (queue_progress hrun).1 roundActions _ rfl (by decide)

end EventLoop

end WebServer.Util
