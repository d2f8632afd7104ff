import Mathlib.Data.List.Perm.Basic
import WebServer.Foundation.Heap
import WebServer.Timers.TimerQueue

/-!
# Who owns the timers

Every live timer is owned exactly once: by a queued or a direct call of `AddTimerInLoop`, by its
entry in `timers_`, or by the part of `active_timers_` which `HandleRead` has not dealt with yet.
A call of `HandleRead` runs the timers which are due, deletes those that do not repeat, and
puts those that do back into the set.
-/

namespace WebServer.Timers

open WebServer.Foundation

variable {κ : Type}

/-- The entries of `active_timers_` whose timers are still owned by them. -/
def HandleReadPosition.owned (activeTimers : List TimerPair) : HandleReadPosition → List TimerPair
  | outside => []
  | running _ => activeTimers
  | resetting rest => rest

/-- The entries whose timers `HandleRead` has still to run. -/
def HandleReadPosition.toRun : HandleReadPosition → List TimerPair
  | outside => []
  | running rest => rest
  | resetting _ => []

namespace TimerQueue

/-- The entries that own their timers. -/
def entries (s : TimerQueue κ) : List TimerPair := s.timers.elements ++ s.position.owned s.activeTimers

/-- The timers that something owns. -/
def held (s : TimerQueue κ) : List ℕ := s.toDoList ++ (s.adding.toList ++ s.entries.map TimerPair.timer)

/-- The entries are in step with the timers to which they point. -/
def InStep (heap : ℕ → Option (Timer κ)) (entries : List TimerPair) : Prop :=
  ∀ pair ∈ entries, ∃ timer, heap pair.timer = some timer ∧ timer.expiration = pair.timestamp

/-- The live timers have different numbers, below the number of timers made so far. -/
structure Numbered (heap : ℕ → Option (Timer κ)) (count : ℕ) : Prop where
  bounded : ∀ address timer, heap address = some timer → timer.number < count
  distinct : ∀ address address' timer timer', heap address = some timer → heap address' = some timer' →
    timer.number = timer'.number → address = address'

/-- The invariant of the timer queue. -/
structure Owned (s : TimerQueue κ) : Prop where
  sound : s.fault = false
  holds : Holds s.heap s.held
  bounded : ∀ address ∈ s.held, address < uintptrMax
  inStep : InStep s.heap s.entries
  suffix : ∀ rest, s.position = .running rest → rest <:+ s.activeTimers
  numbered : Numbered s.heap s.requests.length

/-- A new timer gets the next number. -/
theorem Numbered.alloc {heap : ℕ → Option (Timer κ)} {count : ℕ} (h : Numbered heap count) (address : ℕ)
    {timer : Timer κ} (hnumber : timer.number = count) :
    Numbered (Function.update heap address (some timer)) (count + 1) := by
  refine ⟨fun other found hfound => ?_, fun first second found found' hfirst hsecond heq => ?_⟩
  · rcases update_eq_some hfound with ⟨-, hnew⟩ | ⟨-, hold⟩
    · obtain rfl := Option.some.inj hnew
      omega
    · exact Nat.lt_succ_of_lt (h.bounded other found hold)
  · rcases update_eq_some hfirst with ⟨rfl, hnew⟩ | ⟨-, hold⟩ <;>
      rcases update_eq_some hsecond with ⟨rfl, hnew'⟩ | ⟨-, hold'⟩
    · rfl
    · obtain rfl := Option.some.inj hnew
      have hless := h.bounded second found' hold'
      omega
    · obtain rfl := Option.some.inj hnew'
      have hless := h.bounded first found hold
      omega
    · exact h.distinct first second found found' hold hold' heq

/-- A timer keeps its number when it is changed. -/
theorem Numbered.change {heap : ℕ → Option (Timer κ)} {count : ℕ} (h : Numbered heap count) {address : ℕ}
    {timer timer' : Timer κ} (hlive : heap address = some timer) (hnumber : timer'.number = timer.number) :
    Numbered (Function.update heap address (some timer')) count := by
  have hfound {other : ℕ} {found : Timer κ} (hother : Function.update heap address (some timer') other =
    some found) :
      ∃ before, heap other = some before ∧ found.number = before.number := by
    rcases update_eq_some hother with ⟨rfl, hnew⟩ | ⟨-, hold⟩
    · obtain rfl := Option.some.inj hnew
      exact ⟨timer, hlive, hnumber⟩
    · exact ⟨found, hold, rfl⟩
  refine ⟨fun other found hother => ?_, fun first second found found' hfirst hsecond heq => ?_⟩
  · obtain ⟨before, hold, hsame⟩ := hfound hother
    exact hsame ▸ h.bounded other before hold
  · obtain ⟨before, hold, hsame⟩ := hfound hfirst
    obtain ⟨before', hold', hsame'⟩ := hfound hsecond
    exact h.distinct first second before before' hold hold' (hsame.symm.trans (heq.trans hsame'))

/-- Deleting a timer leaves the numbers of the others. -/
theorem Numbered.free {heap : ℕ → Option (Timer κ)} {count : ℕ} (h : Numbered heap count) (address : ℕ) :
    Numbered (Function.update heap address none) count := by
  have hfound {other : ℕ} {found : Timer κ} (hother : Function.update heap address none other = some found) :
      heap other = some found := by
    rcases update_eq_some hother with ⟨-, hnew⟩ | ⟨-, hold⟩
    · cases hnew
    · exact hold
  refine ⟨fun other found hother => h.bounded other found (hfound hother),
    fun first second found found' hfirst hsecond => ?_⟩
  exact h.distinct first second found found' (hfound hfirst) (hfound hsecond)

/-- Changing a timer to which no entry points does not concern the entries. -/
theorem InStep.update_of_notMem {heap : ℕ → Option (Timer κ)} {entries : List TimerPair} (h : InStep heap entries)
    {address : ℕ} (hnone : address ∉ entries.map TimerPair.timer) (timer : Option (Timer κ)) :
    InStep (Function.update heap address timer) entries := by
  intro pair hmem
  have hne : pair.timer ≠ address := fun heq => hnone (heq ▸ List.mem_map_of_mem hmem)
  rw [Function.update_of_ne hne]
  exact h pair hmem

/-- A new queue owns nothing. -/
theorem owned_new (wall monotonic : ℤ) : Owned (new wall monotonic : TimerQueue κ) where
  sound := rfl
  holds := Holds.empty
  bounded _ h := by cases h
  inStep _ h := by cases h
  suffix _ h := by cases h
  numbered := ⟨fun _ _ h => (by cases h), fun _ _ _ _ h => (by cases h)⟩

/-- Only the fields that concern the timers matter. -/
theorem Owned.rearrange {s s' : TimerQueue κ} (h : Owned s) (hsound : s'.fault = false) (hheap : s'.heap = s.heap)
    (hheld : s'.held.Perm s.held) (hinStep : InStep s.heap s'.entries)
    (hsuffix : ∀ rest, s'.position = .running rest → rest <:+ s'.activeTimers)
    (hrequests : s'.requests = s.requests) :
    Owned s' where
  sound := hsound
  holds := hheap ▸ h.holds.perm hheld
  bounded address hmem := h.bounded address (hheld.mem_iff.mp hmem)
  inStep := hheap ▸ hinStep
  suffix := hsuffix
  numbered := by
    rw [hheap, hrequests]
    exact h.numbered

/-- `ResetTimer` concerns only the timer descriptor. -/
theorem resetTimer_eq (s : TimerQueue κ) (timer : Timer κ) : ∃ fd settimes,
    s.resetTimer timer = { s with timerfd := fd, settimes } := ⟨_, _, rfl⟩

/-- `AddTimerInLoop` of a live timer adds its entry. -/
theorem addTimerInLoop_eq {s : TimerQueue κ} {address : ℕ} {timer : Timer κ} (h : s.heap address = some timer) :
    ∃ fd settimes, s.addTimerInLoop address =
      { s with timers := s.timers.insert ⟨timer.expiration, address⟩, timerfd := fd, settimes } := by
  rw [addTimerInLoop, withTimer_of_live h]
  split
  · exact resetTimer_eq (s.insert address timer) timer
  · exact ⟨s.timerfd, s.settimes, rfl⟩

/-- The end of `ResetTimers` concerns only the timer descriptor. -/
theorem resetFirst_eq {s : TimerQueue κ} (h : InStep s.heap s.timers.elements) :
    ∃ fd settimes, s.resetFirst = { s with timerfd := fd, settimes } := by
  rw [resetFirst]
  cases hfirst : s.timers.first with
  | none => exact ⟨s.timerfd, s.settimes, rfl⟩
  | some first =>
    obtain ⟨timer, hlive, -⟩ := h first (List.mem_of_head? hfirst)
    simp only [withTimer_of_live hlive]
    exact resetTimer_eq s timer

/-- The entries of a set after an insertion. -/
theorem perm_insert {timers : OrderedSet TimerPair} {pair : TimerPair}
    (h : pair.timer ∉ timers.elements.map TimerPair.timer) :
    (timers.insert pair).elements.Perm (pair :: timers.elements) :=
  OrderedSet.perm_insertInto fun hmem => h (List.mem_map_of_mem hmem)

/-- `AddTimerInLoop` hands the timer on to its entry. -/
theorem Owned.addTimerInLoop {s : TimerQueue κ} (h : Owned s) {address : ℕ} (hadding : s.adding = some address) :
    Owned (TimerQueue.addTimerInLoop { s with adding := none } address) := by
  have hheld : s.held = s.toDoList ++ (address :: s.entries.map TimerPair.timer) := by
    rw [held, hadding]
    rfl
  have hmem : address ∈ s.held := by simp [hheld]
  have hother : address ∉ s.entries.map TimerPair.timer := by
    have hnodup := h.holds.nodup
    rw [hheld, List.nodup_append] at hnodup
    exact hnodup.2.1.notMem
  obtain ⟨timer, hlive⟩ := h.holds.exists_object hmem
  obtain ⟨fd, settimes, hadd⟩ := addTimerInLoop_eq (s := { s with adding := none }) hlive
  rw [hadd]
  have hperm : (s.timers.insert ⟨timer.expiration, address⟩).elements.Perm
      (⟨timer.expiration, address⟩ :: s.timers.elements) :=
    perm_insert fun hinside => hother (by simp only [entries, List.map_append, List.mem_append, hinside, true_or])
  refine h.rearrange h.sound rfl ?_ ?_ h.suffix rfl
  · rw [hheld]
    refine List.Perm.append_left _ ?_
    exact ((hperm.append_right _).map TimerPair.timer)
  · intro pair hpair
    have hsplit : pair = ⟨timer.expiration, address⟩ ∨ pair ∈ s.entries := by
      simpa [entries, or_assoc] using hpair
    rcases hsplit with rfl | hold
    · exact ⟨timer, hlive, rfl⟩
    · exact h.inStep pair hold

/-- A new timer is owned by its call of `AddTimerInLoop`. -/
theorem Owned.addTimer {s : TimerQueue κ} (h : Owned s) {address : ℕ} {inThreadLoop : Bool}
    (hfresh : s.heap address = none) (hbound : address < uintptrMax) (hfree : inThreadLoop = true → s.adding = none)
    (request : TimerRequest) (callback : κ) : Owned (s.addTimer address inThreadLoop request callback) := by
  have hheap := s.addTimer_heap address inThreadLoop request callback
  have hentries : (s.addTimer address inThreadLoop request callback).entries = s.entries := by
    cases inThreadLoop <;> rfl
  have hheld : (s.addTimer address inThreadLoop request callback).held.Perm (address :: s.held) := by
    cases inThreadLoop with
    | true =>
      rw [held, held, hentries, hfree rfl]
      exact List.perm_middle
    | false =>
      rw [held, held, hentries]
      change ((s.toDoList ++ [address]) ++ (s.adding.toList ++ s.entries.map TimerPair.timer)).Perm _
      rw [List.append_assoc]
      exact List.perm_middle
  have hnone : address ∉ s.held := h.holds.notMem hfresh
  have hother : address ∉ s.entries.map TimerPair.timer := fun hmem => hnone (by simp [held, hmem])
  refine ⟨?_, ?_, fun other hmem => ?_, ?_, ?_, ?_⟩
  · cases inThreadLoop <;> exact h.sound
  · rw [hheap]
    exact (h.holds.alloc hfresh _).perm hheld
  · rcases List.mem_cons.mp (hheld.mem_iff.mp hmem) with rfl | hold
    · exact hbound
    · exact h.bounded other hold
  · rw [hheap, hentries]
    exact h.inStep.update_of_notMem hother _
  · cases inThreadLoop <;> exact h.suffix
  · rw [hheap, s.addTimer_requests, List.length_append]
    exact h.numbered.alloc address rfl

/-- The cut of `HandleRead` hands the entries that are due on to `active_timers_`. -/
theorem Owned.handleRead {s : TimerQueue κ} (h : Owned s) (houtside : s.position = .outside) :
    Owned s.handleRead := by
  have hentries : s.handleRead.entries.Perm s.entries := by
    have hsplit := s.timers.below_append_eraseBelow ⟨s.wall, uintptrMax⟩
    rw [entries, entries, houtside, HandleReadPosition.owned, List.append_nil, ← hsplit]
    exact List.perm_append_comm
  refine h.rearrange h.sound rfl ?_ (fun pair hmem => h.inStep pair (hentries.mem_iff.mp hmem)) ?_ rfl
  · exact List.Perm.append_left _ (List.Perm.append_left _ (hentries.map _))
  · intro rest hrest
    obtain rfl := HandleReadPosition.running.inj hrest
    exact List.suffix_refl _

/-- Running a callback moves no timer. -/
theorem Owned.runCallback {s : TimerQueue κ} (h : Owned s) {pair : TimerPair} {rest : List TimerPair}
    (hrunning : s.position = .running (pair :: rest)) : ∃ timer, s.heap pair.timer = some timer ∧
      TimerQueue.runCallback { s with position := .running rest } pair =
        { s with position := .running rest, ran := s.ran ++ [(timer.number, s.wall)] } ∧
      Owned { s with position := .running rest, ran := s.ran ++ [(timer.number, s.wall)] } := by
  have hsuffix := h.suffix _ hrunning
  have hmem : pair ∈ s.entries := by
    rw [entries, hrunning]
    exact List.mem_append_right _ (hsuffix.subset List.mem_cons_self)
  obtain ⟨timer, hlive, -⟩ := h.inStep pair hmem
  have hentries : entries { s with position := .running rest, ran := s.ran ++ [(timer.number, s.wall)] } =
      s.entries := by
    rw [entries, entries, hrunning]
    rfl
  have hrun := withTimer_of_live (s := { s with position := .running rest }) hlive fun timer =>
    { s with position := .running rest, ran := s.ran ++ [(timer.number, s.wall)] }
  refine ⟨timer, hlive, hrun, h.rearrange h.sound rfl ?_ (hentries ▸ h.inStep) ?_ rfl⟩
  · rw [held, hentries]
    exact .refl _
  · intro rest' hrest'
    obtain rfl := HandleReadPosition.running.inj hrest'
    exact (List.suffix_cons pair rest).trans hsuffix

/-- Behind the last callback every timer of `active_timers_` waits for its restart or deletion. -/
theorem Owned.allRun {s : TimerQueue κ} (h : Owned s) (hrunning : s.position = .running []) :
    Owned { s with position := .resetting s.activeTimers } := by
  have hentries : entries { s with position := .resetting s.activeTimers } = s.entries := by
    rw [entries, entries, hrunning]
    rfl
  refine h.rearrange h.sound rfl ?_ (hentries ▸ h.inStep) (fun rest hrest => by cases hrest) rfl
  rw [held, hentries]
  exact .refl _

/-- The end of `ResetTimers` moves no timer. -/
theorem Owned.resetFirst {s : TimerQueue κ} (h : Owned s) (hresetting : s.position = .resetting []) :
    Owned (TimerQueue.resetFirst { s with position := .outside }) := by
  have hentries : entries { s with position := .outside } = s.entries := by
    rw [entries, entries, hresetting]
    rfl
  obtain ⟨fd, settimes, hreset⟩ := resetFirst_eq (s := { s with position := .outside }) fun pair hmem =>
    h.inStep pair (List.mem_append_left _ hmem)
  rw [hreset]
  refine h.rearrange h.sound rfl ?_ (fun pair hmem => h.inStep pair (hentries ▸ hmem))
    (fun rest hrest => by cases hrest) rfl
  rw [held, held, ← hentries]
  exact .refl _

/-- The state behind the restart or the deletion of a timer. -/
def afterReset (s : TimerQueue κ) (pair : TimerPair) (timer : Timer κ) (rest : List TimerPair) : TimerQueue κ :=
  if timer.repeats then
    { s with
      position := .resetting rest
      heap := Function.update s.heap pair.timer (some (timer.restart s.wall))
      timers := s.timers.insert ⟨(timer.restart s.wall).expiration, pair.timer⟩ }
  else { s with position := .resetting rest, heap := Function.update s.heap pair.timer none }

/-- In `ResetTimers` the next timer is live, and no other entry points to it. -/
theorem Owned.resetting {s : TimerQueue κ} (h : Owned s) {pair : TimerPair} {rest : List TimerPair}
    (hresetting : s.position = .resetting (pair :: rest)) : ∃ timer, s.heap pair.timer = some timer ∧
      TimerQueue.resetOne { s with position := .resetting rest } pair = s.afterReset pair timer rest ∧
      s.held.Perm (pair.timer :: held { s with position := .resetting rest }) := by
  have hentries : s.entries = s.timers.elements ++ pair :: rest := by
    rw [entries, hresetting]
    rfl
  obtain ⟨timer, hlive, -⟩ := h.inStep pair (by simp [hentries])
  refine ⟨timer, hlive, ?_, ?_⟩
  · rw [TimerQueue.resetOne, withTimer_of_live (s := { s with position := .resetting rest }) hlive, afterReset]
    rfl
  · rw [held, held, hentries, entries, HandleReadPosition.owned]
    simp only [List.map_append, List.map_cons]
    exact (List.Perm.append_left _ (List.Perm.append_left _ List.perm_middle)).trans
      ((List.Perm.append_left _ List.perm_middle).trans List.perm_middle)

/-- Restarting or deleting a timer keeps the others where they are. -/
theorem Owned.resetOne {s : TimerQueue κ} (h : Owned s) {pair : TimerPair} {rest : List TimerPair}
    (hresetting : s.position = .resetting (pair :: rest)) :
    Owned (TimerQueue.resetOne { s with position := .resetting rest } pair) := by
  obtain ⟨timer, hlive, hreset, hheld⟩ := h.resetting hresetting
  have hholds : Holds s.heap (pair.timer :: held { s with position := .resetting rest }) := h.holds.perm hheld.symm
  have hother : pair.timer ∉ (entries { s with position := .resetting rest }).map TimerPair.timer := fun hmem =>
    hholds.nodup.notMem (by simp [held, hmem])
  have hold : InStep s.heap (entries { s with position := .resetting rest }) := fun other hmem => h.inStep other (by
    rw [entries, hresetting]
    rcases List.mem_append.mp hmem with hset | hrest
    · exact List.mem_append_left _ hset
    · exact List.mem_append_right _ (List.mem_cons_of_mem _ hrest))
  rw [hreset, afterReset]
  split
  · have hset : pair.timer ∉ s.timers.elements.map TimerPair.timer := fun hmem =>
      hother (by simp only [entries, List.map_append, List.mem_append, hmem, true_or])
    have hinsert : (s.timers.insert ⟨(timer.restart s.wall).expiration, pair.timer⟩).elements.Perm
        (⟨(timer.restart s.wall).expiration, pair.timer⟩ :: s.timers.elements) := perm_insert hset
    have hperm : (s.toDoList ++ (s.adding.toList ++
        ((s.timers.insert ⟨(timer.restart s.wall).expiration, pair.timer⟩).elements ++
          rest).map TimerPair.timer)).Perm
          (pair.timer :: held { s with position := .resetting rest }) :=
      (List.Perm.append_left _ (List.Perm.append_left _ ((hinsert.append_right rest).map TimerPair.timer))).trans
        ((List.Perm.append_left _ List.perm_middle).trans List.perm_middle)
    refine ⟨h.sound, (hholds.change List.mem_cons_self _).perm hperm, fun other hmem => h.bounded other ?_,
      fun other hmem => ?_, (fun rest hrest => by cases hrest), h.numbered.change hlive rfl⟩
    · exact (hperm.trans hheld.symm).mem_iff.mp hmem
    · have hsplit : other = ⟨(timer.restart s.wall).expiration, pair.timer⟩ ∨
          other ∈ entries { s with position := .resetting rest } := by
        simpa [entries, or_assoc] using hmem
      rcases hsplit with rfl | hbefore
      · exact ⟨timer.restart s.wall, Function.update_self _ _ _, rfl⟩
      · exact hold.update_of_notMem hother _ other hbefore
  · exact ⟨h.sound, hholds.free, fun other hmem => h.bounded other
      (hheld.mem_iff.mpr (List.mem_cons_of_mem _ hmem)),
      hold.update_of_notMem hother none, (fun rest hrest => by cases hrest), h.numbered.free pair.timer⟩

/-- Every step keeps the timers owned. -/
theorem owned_step (s : TimerQueue κ) (action : TimerAction κ) (s' : TimerQueue κ) (h : Owned s)
    (hstep : s.step action = some s') : Owned s' := by
  cases stepped_of_step hstep with
  | clock wall elapsed => exact ⟨h.sound, h.holds, h.bounded, h.inStep, h.suffix, h.numbered⟩
  | addTimer request callback fresh bound free => exact h.addTimer fresh bound free request callback
  | @runQueued address rest queued outside free =>
    refine h.rearrange h.sound rfl ?_ h.inStep h.suffix rfl
    rw [held, held, queued, free]
    exact List.perm_middle
  | addTimerInLoop adding => exact h.addTimerInLoop adding
  | handleRead outside free => exact h.handleRead outside
  | runCallback running free =>
    obtain ⟨timer, hlive, hrun, howned⟩ := h.runCallback running
    exact hrun ▸ howned
  | allRun running free => exact h.allRun running
  | resetOne resetting free => exact h.resetOne resetting
  | allReset resetting free => exact h.resetFirst resetting

/-- What a step does while the timers are owned: no timer is missing, and what happens to the timer
descriptor is left open. -/
inductive Effect (s : TimerQueue κ) : TimerAction κ → TimerQueue κ → Prop where
  | clock (wall : ℤ) (elapsed : ℕ) : Effect s (.clock wall elapsed) (s.clock wall elapsed)
  | addTimer {address : ℕ} {inThreadLoop : Bool} (request : TimerRequest) (callback : κ)
    (fresh : s.heap address = none)
      (free : inThreadLoop = true → s.adding = none) :
      Effect s (.addTimer address inThreadLoop request callback) (s.addTimer address inThreadLoop request callback)
  | runQueued {address : ℕ} {rest : List ℕ} (queued : s.toDoList = address :: rest)
    (outside : s.position = .outside)
      (free : s.adding = none) : Effect s .runQueued { s with toDoList := rest, adding := some address }
  | addTimerInLoop {address : ℕ} {timer : Timer κ} (adding : s.adding = some address)
      (live : s.heap address = some timer) (timerfd : Timerfd) (settimes : List (ℤ × Itimerspec)) :
      Effect s .addTimerInLoop
        { s with adding := none, timers := s.timers.insert ⟨timer.expiration, address⟩, timerfd, settimes }
  | handleRead (outside : s.position = .outside) (free : s.adding = none) : Effect s .handleRead s.handleRead
  | runCallback {pair : TimerPair} {rest : List TimerPair} {timer : Timer κ}
      (running : s.position = .running (pair :: rest)) (free : s.adding = none)
      (live : s.heap pair.timer = some timer) :
      Effect s .next { s with position := .running rest, ran := s.ran ++ [(timer.number, s.wall)] }
  | allRun (running : s.position = .running []) (free : s.adding = none) :
      Effect s .next { s with position := .resetting s.activeTimers }
  | restart {pair : TimerPair} {rest : List TimerPair} {timer : Timer κ}
      (resetting : s.position = .resetting (pair :: rest)) (free : s.adding = none)
      (live : s.heap pair.timer = some timer) (repeats : timer.repeats = true) :
      Effect s .next { s with
        position := .resetting rest
        heap := Function.update s.heap pair.timer (some (timer.restart s.wall))
        timers := s.timers.insert ⟨(timer.restart s.wall).expiration, pair.timer⟩ }
  | delete {pair : TimerPair} {rest : List TimerPair} {timer : Timer κ}
      (resetting : s.position = .resetting (pair :: rest)) (free : s.adding = none)
      (live : s.heap pair.timer = some timer) (oneShot : timer.repeats = false) :
      Effect s .next { s with position := .resetting rest, heap := Function.update s.heap pair.timer none }
  | leave (resetting : s.position = .resetting []) (free : s.adding = none) (timerfd : Timerfd)
      (settimes : List (ℤ × Itimerspec)) : Effect s .next { s with position := .outside, timerfd, settimes }

/-- Every step has one of these effects. -/
theorem effect_of_step {s s' : TimerQueue κ} {action : TimerAction κ} (h : Owned s)
    (hstep : s.step action = some s') :
    Effect s action s' := by
  cases stepped_of_step hstep with
  | clock wall elapsed => exact .clock wall elapsed
  | addTimer request callback fresh bound free => exact .addTimer request callback fresh free
  | runQueued queued outside free => exact .runQueued queued outside free
  | @addTimerInLoop address adding =>
    have hmem : address ∈ s.held := by simp [held, adding]
    obtain ⟨timer, hlive⟩ := h.holds.exists_object hmem
    obtain ⟨fd, settimes, hadd⟩ := addTimerInLoop_eq (s := { s with adding := none }) hlive
    exact hadd ▸ .addTimerInLoop adding hlive fd settimes
  | handleRead outside free => exact .handleRead outside free
  | runCallback running free =>
    obtain ⟨timer, hlive, hrun, -⟩ := h.runCallback running
    exact hrun ▸ .runCallback running free hlive
  | allRun running free => exact .allRun running free
  | resetOne resetting free =>
    obtain ⟨timer, hlive, hreset, -⟩ := h.resetting resetting
    rw [hreset, afterReset]
    split
    · next hrepeats => exact .restart resetting free hlive hrepeats
    · next honce => exact .delete resetting free hlive (Bool.not_eq_true _ ▸ honce)
  | allReset resetting free =>
    obtain ⟨fd, settimes, hreset⟩ := resetFirst_eq (s := { s with position := .outside }) fun pair hmem =>
      h.inStep pair (List.mem_append_left _ hmem)
    exact hreset ▸ .leave resetting free fd settimes

/-- A live timer was live before, with another expiration at most, or has just been made. -/
theorem live_of_step {s s' : TimerQueue κ} {action : TimerAction κ} (h : Owned s) (hstep : s.step action = some s')
    {address : ℕ} {timer : Timer κ} (hlive : s'.heap address = some timer) :
    (∃ before expiration, s.heap address = some before ∧ timer = { before with expiration }) ∨
    ∃ inThreadLoop request callback, action = .addTimer address inThreadLoop request callback ∧
      timer = .new (request.timestamp s.wall) callback request.interval s.requests.length := by
  cases effect_of_step h hstep with
  | @addTimer added inThreadLoop request callback fresh free =>
    rw [s.addTimer_heap] at hlive
    rcases update_eq_some hlive with ⟨rfl, hnew⟩ | ⟨-, hold⟩
    · exact Or.inr ⟨inThreadLoop, request, callback, rfl, (Option.some.inj hnew).symm⟩
    · exact Or.inl ⟨timer, timer.expiration, hold, rfl⟩
  | @restart pair rest before resetting free live repeats =>
    rcases update_eq_some hlive with ⟨rfl, hnew⟩ | ⟨-, hold⟩
    · exact Or.inl ⟨before, addTime s.wall before.interval, live, (Option.some.inj hnew).symm⟩
    · exact Or.inl ⟨timer, timer.expiration, hold, rfl⟩
  | delete resetting free live oneShot =>
    rcases update_eq_some hlive with ⟨-, hnone⟩ | ⟨-, hold⟩
    · cases hnone
    · exact Or.inl ⟨timer, timer.expiration, hold, rfl⟩
  | _ => exact Or.inl ⟨timer, timer.expiration, hlive, rfl⟩

/-- No request is forgotten. -/
theorem requests_of_step {s s' : TimerQueue κ} {action : TimerAction κ} (h : Owned s)
    (hstep : s.step action = some s') :
    s.requests <+: s'.requests := by
  cases effect_of_step h hstep with
  | @addTimer address inThreadLoop request callback fresh free =>
    rw [s.addTimer_requests]
    exact List.prefix_append _ _
  | _ => exact List.prefix_refl _

end TimerQueue

end WebServer.Timers
