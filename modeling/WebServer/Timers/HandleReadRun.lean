import WebServer.Timers.TimerOwnership

/-!
# What a call of `HandleRead` does

From the cut on, what has been run and what has been restarted or deleted are growing parts of
the entries that were due, while everything else stays where it is and new timers are only
added. At the end all due entries have been dealt with.
-/

namespace WebServer.Timers

open WebServer.Foundation

variable {κ : Type}

namespace TimerQueue

/-- The entries which `HandleRead` takes out of the set. -/
def due (s : TimerQueue κ) : List TimerPair := s.timers.below ⟨s.wall, uintptrMax⟩

/-- The number of the timer of an entry. -/
def timerNumber (s : TimerQueue κ) (pair : TimerPair) : Option ℕ := (s.heap pair.timer).map Timer.number

/-- The timer with this number was made and has been deleted. -/
structure Dead (s : TimerQueue κ) (number : ℕ) : Prop where
  made : number < s.requests.length
  gone : ∀ address timer, s.heap address = some timer → timer.number ≠ number

/-- The live timers and their entries stay as they are, and the timers made since are live. -/
structure Grows (s s' : TimerQueue κ) : Prop where
  heap : ∀ address timer, s.heap address = some timer → s'.heap address = some timer
  timers : ∀ pair ∈ s.timers.elements, pair ∈ s'.timers.elements
  requests : s.requests.length ≤ s'.requests.length
  made : ∀ address timer, s'.heap address = some timer → s.heap address = some timer ∨
    s.requests.length ≤ timer.number
  live : ∀ number, s.requests.length ≤ number → number < s'.requests.length →
    ∃ address timer, s'.heap address = some timer ∧ timer.number = number

/-- A step that makes no timer and keeps all of them. -/
theorem grows_of_heap {s s' : TimerQueue κ} (hheap : s'.heap = s.heap) (hrequests : s'.requests = s.requests)
    (htimers : ∀ pair ∈ s.timers.elements, pair ∈ s'.timers.elements) : Grows s s' where
  heap address timer h := hheap ▸ h
  timers := htimers
  requests := (congrArg List.length hrequests).ge
  made address timer h := Or.inl (hheap ▸ h)
  live number hfrom hto := by
    rw [hrequests] at hto
    omega

/-- Making a timer. -/
theorem grows_addTimer {s : TimerQueue κ} {address : ℕ} (hfresh : s.heap address = none) (inThreadLoop : Bool)
    (request : TimerRequest) (callback : κ) : Grows s (s.addTimer address inThreadLoop request callback) := by
  have hheap := s.addTimer_heap address inThreadLoop request callback
  have hrequests : (s.addTimer address inThreadLoop request callback).requests.length = s.requests.length + 1 := by
    rw [s.addTimer_requests, List.length_append, List.length_singleton]
  refine ⟨fun other timer hother => ?_, fun pair hmem => ?_, by omega, fun other timer hother => ?_,
    fun number hfrom hto => ?_⟩
  · have hne : other ≠ address := by
      rintro rfl
      rw [hfresh] at hother
      cases hother
    rw [hheap, Function.update_of_ne hne, hother]
  · cases inThreadLoop <;> exact hmem
  · rw [hheap] at hother
    rcases update_eq_some hother with ⟨-, hnew⟩ | ⟨-, hold⟩
    · obtain rfl := Option.some.inj hnew
      exact Or.inr le_rfl
    · exact Or.inl hold
  · obtain rfl : number = s.requests.length := by omega
    exact ⟨address, _, hheap ▸ Function.update_self _ _ _, rfl⟩

/-- The call of `AddTimerInLoop` adds an entry. -/
theorem grows_addTimerInLoop (s : TimerQueue κ) (pair : TimerPair) (timerfd : Timerfd)
    (settimes : List (ℤ × Itimerspec)) :
      Grows s { s with adding := none, timers := s.timers.insert pair, timerfd, settimes } :=
  grows_of_heap rfl rfl fun _ hmem => OrderedSet.mem_insert.mpr (Or.inr hmem)

/-- Growing brings no dead timer back. -/
theorem Dead.grows {s s' : TimerQueue κ} {number : ℕ} (h : s.Dead number) (hgrows : Grows s s') :
    s'.Dead number := by
  refine ⟨h.made.trans_le hgrows.requests, fun address timer hlive heq => ?_⟩
  rcases hgrows.made address timer hlive with hold | hnew
  · exact h.gone address timer hold heq
  · have hmade := h.made
    omega

/-- A deleted timer stays deleted. -/
theorem dead_step {s s' : TimerQueue κ} {action : TimerAction κ} (h : Owned s) (hstep : s.step action = some s')
    {number : ℕ} (hdead : s.Dead number) : s'.Dead number := by
  refine ⟨hdead.made.trans_le (requests_of_step h hstep).length_le, fun address timer hlive => ?_⟩
  rcases live_of_step h hstep hlive with ⟨before, expiration, hbefore, rfl⟩ |
    ⟨inThreadLoop, request, callback, rfl, rfl⟩
  · exact hdead.gone address before hbefore
  · exact hdead.made.ne'

/-- A deleted timer is never live again. -/
theorem dead_run {s t : TimerQueue κ} {actions : List (TimerAction κ)} (h : Owned s)
    (hrun : run step s actions = some t) {number : ℕ} (hdead : s.Dead number) : t.Dead number := by
  have hboth : Owned t ∧ t.Dead number := run_invariant (I := fun s => Owned s ∧ s.Dead number)
    (fun s action s' hs hstep => ⟨owned_step s action s' hs.1 hstep, dead_step hs.1 hstep hs.2⟩) ⟨h, hdead⟩ hrun
  exact hboth.2

/-- The timer of a due entry has been dealt with: it is back in the set, or deleted. -/
structure Settled (s t : TimerQueue κ) (pair : TimerPair) : Prop where
  repeating : ∀ timer, s.heap pair.timer = some timer → timer.repeats = true →
    ∃ expiration, t.heap pair.timer = some { timer with expiration } ∧ ⟨expiration, pair.timer⟩ ∈ t.timers.elements
  oneShot : ∀ timer, s.heap pair.timer = some timer → timer.repeats = false → t.Dead timer.number

/-- How far the call of `HandleRead` that started in `s` has come. -/
structure Handling (s t : TimerQueue κ) (called reset : List TimerPair) : Prop where
  toRun : called ++ t.position.toRun = s.due
  toReset : reset ++ t.position.owned t.activeTimers = s.due
  fresh : ∀ rest, t.position = .running rest → reset = []
  ran : t.ran.map Prod.fst = s.ran.map Prod.fst ++ called.filterMap s.timerNumber
  settled : ∀ pair ∈ reset, Settled s t pair
  kept : ∀ address timer, s.heap address = some timer → address ∉ reset.map TimerPair.timer →
    t.heap address = some timer
  present : ∀ pair ∈ s.timers.elements, pair ∉ s.due → pair ∈ t.timers.elements
  requests : s.requests.length ≤ t.requests.length
  live : ∀ number, s.requests.length ≤ number → number < t.requests.length →
    ∃ address timer, t.heap address = some timer ∧ timer.number = number

/-- What has been dealt with stays so while everything only grows. -/
theorem Settled.grows {s t t' : TimerQueue κ} {pair : TimerPair} (h : Settled s t pair) (hgrows : Grows t t') :
    Settled s t' pair where
  repeating timer hlive hrepeats := by
    obtain ⟨expiration, hheap, hentry⟩ := h.repeating timer hlive hrepeats
    exact ⟨expiration, hgrows.heap _ _ hheap, hgrows.timers _ hentry⟩
  oneShot timer hlive honce := (h.oneShot timer hlive honce).grows hgrows

/-- Steps that only add timers and entries do not disturb the call of `HandleRead`. -/
theorem Handling.grows {s t t' : TimerQueue κ} {called called' reset : List TimerPair}
    (h : Handling s t called reset) (hgrows : Grows t t') (hcalled : called' ++ t'.position.toRun = s.due)
    (howned : t'.position.owned t'.activeTimers = t.position.owned t.activeTimers)
    (hfresh : ∀ rest, t'.position = .running rest → reset = [])
    (hran : t'.ran.map Prod.fst = s.ran.map Prod.fst ++ called'.filterMap s.timerNumber) :
    Handling s t' called' reset where
  toRun := hcalled
  toReset := by rw [howned, h.toReset]
  fresh := hfresh
  ran := hran
  settled pair hmem := (h.settled pair hmem).grows hgrows
  kept address timer hlive hnot := hgrows.heap address timer (h.kept address timer hlive hnot)
  present pair hmem hnot := hgrows.timers pair (h.present pair hmem hnot)
  requests := h.requests.trans hgrows.requests
  live number hfrom hto := by
    rcases Nat.lt_or_ge number t.requests.length with hold | hnew
    · obtain ⟨address, timer, hlive, hnumber⟩ := h.live number hfrom hold
      exact ⟨address, timer, hgrows.heap address timer hlive, hnumber⟩
    · exact hgrows.live number hnew hto

/-- The cut starts the call of `HandleRead`. -/
theorem handling_handleRead (s : TimerQueue κ) : Handling s s.handleRead [] [] where
  toRun := rfl
  toReset := rfl
  fresh _ _ := rfl
  ran := (List.append_nil _).symm
  settled _ h := by cases h
  kept _ _ hlive _ := hlive
  present pair hmem hnot := by
    refine OrderedSet.mem_eraseBelow.mpr ⟨hmem, fun hless => hnot ?_⟩
    exact OrderedSet.mem_below.mpr ⟨hmem, hless⟩
  requests := le_rfl
  live number hfrom hto := absurd hto (Nat.not_lt.mpr hfrom)

/-- The entries that are due own their timers. -/
theorem due_live {s : TimerQueue κ} (h : Owned s) {pair : TimerPair} (hmem : pair ∈ s.due) :
    ∃ timer, s.heap pair.timer = some timer ∧ timer.expiration = pair.timestamp :=
  h.inStep pair (List.mem_append_left _ (OrderedSet.mem_below.mp hmem).1)

/-- The entries that are due have different timers. -/
theorem due_nodup {s : TimerQueue κ} (h : Owned s) : (s.due.map TimerPair.timer).Nodup := by
  have hheld := h.holds.nodup
  rw [held, List.nodup_append, List.nodup_append, entries, List.map_append, List.nodup_append] at hheld
  exact hheld.2.1.2.1.1.sublist ((List.takeWhile_sublist _).map _)

/-- The timer whose callback is next has not been touched since the cut. -/
theorem Handling.next_number {s t : TimerQueue κ} {called reset rest : List TimerPair} {pair : TimerPair}
    (howned : Owned s) (h : Handling s t called reset) (hrunning : t.position = .running (pair :: rest))
    {timer : Timer κ} (hlive : t.heap pair.timer = some timer) : s.timerNumber pair = some timer.number := by
  have htoRun := h.toRun
  rw [hrunning] at htoRun
  have hdue : pair ∈ s.due := htoRun ▸ List.mem_append_right _ List.mem_cons_self
  obtain ⟨before, hbefore, -⟩ := due_live howned hdue
  have hkept := h.kept _ _ hbefore (by simp [h.fresh _ hrunning])
  obtain rfl := Option.some.inj (hkept.symm.trans hlive)
  rw [timerNumber, hbefore]
  rfl

/-- The timer whose restart or deletion is next has not been touched since the cut. -/
theorem Handling.next_untouched {s t : TimerQueue κ} {called reset rest : List TimerPair} {pair : TimerPair}
    (howned : Owned s) (h : Handling s t called reset) (hresetting : t.position = .resetting (pair :: rest))
    {timer : Timer κ} (hlive : t.heap pair.timer = some timer) :
    pair.timer ∉ reset.map TimerPair.timer ∧ s.heap pair.timer = some timer := by
  have htoReset := h.toReset
  rw [hresetting] at htoReset
  have hnot : pair.timer ∉ reset.map TimerPair.timer := by
    have hnodup := due_nodup howned
    rw [← htoReset, List.map_append] at hnodup
    exact fun hmem => (List.disjoint_of_nodup_append hnodup) hmem List.mem_cons_self
  have hdue : pair ∈ s.due := htoReset ▸ List.mem_append_right _ List.mem_cons_self
  obtain ⟨before, hbefore, -⟩ := due_live howned hdue
  have hkept := h.kept _ _ hbefore hnot
  obtain rfl := Option.some.inj (hkept.symm.trans hlive)
  exact ⟨hnot, hbefore⟩

/-- Dealing with the next timer leaves the others alone. -/
theorem Handling.settle {s t t' : TimerQueue κ} {called reset rest : List TimerPair} {pair : TimerPair}
    {timer : Timer κ} (howned : Owned s) (h : Handling s t called reset)
    (hresetting : t.position = .resetting (pair :: rest)) (hlive : t.heap pair.timer = some timer)
    (hheap : ∀ address, address ≠ pair.timer → t'.heap address = t.heap address)
    (htimers : ∀ other ∈ t.timers.elements, other ∈ t'.timers.elements) (hposition : t'.position = .resetting rest)
    (hran : t'.ran = t.ran) (hrequests : t'.requests = t.requests)
    (hdead : ∀ number, t.Dead number → t'.Dead number)
    (hsettled : Settled s t' pair) : Handling s t' called (reset ++ [pair]) := by
  obtain ⟨hnot, hbefore⟩ := h.next_untouched howned hresetting hlive
  have htoRun := h.toRun
  have htoReset := h.toReset
  rw [hresetting] at htoRun htoReset
  refine ⟨by rw [hposition]; exact htoRun, ?_, ?_, hran ▸ h.ran, ?_, ?_, ?_, ?_, ?_⟩
  · rw [hposition]
    exact (List.append_assoc reset [pair] rest).trans htoReset
  · rw [hposition]
    exact fun rest hrest => by cases hrest
  · intro other hmem
    rcases List.mem_append.mp hmem with hold | hnew
    · have hne : other.timer ≠ pair.timer := fun heq => hnot (heq ▸ List.mem_map_of_mem hold)
      have hother := h.settled other hold
      refine ⟨fun timer hlive hrepeats => ?_, fun timer hlive honce => hdead _ (hother.oneShot timer hlive honce)⟩
      obtain ⟨expiration, hnow, hentry⟩ := hother.repeating timer hlive hrepeats
      exact ⟨expiration, (hheap _ hne).trans hnow, htimers _ hentry⟩
    · exact List.mem_singleton.mp hnew ▸ hsettled
  · intro address timer hlive hoff
    rw [List.map_append, List.mem_append, not_or] at hoff
    rw [hheap address (fun heq => hoff.2 (by simp [heq]))]
    exact h.kept address timer hlive hoff.1
  · exact fun other hmem hnot => htimers other (h.present other hmem hnot)
  · exact hrequests ▸ h.requests
  · intro number hfrom hto
    obtain ⟨address, found, hfound, hnumber⟩ := h.live number hfrom (hrequests ▸ hto)
    have hne : address ≠ pair.timer := by
      rintro rfl
      obtain rfl := Option.some.inj (hfound.symm.trans hlive)
      have hless := howned.numbered.bounded _ _ hbefore
      omega
    exact ⟨address, found, (hheap address hne).trans hfound, hnumber⟩

/-- Every step within `HandleRead`, and behind it until the next call, goes on with it. -/
theorem handling_step {s t t' : TimerQueue κ} {action : TimerAction κ} (hs : Owned s) (ht : Owned t)
    (h : ∃ called reset, Handling s t called reset) (hread : action ≠ .handleRead)
    (hstep : t.step action = some t') :
    ∃ called reset, Handling s t' called reset := by
  obtain ⟨called, reset, h⟩ := h
  cases effect_of_step ht hstep with
  | clock wall elapsed =>
    exact ⟨called, reset, h.grows (grows_of_heap rfl rfl fun _ hmem => hmem) h.toRun rfl h.fresh h.ran⟩
  | @addTimer address inThreadLoop request callback fresh =>
    refine ⟨called, reset, h.grows (grows_addTimer fresh _ request callback) ?_ ?_ ?_ ?_⟩
    · cases inThreadLoop <;> exact h.toRun
    · cases inThreadLoop <;> rfl
    · cases inThreadLoop <;> exact h.fresh
    · cases inThreadLoop <;> exact h.ran
  | runQueued queued outside free =>
    exact ⟨called, reset, h.grows (grows_of_heap rfl rfl fun _ hmem => hmem) h.toRun rfl h.fresh h.ran⟩
  | addTimerInLoop adding live timerfd settimes =>
    exact ⟨called, reset, h.grows (grows_addTimerInLoop t _ timerfd settimes) h.toRun rfl h.fresh h.ran⟩
  | handleRead outside free => exact absurd rfl hread
  | @runCallback pair rest timer running free live =>
    have hfresh := h.fresh _ running
    have hnumber := h.next_number hs running live
    refine ⟨called ++ [pair], reset, h.grows (grows_of_heap rfl rfl fun _ hmem => hmem) ?_ ?_ ?_ ?_⟩
    · have hsplit := h.toRun
      rw [running] at hsplit
      exact (List.append_assoc called [pair] rest).trans hsplit
    · rw [running]
      rfl
    · exact fun _ _ => hfresh
    · rw [List.map_append, h.ran, List.filterMap_append, List.append_assoc, List.filterMap_cons, hnumber]
      rfl
  | allRun running free =>
    refine ⟨called, reset, h.grows (grows_of_heap rfl rfl fun _ hmem => hmem) ?_ ?_ ?_ h.ran⟩
    · have hsplit := h.toRun
      rw [running] at hsplit
      exact hsplit
    · rw [running]
      rfl
    · exact fun rest hrest => by cases hrest
  | @restart pair rest timer resetting free live repeats =>
    obtain ⟨-, hbefore⟩ := h.next_untouched hs resetting live
    refine ⟨called, reset ++ [pair], h.settle hs resetting live (fun address hne => Function.update_of_ne hne _ _)
      (fun other hmem => OrderedSet.mem_insert.mpr (Or.inr hmem)) rfl rfl rfl (fun number => dead_step ht hstep)
      ⟨fun timer' hlive _ => ?_, fun timer' hlive honce => ?_⟩⟩
    · obtain rfl := Option.some.inj (hbefore.symm.trans hlive)
      exact ⟨(timer.restart t.wall).expiration, Function.update_self _ _ _, OrderedSet.mem_insert.mpr (Or.inl rfl)⟩
    · obtain rfl := Option.some.inj (hbefore.symm.trans hlive)
      rw [repeats] at honce
      cases honce
  | @delete pair rest timer resetting free live oneShot =>
    obtain ⟨-, hbefore⟩ := h.next_untouched hs resetting live
    refine ⟨called, reset ++ [pair], h.settle hs resetting live (fun address hne => Function.update_of_ne hne _ _)
      (fun other hmem => hmem) rfl rfl rfl (fun number => dead_step ht hstep)
      ⟨fun timer' hlive hrepeats => ?_, fun timer' hlive _ => ?_⟩⟩
    · obtain rfl := Option.some.inj (hbefore.symm.trans hlive)
      rw [oneShot] at hrepeats
      cases hrepeats
    · obtain rfl := Option.some.inj (hbefore.symm.trans hlive)
      refine ⟨ht.numbered.bounded _ _ live, fun address found hfound heq => ?_⟩
      rcases update_eq_some hfound with ⟨-, hnone⟩ | ⟨hne, hold⟩
      · cases hnone
      · exact hne (ht.numbered.distinct _ _ _ _ hold live heq)
  | leave resetting free timerfd settimes =>
    refine ⟨called, reset, h.grows (grows_of_heap rfl rfl fun _ hmem => hmem) ?_ ?_ ?_ h.ran⟩
    · have hsplit := h.toRun
      rw [resetting] at hsplit
      exact hsplit
    · rw [resetting]
      rfl
    · exact fun rest hrest => by cases hrest

/-- A run from within `HandleRead` up to the next call goes on with it. -/
theorem handling_run {s t u : TimerQueue κ} {body : List (TimerAction κ)} (hs : Owned s) (ht : Owned t)
    (h : ∃ called reset, Handling s t called reset) (hnot : .handleRead ∉ body) (hrun : run step t body = some u) :
    Owned u ∧ ∃ called reset, Handling s u called reset := by
  induction body generalizing t with
  | nil => exact Option.some.inj hrun ▸ ⟨ht, h⟩
  | cons action body ih =>
    obtain ⟨hread, hnot⟩ := not_or.mp (mt List.mem_cons.mpr hnot)
    obtain ⟨m, hfirst, hrest⟩ := run_cons_eq_some.mp hrun
    exact ih (owned_step t action m ht hfirst) (handling_step hs ht h (Ne.symm hread) hfirst) hnot hrest

/-- The loop is neither in `HandleRead` nor in `AddTimerInLoop`. -/
def Between (s : TimerQueue κ) : Prop := s.position = .outside ∧ s.adding = none

/-- Every entry is that of a live timer with its expiration, and every live timer has exactly one
entry, or none while its call of `AddTimerInLoop` is queued. -/
structure OneEntryEach (s : TimerQueue κ) : Prop where
  entry : ∀ pair ∈ s.timers.elements, ∃ timer, s.heap pair.timer = some timer ∧ timer.expiration = pair.timestamp
  added : ∀ address timer, s.heap address = some timer → address ∉ s.toDoList →
    ∃! pair, pair ∈ s.timers.elements ∧ pair.timer = address
  queued : ∀ address ∈ s.toDoList, ∀ pair ∈ s.timers.elements, pair.timer ≠ address

/-- What a call of `HandleRead` has done between its start in `s` and a later state. -/
structure HandledRead (s t : TimerQueue κ) : Prop where
  expired : ∀ pair, pair ∈ s.due ↔ pair ∈ s.timers.elements ∧ pair.timestamp ≤ s.wall
  ordered : s.due.Pairwise fun first second => first.timestamp ≤ second.timestamp
  once : (s.due.filterMap s.timerNumber).Nodup
  ran : t.ran.map Prod.fst = s.ran.map Prod.fst ++ s.due.filterMap s.timerNumber
  oneShot : ∀ pair ∈ s.due, ∀ timer, s.heap pair.timer = some timer → timer.repeats = false →
    ∀ later u, run step t later = some u → u.Dead timer.number
  repeating : ∀ pair ∈ s.due, ∀ timer, s.heap pair.timer = some timer → timer.repeats = true →
    ∃ expiration, t.heap pair.timer = some { timer with expiration } ∧
      ∃! other, other ∈ t.timers.elements ∧ other.timer = pair.timer
  others : ∀ pair ∈ s.timers.elements, s.wall < pair.timestamp →
    pair ∈ t.timers.elements ∧ t.heap pair.timer = s.heap pair.timer
  made : ∀ number, s.requests.length ≤ number → number < t.requests.length →
    ∃ address timer, t.heap address = some timer ∧ timer.number = number

/-- Two entries have different timers. -/
theorem Owned.entry_unique {s : TimerQueue κ} (h : Owned s) {pair other : TimerPair}
    (hpair : pair ∈ s.timers.elements)
    (hother : other ∈ s.timers.elements) (heq : other.timer = pair.timer) : other = pair := by
  obtain ⟨timer, hlive, hexpiration⟩ := h.inStep pair (List.mem_append_left _ hpair)
  obtain ⟨timer', hlive', hexpiration'⟩ := h.inStep other (List.mem_append_left _ hother)
  rw [heq] at hlive'
  obtain rfl := Option.some.inj (hlive.symm.trans hlive')
  exact TimerPair.ext (hexpiration'.symm.trans hexpiration) heq

/-- Between the steps of the loop every timer has its entry. -/
theorem Owned.oneEntryEach {s : TimerQueue κ} (h : Owned s) (hbetween : s.Between) : OneEntryEach s := by
  have hentries : s.entries = s.timers.elements := by
    rw [entries, hbetween.1]
    exact List.append_nil _
  have hheld : s.held = s.toDoList ++ s.timers.elements.map TimerPair.timer := by
    rw [held, hbetween.2, hentries]
    rfl
  refine ⟨fun pair hmem => h.inStep pair (hentries ▸ hmem), fun address timer hlive hnot => ?_,
    fun address hmem pair hpair heq => ?_⟩
  · have hmem : address ∈ s.held := (h.holds.live address).mp (Option.isSome_iff_exists.mpr ⟨timer, hlive⟩)
    rw [hheld, List.mem_append] at hmem
    obtain ⟨pair, hpair, rfl⟩ := List.mem_map.mp (hmem.resolve_left hnot)
    exact ⟨pair, ⟨hpair, rfl⟩, fun other hother => h.entry_unique hpair hother.1 hother.2⟩
  · have hnodup := h.holds.nodup
    rw [hheld] at hnodup
    exact (List.disjoint_of_nodup_append hnodup) hmem (heq ▸ List.mem_map_of_mem hpair)

/-- The entries that are due are those up to the present time. -/
theorem mem_due {s : TimerQueue κ} (h : Owned s) (pair : TimerPair) :
    pair ∈ s.due ↔ pair ∈ s.timers.elements ∧ pair.timestamp ≤ s.wall := by
  rw [due, OrderedSet.mem_below]
  refine and_congr_right fun hmem => ⟨fun hless => TimerPair.timestamp_le_of_le hless.le, fun hle => ?_⟩
  have hheld : pair.timer ∈ s.held :=
    List.mem_append_right _ (List.mem_append_right _ (List.mem_map_of_mem (List.mem_append_left _ hmem)))
  rcases hle.lt_or_eq with hbefore | hsame
  · exact TimerPair.lt_iff.mpr (Or.inl hbefore)
  · exact TimerPair.lt_iff.mpr (Or.inr ⟨hsame, h.bounded _ hheld⟩)

/-- Different entries that are due have timers with different numbers. -/
theorem due_numbers_nodup {s : TimerQueue κ} (h : Owned s) : (s.due.filterMap s.timerNumber).Nodup := by
  have hnumber : s.due.filterMap s.timerNumber =
      (s.due.map TimerPair.timer).filterMap fun address => (s.heap address).map Timer.number := by
    rw [List.filterMap_map]
    rfl
  rw [hnumber]
  refine (due_nodup h).filterMap fun address address' number hnumber hnumber' => ?_
  obtain ⟨timer, hlive, rfl⟩ := Option.map_eq_some_iff.mp hnumber
  obtain ⟨timer', hlive', heq⟩ := Option.map_eq_some_iff.mp hnumber'
  exact h.numbered.distinct _ _ _ _ hlive hlive' heq.symm

/-- A call of `HandleRead` that has come to its end has dealt with all entries that were due. -/
theorem Handling.handledRead {s t : TimerQueue κ} {called reset : List TimerPair} (hs : Owned s) (ht : Owned t)
    (h : Handling s t called reset) (houtside : t.position = .outside) : HandledRead s t := by
  have hcalled : called = s.due := by
    have htoRun := h.toRun
    rw [houtside] at htoRun
    exact (List.append_nil _).symm.trans htoRun
  have hreset : reset = s.due := by
    have htoReset := h.toReset
    rw [houtside] at htoReset
    exact (List.append_nil _).symm.trans htoReset
  refine ⟨mem_due hs, ?_, due_numbers_nodup hs, hcalled ▸ h.ran, ?_, ?_, ?_, h.live⟩
  · exact (OrderedSet.increasing_below _ _).imp fun hless => TimerPair.timestamp_le_of_le hless.le
  · intro pair hmem timer hlive honce later u hrun
    exact dead_run ht hrun ((h.settled pair (hreset ▸ hmem)).oneShot timer hlive honce)
  · intro pair hmem timer hlive hrepeats
    obtain ⟨expiration, hnow, hentry⟩ := (h.settled pair (hreset ▸ hmem)).repeating timer hlive hrepeats
    exact ⟨expiration, hnow, _, ⟨hentry, rfl⟩, fun other hother => ht.entry_unique hentry hother.1 hother.2⟩
  · intro pair hmem hlater
    have hnot : pair ∉ s.due := fun hdue => absurd ((mem_due hs pair).mp hdue).2 (not_le.mpr hlater)
    obtain ⟨timer, hlive, -⟩ := hs.inStep pair (List.mem_append_left _ hmem)
    refine ⟨h.present pair hmem hnot, (h.kept _ _ hlive fun hinside => ?_).trans hlive.symm⟩
    obtain ⟨other, hother, heq⟩ := List.mem_map.mp hinside
    rw [hreset] at hother
    exact hnot (hs.entry_unique hmem ((mem_due hs other).mp hother).1 heq ▸ hother)

/-- In every run of the timer queue no deleted timer is used, between the steps of the loop every
timer has its entry, and every call of `HandleRead` runs the timers that are due, each once and
in the order of their expirations, deletes those of them that do not repeat for good, puts
those that do back into the set, and keeps all others. -/
theorem ownership_run {wall monotonic : ℤ} {actions : List (TimerAction κ)} {s : TimerQueue κ}
    (hrun : run step (new wall monotonic) actions = some s) :
    s.fault = false ∧ (s.Between → OneEntryEach s) ∧
      ∀ body t, run step s (.handleRead :: body) = some t → .handleRead ∉ body → t.position = .outside →
        HandledRead s t := by
  have hs : Owned s := run_invariant owned_step (owned_new wall monotonic) hrun
  refine ⟨hs.sound, hs.oneEntryEach, fun body t hbody hnot houtside => ?_⟩
  obtain ⟨m, hread, hrest⟩ := run_cons_eq_some.mp hbody
  have hm : s.handleRead = m := Option.some.inj (Option.ite_none_right_eq_some.mp hread).2
  obtain ⟨ht, called, reset, hhandling⟩ := handling_run hs (owned_step s _ m hs hread)
    ⟨[], [], hm ▸ handling_handleRead s⟩ hnot hrest
  exact hhandling.handledRead hs ht houtside

/-- A run in which two timers expire together and the callback of the first one adds a timer which
is due at once. -/
def reentrantRun : List (TimerAction Unit) :=
  [.addTimer 8 true (.runEvery 1) (), .addTimerInLoop, .addTimer 16 false (.runAfter 1) (), .clock 1000000 1000000,
    .runQueued, .addTimerInLoop]

/-- The call of `HandleRead` in that run. -/
def reentrantRead : List (TimerAction Unit) :=
  [.next, .addTimer 24 true (.runAt 7) (), .addTimerInLoop, .next, .next, .next, .next, .next]

/-- The two timers that are due are dealt with, and the new one waits. -/
theorem ownership_reentrant : ∃ s t, run step (new 0 0) reentrantRun = some s ∧
    run step s (.handleRead :: reentrantRead) = some t ∧ OneEntryEach s ∧ OneEntryEach t ∧ HandledRead s t := by
  have hfirst : (run step (new 0 0) reentrantRun).map (fun s => (s.position, s.adding)) =
    some (.outside, none) := by
    decide +kernel
  have hall : (run step (new 0 0) (reentrantRun ++ .handleRead :: reentrantRead)).map
      (fun s => (s.position, s.adding)) = some (.outside, none) := by decide +kernel
  obtain ⟨s, hrun, hs⟩ := Option.map_eq_some_iff.mp hfirst
  obtain ⟨t, hrun', ht⟩ := Option.map_eq_some_iff.mp hall
  obtain ⟨m, hm, hbody⟩ := run_append_eq_some.mp hrun'
  obtain rfl := Option.some.inj (hrun.symm.trans hm)
  obtain ⟨-, hentries, hread⟩ := ownership_run hrun
  obtain ⟨-, hentries', -⟩ := ownership_run hrun'
  exact ⟨s, t, hrun, hbody, hentries (Prod.mk.inj hs), hentries' (Prod.mk.inj ht),
    hread reentrantRead t hbody (by simp [reentrantRead]) (Prod.mk.inj ht).1⟩

end TimerQueue

end WebServer.Timers
