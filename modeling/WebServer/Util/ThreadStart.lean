import WebServer.Util.Latch

/-!
# Starting a thread

`Thread::Start()` creates a thread and waits on a latch, which the new thread counts down before it
calls its function. The function first announces something under another monitor, for which the
starter waits next: an event loop (`EventLoopThread`), or that the logging thread runs
(`AsyncLogging`).
-/

namespace WebServer.Util

open WebServer.Foundation

/-- The thread that calls `Start()`, and the one that it creates. -/
inductive Party where
  | starter
  | thread
deriving DecidableEq

/-- There are two of them. -/
instance : Fintype Party where
  elems := {.starter, .thread}
  complete party := by cases party <;> decide

/-- The starter waits. -/
def Party.waits : Party → Bool
  | starter => true
  | thread => false

/-- Whether `pthread_create` was called, the latch of `Thread`, the monitor of the announcement, and what the
starter read when its wait was over. -/
structure ThreadStart (σ : Type) where
  created : Bool
  latch : Monitor Party ℤ
  announcement : Monitor Party σ
  result : Option σ

/-- The steps: `pthread_create`, those at the latch, and those at the announcement. -/
inductive StartAction where
  | create
  | latch (action : MonitorAction Party)
  | announce (action : MonitorAction Party)
deriving DecidableEq

/-- A thread wakes up for no reason. -/
def StartAction.isSpurious : StartAction → Bool
  | create => false
  | latch action => action.isSpurious
  | announce action => action.isSpurious

namespace ThreadStart

variable {σ : Type} {spec : MonitorSpec Party σ}

/-- A thread that is not created yet; the latch is constructed with the count one. -/
def new (data : σ) : ThreadStart σ := ⟨false, .new 1, .new data, none⟩

/-- What the starter reads before it gives the mutex of the announcement back. -/
def read (s : ThreadStart σ) : MonitorAction Party → Option σ
  | .unlock .starter => some s.announcement.data
  | _ => s.result

/-- Only its last step gives the starter a result. -/
theorem read_of_ne (s : ThreadStart σ) {action : MonitorAction Party} (h : action ≠ .unlock .starter) :
    s.read action = s.result := by
  unfold read
  split
  · exact absurd rfl h
  · rfl

/-- One step. The threads come to the announcement when they are done with the latch. -/
def step (spec : MonitorSpec Party σ) (s : ThreadStart σ) : StartAction → Option (ThreadStart σ)
  | .create => if s.created then none else some { s with created := true }
  | .latch action =>
    if s.created then (s.latch.step (Latch.spec Party.waits) action).map fun latch => { s with latch } else none
  | .announce action =>
    if (s.latch.position action.thread).finished then
      (s.announcement.step spec action).map fun announcement => { s with announcement, result := s.read action }
    else none

/-- The starter has returned from its last wait. -/
def returned (s : ThreadStart σ) : Bool := s.announcement.position .starter = .left

/-- The steps that are left. -/
def measure (s : ThreadStart σ) : ℕ := s.latch.measure + s.announcement.measure + if s.created then 0 else 1

/-- Every step uses one of them up, unless a thread wakes up for no reason. -/
theorem measure_step {s s' : ThreadStart σ} {action : StartAction} (hstep : s.step spec action = some s') :
    s'.measure + 1 ≤ s.measure + if action.isSpurious then 4 else 0 := by
  cases action with
  | create =>
    obtain ⟨hnot, hs'⟩ := Option.ite_none_left_eq_some.mp hstep
    obtain rfl := Option.some.inj hs'
    rw [measure, measure, if_pos rfl, if_neg hnot]
    exact Nat.le_add_right _ _
  | latch action =>
    obtain ⟨-, hmap⟩ := Option.ite_none_right_eq_some.mp hstep
    obtain ⟨latch, hlatch, rfl⟩ := Option.map_eq_some_iff.mp hmap
    have hmeasure := Monitor.measure_step hlatch
    change latch.measure + s.announcement.measure + (if s.created then 0 else 1) + 1 ≤
      s.measure + if action.isSpurious then 4 else 0
    rw [measure]
    omega
  | announce action =>
    obtain ⟨-, hmap⟩ := Option.ite_none_right_eq_some.mp hstep
    obtain ⟨announcement, hannounced, rfl⟩ := Option.map_eq_some_iff.mp hmap
    have hmeasure := Monitor.measure_step hannounced
    change s.latch.measure + announcement.measure + (if s.created then 0 else 1) + 1 ≤
      s.measure + if action.isSpurious then 4 else 0
    rw [measure]
    omega

/-- A starter that has returned does not come back. -/
theorem returned_step {s s' : ThreadStart σ} {action : StartAction} (hstep : s.step spec action = some s')
    (h : s.returned = true) : s'.returned = true := by
  cases action with
  | create =>
    obtain ⟨-, hs'⟩ := Option.ite_none_left_eq_some.mp hstep
    exact Option.some.inj hs' ▸ h
  | latch action =>
    obtain ⟨-, hmap⟩ := Option.ite_none_right_eq_some.mp hstep
    obtain ⟨latch, -, rfl⟩ := Option.map_eq_some_iff.mp hmap
    exact h
  | announce action =>
    obtain ⟨-, hmap⟩ := Option.ite_none_right_eq_some.mp hstep
    obtain ⟨announcement, hannounced, rfl⟩ := Option.map_eq_some_iff.mp hmap
    have hleft : s.announcement.position .starter = .left := of_decide_eq_true h
    exact decide_eq_true ((Monitor.finished_step hannounced (by rw [hleft]; rfl)).trans hleft)

/-- The steps of a thread that is not created yet. -/
theorem measure_new (data : σ) : (new data).measure = 41 := rfl

end ThreadStart

/-- What is announced: the monitor is lawful, the starter waits in it, and what the thread does makes the
condition true, which is false at first. -/
structure Announces {σ : Type} (spec : MonitorSpec Party σ) (data : σ) : Prop where
  lawful : spec.Lawful
  waits : spec.waits = Party.waits
  before : spec.ready data = false
  after : spec.ready (spec.update .thread data) = true

/-- The latch announces that it was counted down. -/
theorem announces_latch : Announces (Latch.spec Party.waits) 1 := ⟨Latch.lawful_spec _, rfl, rfl, rfl⟩

namespace ThreadStart

variable {σ : Type} {spec : MonitorSpec Party σ} {data : σ} {s s' : ThreadStart σ}

/-- The invariant of a monitor in which the starter waits for the thread. -/
structure Handover (spec : MonitorSpec Party σ) (data : σ) (m : Monitor Party σ) : Prop where
  sound : Monitor.Sound spec m
  data_eq : m.data = if (m.position .thread).hasUpdated then spec.update .thread data else data

/-- Nobody has called the monitor. -/
theorem handover_new (spec : MonitorSpec Party σ) (data : σ) : Handover spec data (.new data) :=
  ⟨Monitor.sound_new spec data, rfl⟩

/-- Every step keeps the invariant. -/
theorem handover_step (hannounces : Announces spec data) {m m' : Monitor Party σ} (h : Handover spec data m)
    {action : MonitorAction Party} (hstep : m.step spec action = some m') : Handover spec data m' where
  sound := Monitor.sound_step hannounces.lawful h.sound hstep
  data_eq := by
    refine Monitor.data_eq_step (fun t ht => ?_) h.sound h.data_eq hstep
    rw [hannounces.waits] at ht
    cases t with
    | starter => cases ht
    | thread => rfl

/-- The condition holds as soon as the thread has made it true. -/
theorem Handover.ready_iff (hannounces : Announces spec data) {m : Monitor Party σ} (h : Handover spec data m) :
    spec.ready m.data = true ↔ (m.position .thread).hasUpdated = true := by
  rw [h.data_eq]
  split
  · next hupdated => exact iff_of_true hannounces.after hupdated
  · next hnot => exact iff_of_false (by rw [hannounces.before]; exact Bool.false_ne_true) hnot

/-- Unless both are done, one of them can go on. -/
theorem Handover.exists_step (hannounces : Announces spec data) {m : Monitor Party σ} (h : Handover spec data m) :
    (∃ action m', MonitorAction.isSpurious action = false ∧ m.step spec action = some m') ∨
      m.position .starter = .left ∧ m.position .thread = .updated := by
  have hstarter := h.sound.fits .starter
  have hthread := h.sound.fits .thread
  rw [hannounces.waits] at hstarter hthread
  have hready (hover : ∀ t, spec.waits t = false → m.position t = .updated) : spec.ready m.data = true := by
    rw [h.ready_iff hannounces, hover .thread (by rw [hannounces.waits]; rfl)]
    rfl
  rcases Monitor.exists_step h.sound hready with hnext | hfinished
  · exact Or.inl hnext
  · exact Or.inr ⟨MonitorPosition.eq_of_finished hstarter (hfinished .starter),
      MonitorPosition.eq_of_finished hthread (hfinished .thread)⟩

/-- When the starter has seen the condition and does not hold the mutex, the thread is done: it had given the mutex
back before. -/
structure Started (spec : MonitorSpec Party σ) (data : σ) (s : ThreadStart σ) : Prop where
  latch : Handover (Latch.spec Party.waits) 1 s.latch
  announcement : Handover spec data s.announcement
  idle : s.created = false → ∀ t, s.latch.position t = .outside
  order : ∀ t, s.announcement.position t ≠ .outside → (s.latch.position t).finished = true
  settled : (s.announcement.position .starter).hasSeen = true → s.announcement.position .thread = .updated
  result : s.returned = true → s.result = some (spec.update .thread data)

/-- A thread that is not created yet. -/
theorem started_new (spec : MonitorSpec Party σ) (data : σ) : Started spec data (new data) where
  latch := handover_new _ _
  announcement := handover_new _ _
  idle _ _ := rfl
  order _ h := absurd rfl h
  settled h := by cases h
  result h := by cases h

/-- When the starter sees the condition, the thread has given the mutex back. -/
theorem settled_step (hannounces : Announces spec data) {m m' : Monitor Party σ} (h : Handover spec data m)
    (hover : (m.position .starter).hasSeen = true → m.position .thread = .updated) {action : MonitorAction Party}
    (hstep : m.step spec action = some m') (hseen : (m'.position .starter).hasSeen = true) :
    m'.position .thread = .updated := by
  have hlater (hbefore : (m.position .starter).hasSeen = true) : m'.position .thread = .updated := by
    have hupdated := hover hbefore
    exact (Monitor.finished_step hstep (by rw [hupdated]; rfl)).trans hupdated
  have h' := handover_step hannounces h hstep
  have hready := (h'.ready_iff hannounces).mp (h'.sound.seen .starter hseen)
  cases hposition : m'.position .starter with
  | left =>
    rcases Monitor.left_step hstep hposition with hleft | ⟨-, hleaving⟩
    · exact hlater (by rw [hleft]; rfl)
    · exact hlater (by rw [hleaving]; rfl)
  | leaving =>
    have hholds : (m'.position .starter).holds = true := by
      rw [hposition]
      rfl
    have hnot : (m'.position .thread).holds ≠ true := fun hthread => by cases h'.sound.owned.unique hholds hthread
    generalize m'.position .thread = position at hready hnot
    cases position with
    | updated => rfl
    | notifying => exact absurd rfl hnot
    | unlocking => exact absurd rfl hnot
    | _ => cases hready
  | _ =>
    rw [hposition] at hseen
    cases hseen

/-- Every step keeps the invariant. -/
theorem started_step (hannounces : Announces spec data) (s : ThreadStart σ) (action : StartAction)
    (s' : ThreadStart σ) (h : Started spec data s) (hstep : s.step spec action = some s') :
      Started spec data s' := by
  cases action with
  | create =>
    obtain ⟨-, hs'⟩ := Option.ite_none_left_eq_some.mp hstep
    obtain rfl := Option.some.inj hs'
    exact ⟨h.latch, h.announcement, fun hnot => (by cases hnot), h.order, h.settled, h.result⟩
  | latch action =>
    obtain ⟨hcreated, hmap⟩ := Option.ite_none_right_eq_some.mp hstep
    obtain ⟨latch, hlatch, rfl⟩ := Option.map_eq_some_iff.mp hmap
    refine ⟨handover_step announces_latch h.latch hlatch, h.announcement, fun hnot => ?_, fun t ht => ?_,
      h.settled, h.result⟩
    · cases hcreated.symm.trans hnot
    · have hfinished := h.order t ht
      rw [Monitor.finished_step hlatch hfinished]
      exact hfinished
  | announce action =>
    obtain ⟨hdone, hmap⟩ := Option.ite_none_right_eq_some.mp hstep
    obtain ⟨announcement, hannounced, rfl⟩ := Option.map_eq_some_iff.mp hmap
    have hafter := handover_step hannounces h.announcement hannounced
    refine ⟨h.latch, hafter, fun hnot t => ?_, fun t ht => ?_,
      settled_step hannounces h.announcement h.settled hannounced, fun hreturned => ?_⟩
    · have houtside := h.idle hnot t
      exact houtside
    · by_cases hthread : t = action.thread
      · rw [hthread]
        exact hdone
      · refine h.order t fun houtside => ht ?_
        rcases Monitor.others_step hannounced hthread with hsame | ⟨hwaiting, -⟩
        · exact hsame.trans houtside
        · cases hwaiting.symm.trans houtside
    · rcases Monitor.left_step hannounced (of_decide_eq_true hreturned) with hleft | ⟨rfl, hleaving⟩
      · have hother : action ≠ .unlock .starter := by
          rintro rfl
          have hstarts := Monitor.mem_starts_of_step hannounced
          rw [MonitorAction.thread, hleft] at hstarts
          simp [MonitorAction.starts] at hstarts
        exact (s.read_of_ne hother).trans (h.result (decide_eq_true hleft))
      · have hseen : (s.announcement.position .starter).hasSeen = true := by
          rw [hleaving]
          rfl
        have hupdated := (h.announcement.ready_iff hannounces).mp (h.announcement.sound.seen .starter hseen)
        change some s.announcement.data = _
        rw [h.announcement.data_eq, if_pos hupdated]

/-- Unless the starter has returned and the thread is done, one of them can go on. -/
theorem Started.exists_step (hannounces : Announces spec data) (h : Started spec data s) :
    (∃ action s', StartAction.isSpurious action = false ∧ s.step spec action = some s') ∨
      s.returned = true ∧ s.announcement.position .thread = .updated := by
  cases hcreated : s.created with
  | false => exact Or.inl ⟨.create, _, rfl, if_neg (by rw [hcreated]; exact Bool.false_ne_true)⟩
  | true =>
    rcases h.latch.exists_step announces_latch with ⟨action, latch, hfree, hlatch⟩ | ⟨hstarter, hthread⟩
    · refine Or.inl ⟨.latch action, { s with latch }, hfree, ?_⟩
      rw [step, if_pos hcreated, hlatch, Option.map_some]
    · rcases h.announcement.exists_step hannounces with
        ⟨action, announcement, hfree, hannounced⟩ | ⟨hreturned, hover⟩
      · refine Or.inl ⟨.announce action, { s with announcement, result := s.read action }, hfree, ?_⟩
        have hdone : (s.latch.position action.thread).finished = true := by
          cases action.thread with
          | starter =>
            rw [hstarter]
            rfl
          | thread =>
            rw [hthread]
            rfl
        rw [step, if_pos hdone, hannounced, Option.map_some]
      · exact Or.inr ⟨decide_eq_true hreturned, hover⟩

/-- In every run of a start, with wakeups for no reason at any time, the starter returns only after the thread has
made its announcement and has given the mutex back, with the data that was announced; until then one of the two
can always go on; and apart from what the wakeups cost, the number of steps is bounded. -/
theorem start_run (hannounces : Announces spec data) {actions : List StartAction}
    (hrun : run (step spec) (new data) actions = some s) :
    (s.returned = true → s.announcement.position .thread = .updated ∧ s.result = some (spec.update .thread data)) ∧
    ((∃ action s', StartAction.isSpurious action = false ∧ s.step spec action = some s') ∨ s.returned = true) ∧
    actions.length ≤ 41 + 4 * actions.countP StartAction.isSpurious := by
  have hstarted := run_invariant (started_step hannounces) (started_new spec data) hrun
  refine ⟨fun hreturned => ⟨hstarted.settled ?_, hstarted.result hreturned⟩, ?_, ?_⟩
  · rw [of_decide_eq_true hreturned]
    rfl
  · exact (hstarted.exists_step hannounces).imp_right And.left
  · have hlength : s.measure + actions.length ≤ (new data).measure + 4 * actions.countP StartAction.isSpurious :=
      run_length_le (fun s action s' hstep => measure_step hstep) hrun
    rw [measure_new] at hlength
    omega

/-- `StartAsyncLogging()` with a logging thread that counts the latch down when it runs. -/
theorem start_run_asyncLogging : ∃ s, run (step (Latch.spec Party.waits)) (new 1) [.create, .latch (.lock .starter),
    .latch (.test .starter), .latch (.lock .thread), .latch (.update .thread), .latch (.notify .thread none),
    .latch (.unlock .thread), .announce (.lock .thread), .announce (.update .thread), .announce
      (.notify .thread none),
    .announce (.unlock .thread), .latch (.relock .starter), .latch (.test .starter), .latch (.unlock .starter),
    .announce (.lock .starter), .announce (.test .starter), .announce (.unlock .starter)] = some s ∧
    s.announcement.position .thread = .updated ∧ s.result = some 0 := by
  have hrun : run (step (Latch.spec Party.waits)) (new 1) [.create, .latch (.lock .starter),
    .latch (.test .starter), .latch (.lock .thread), .latch (.update .thread), .latch (.notify .thread none),
    .latch (.unlock .thread), .announce (.lock .thread), .announce (.update .thread), .announce
      (.notify .thread none),
    .announce (.unlock .thread), .latch (.relock .starter), .latch (.test .starter), .latch (.unlock .starter),
    .announce (.lock .starter), .announce (.test .starter), .announce (.unlock .starter)] = some _ := rfl
  exact ⟨_, hrun, (start_run announces_latch hrun).1 rfl⟩

end ThreadStart

end WebServer.Util
