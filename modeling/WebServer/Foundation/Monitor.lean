import Mathlib.Data.Fintype.Basic
import Mathlib.Logic.Function.Basic
import WebServer.Foundation.Run

/-!
# A monitor with one condition variable

Some threads wait under a mutex until a condition on the shared data holds, the others change the
data under the same mutex and wake waiting threads up. A waiting thread may also wake up for no
reason. Every thread calls the monitor at most once.

The lemmas below say once what a step can do: whose position it changes and how, and what becomes
of the data and of the mutex.
-/

namespace WebServer.Foundation

/-- How many of the waiting threads are woken up. -/
inductive Wakes where
  | none
  | one
  | all
deriving DecidableEq

/-- The threads that wait, the condition for which they wait, what each of the others does to the data,
and whom it wakes up then. -/
structure MonitorSpec (Thread σ : Type*) where
  waits : Thread → Bool
  ready : σ → Bool
  update : Thread → σ → σ
  wakes : σ → Wakes

/-- The program position of a thread: a waiting one is before its lock, before the test of the condition,
in the wait on the condition variable, before it locks again, before its unlock, or has left; one of the
others is before its lock, the change, the notification, the unlock, or is over. -/
inductive MonitorPosition where
  | outside
  | testing
  | waiting
  | woken
  | leaving
  | left
  | updating
  | notifying
  | unlocking
  | updated
deriving DecidableEq

namespace MonitorPosition

/-- The thread holds the mutex. -/
def holds : MonitorPosition → Bool
  | testing => true
  | leaving => true
  | updating => true
  | notifying => true
  | unlocking => true
  | _ => false

/-- The position belongs to a thread that waits, or to one that does not. -/
def fits (waits : Bool) : MonitorPosition → Bool
  | outside => true
  | testing => waits
  | waiting => waits
  | woken => waits
  | leaving => waits
  | left => waits
  | _ => !waits

/-- The thread has changed the data. -/
def hasUpdated : MonitorPosition → Bool
  | notifying => true
  | unlocking => true
  | updated => true
  | _ => false

/-- The thread has seen that the condition holds. -/
def hasSeen : MonitorPosition → Bool
  | leaving => true
  | left => true
  | _ => false

/-- The thread is done with the monitor. -/
def finished : MonitorPosition → Bool
  | left => true
  | updated => true
  | _ => false

/-- The steps that are left, where a notification pays for those that it wakes up. -/
def rank (wakeups : ℕ) : MonitorPosition → ℕ
  | outside => wakeups + 4
  | testing => 3
  | waiting => 1
  | woken => 4
  | leaving => 2
  | left => 0
  | updating => wakeups + 3
  | notifying => wakeups + 2
  | unlocking => 1
  | updated => 0

/-- A thread that waits is done when it has left, and another one when it has changed the data. -/
theorem eq_of_finished {waits : Bool} {position : MonitorPosition} (hfits : position.fits waits = true)
    (hfinished : position.finished = true) : position = if waits then left else updated := by
  cases position <;> cases waits <;> simp_all [fits, finished]

/-- The steps between the positions, for a thread that waits or not, when the condition holds or not. -/
inductive Moves (waits ready : Bool) : MonitorPosition → MonitorPosition → Prop where
  | lock : Moves waits ready outside (if waits then testing else updating)
  | pass (condition : ready = true) : Moves waits ready testing leaving
  | wait (condition : ready = false) : Moves waits ready testing waiting
  | wake : Moves waits ready waiting woken
  | relock : Moves waits ready woken testing
  | update : Moves waits ready updating notifying
  | notify : Moves waits ready notifying unlocking
  | leave : Moves waits ready leaving left
  | finish : Moves waits ready unlocking updated

end MonitorPosition

/-- The steps of the threads. A thread that is woken by nobody takes the step `wake`. -/
inductive MonitorAction (Thread : Type*) where
  | lock (t : Thread)
  | test (t : Thread)
  | wake (t : Thread)
  | relock (t : Thread)
  | update (t : Thread)
  | notify (t : Thread) (target : Option Thread)
  | unlock (t : Thread)
deriving DecidableEq

namespace MonitorAction

variable {Thread : Type*}

/-- The thread that takes the step. -/
def thread : MonitorAction Thread → Thread
  | lock t => t
  | test t => t
  | wake t => t
  | relock t => t
  | update t => t
  | notify t _ => t
  | unlock t => t

/-- The positions from which a thread takes the step. -/
def starts : MonitorAction Thread → List MonitorPosition
  | lock _ => [.outside]
  | test _ => [.testing]
  | wake _ => [.waiting]
  | relock _ => [.woken]
  | update _ => [.updating]
  | notify _ _ => [.notifying]
  | unlock _ => [.leaving, .unlocking]

/-- The thread wakes up for no reason. -/
def isSpurious : MonitorAction Thread → Bool
  | wake _ => true
  | _ => false

end MonitorAction

/-- The shared data, the thread that holds the mutex, and where the threads are. -/
structure Monitor (Thread σ : Type*) where
  data : σ
  owner : Option Thread
  position : Thread → MonitorPosition

namespace Monitor

variable {Thread σ : Type*} [DecidableEq Thread]

omit [DecidableEq Thread] in
/-- No thread has called the monitor. -/
def new (data : σ) : Monitor Thread σ := ⟨data, none, fun _ => .outside⟩

/-- Move a thread. -/
def move (s : Monitor Thread σ) (t : Thread) (position : MonitorPosition) : Monitor Thread σ :=
  { s with position := Function.update s.position t position }

/-- A thread that moves on with the mutex. -/
def acquire (s : Monitor Thread σ) (t : Thread) (position : MonitorPosition) : Monitor Thread σ :=
  { s.move t position with owner := some t }

/-- A thread that gives the mutex back. -/
def release (s : Monitor Thread σ) (t : Thread) (position : MonitorPosition) : Monitor Thread σ :=
  { s.move t position with owner := none }

/-- Where the threads are after one of them moved. -/
@[simp] theorem position_move (s : Monitor Thread σ) (t u : Thread) (position : MonitorPosition) :
    (s.move t position).position u = if u = t then position else s.position u := Function.update_apply _ _ _ _

/-- Where the threads are after one of them took the mutex. -/
@[simp] theorem position_acquire (s : Monitor Thread σ) (t u : Thread) (position : MonitorPosition) :
    (s.acquire t position).position u = if u = t then position else s.position u := s.position_move t u position

/-- Where the threads are after one of them gave the mutex back. -/
@[simp] theorem position_release (s : Monitor Thread σ) (t u : Thread) (position : MonitorPosition) :
    (s.release t position).position u = if u = t then position else s.position u := s.position_move t u position

omit [DecidableEq Thread] in
/-- Wake all waiting threads up. -/
def wakeAll (s : Monitor Thread σ) : Monitor Thread σ :=
  { s with position := fun t => if s.position t = .waiting then .woken else s.position t }

/-- The notification: of nobody, of one waiting thread if there is any, or of all. -/
def notifying [Fintype Thread] (s : Monitor Thread σ) : Wakes → Option Thread → Option (Monitor Thread σ)
  | .none, none => some s
  | .one, some t => if s.position t = .waiting then some (s.move t .woken) else none
  | .one, none => if ∀ t, s.position t ≠ .waiting then some s else none
  | .all, none => some s.wakeAll
  | _, _ => none

/-- One step; `none` when it is not the turn of the thread. -/
def step [Fintype Thread] (spec : MonitorSpec Thread σ) (s : Monitor Thread σ) :
    MonitorAction Thread → Option (Monitor Thread σ)
  | .lock t =>
    if s.owner = none ∧ s.position t = .outside then
      some (s.acquire t (if spec.waits t then .testing else .updating))
    else none
  | .test t =>
    if s.position t = .testing then
      some (if spec.ready s.data then s.move t .leaving else s.release t .waiting)
    else none
  | .wake t => if s.position t = .waiting then some (s.move t .woken) else none
  | .relock t => if s.owner = none ∧ s.position t = .woken then some (s.acquire t .testing) else none
  | .update t =>
    if s.position t = .updating then some { s.move t .notifying with data := spec.update t s.data } else none
  | .notify t target =>
    if s.position t = .notifying then (s.notifying (spec.wakes s.data) target).map (·.move t .unlocking) else none
  | .unlock t =>
    if s.position t = .leaving then some (s.release t .left)
    else if s.position t = .unlocking then some (s.release t .updated)
    else none

/-- Some waiting threads were woken up. -/
structure Awakened (s s' : Monitor Thread σ) (wakes : Wakes) : Prop where
  data : s'.data = s.data
  owner : s'.owner = s.owner
  position : ∀ t, s'.position t = s.position t ∨ s.position t = .waiting ∧ s'.position t = .woken
  one : wakes = .one → ∀ t, s'.position t = .waiting → ∃ other, other ≠ t ∧ s.position other = .waiting
  all : wakes = .all → ∀ t, s'.position t ≠ .waiting

variable [Fintype Thread] {spec : MonitorSpec Thread σ} {s s' : Monitor Thread σ}

/-- What a notification does. -/
theorem awakened_of_notifying {wakes : Wakes} {target : Option Thread} (h : s.notifying wakes target = some s') :
    Awakened s s' wakes := by
  unfold notifying at h
  split at h
  · obtain rfl := Option.some.inj h
    exact ⟨rfl, rfl, fun _ => Or.inl rfl, fun hone => (by cases hone), fun hall => (by cases hall)⟩
  · next woken =>
    obtain ⟨hwaiting, hmoved⟩ := Option.ite_none_right_eq_some.mp h
    obtain rfl := Option.some.inj hmoved
    refine ⟨rfl, rfl, fun t => ?_, fun _ t hstill => ?_, fun hall => (by cases hall)⟩
    · by_cases heq : t = woken
      · subst heq
        exact Or.inr ⟨hwaiting, by simp⟩
      · exact Or.inl (by simp [heq])
    · refine ⟨woken, fun heq => ?_, hwaiting⟩
      simp [heq] at hstill
  · obtain ⟨hnobody, hsame⟩ := Option.ite_none_right_eq_some.mp h
    obtain rfl := Option.some.inj hsame
    exact ⟨rfl, rfl, fun _ => Or.inl rfl, fun _ t hstill => absurd hstill (hnobody t), fun hall => (by cases hall)⟩
  · obtain rfl := Option.some.inj h
    refine ⟨rfl, rfl, fun t => ?_, fun hone => (by cases hone), fun _ t hstill => ?_⟩
    · by_cases hwaiting : s.position t = .waiting
      · exact Or.inr ⟨hwaiting, if_pos hwaiting⟩
      · exact Or.inl (if_neg hwaiting)
    · simp only [wakeAll] at hstill
      split at hstill
      · cases hstill
      · next hnot => exact hnot hstill
  · cases h

/-- The steps, with the conditions under which they are taken. -/
inductive Stepped (spec : MonitorSpec Thread σ) (s : Monitor Thread σ) :
    MonitorAction Thread → Monitor Thread σ → Prop where
  | lock (t : Thread) (free : s.owner = none) (position : s.position t = .outside) :
      Stepped spec s (.lock t) (s.acquire t (if spec.waits t then .testing else .updating))
  | pass (t : Thread) (position : s.position t = .testing) (ready : spec.ready s.data = true) :
      Stepped spec s (.test t) (s.move t .leaving)
  | wait (t : Thread) (position : s.position t = .testing) (unready : spec.ready s.data = false) :
      Stepped spec s (.test t) (s.release t .waiting)
  | wake (t : Thread) (position : s.position t = .waiting) : Stepped spec s (.wake t) (s.move t .woken)
  | relock (t : Thread) (free : s.owner = none) (position : s.position t = .woken) :
      Stepped spec s (.relock t) (s.acquire t .testing)
  | update (t : Thread) (position : s.position t = .updating) :
      Stepped spec s (.update t) { s.move t .notifying with data := spec.update t s.data }
  | notify {u : Monitor Thread σ} (t : Thread) (target : Option Thread) (position : s.position t = .notifying)
      (awakened : Awakened s u (spec.wakes s.data)) : Stepped spec s (.notify t target) (u.move t .unlocking)
  | leave (t : Thread) (position : s.position t = .leaving) : Stepped spec s (.unlock t) (s.release t .left)
  | finish (t : Thread) (position : s.position t = .unlocking) : Stepped spec s (.unlock t) (s.release t .updated)

/-- Every step is one of these. -/
theorem stepped_of_step {action : MonitorAction Thread} (h : s.step spec action = some s') :
    Stepped spec s action s' := by
  cases action with
  | lock t =>
    obtain ⟨⟨hfree, hposition⟩, hmoved⟩ := Option.ite_none_right_eq_some.mp h
    exact Option.some.inj hmoved ▸ .lock t hfree hposition
  | test t =>
    obtain ⟨hposition, hmoved⟩ := Option.ite_none_right_eq_some.mp h
    obtain rfl := Option.some.inj hmoved
    by_cases hready : spec.ready s.data = true
    · rw [if_pos hready]
      exact .pass t hposition hready
    · rw [if_neg hready]
      exact .wait t hposition (Bool.eq_false_of_not_eq_true hready)
  | wake t =>
    obtain ⟨hposition, hmoved⟩ := Option.ite_none_right_eq_some.mp h
    exact Option.some.inj hmoved ▸ .wake t hposition
  | relock t =>
    obtain ⟨⟨hfree, hposition⟩, hmoved⟩ := Option.ite_none_right_eq_some.mp h
    exact Option.some.inj hmoved ▸ .relock t hfree hposition
  | update t =>
    obtain ⟨hposition, hmoved⟩ := Option.ite_none_right_eq_some.mp h
    exact Option.some.inj hmoved ▸ .update t hposition
  | notify t target =>
    obtain ⟨hposition, hmoved⟩ := Option.ite_none_right_eq_some.mp h
    obtain ⟨u, hnotified, rfl⟩ := Option.map_eq_some_iff.mp hmoved
    exact .notify t target hposition (awakened_of_notifying hnotified)
  | unlock t =>
    rw [step] at h
    split at h
    · next hposition => exact Option.some.inj h ▸ .leave t hposition
    · obtain ⟨hposition, hmoved⟩ := Option.ite_none_right_eq_some.mp h
      exact Option.some.inj hmoved ▸ .finish t hposition

/-- The thread that holds the mutex is the only one between its lock and its unlock. -/
def Owned (s : Monitor Thread σ) : Prop := ∀ t, s.owner = some t ↔ (s.position t).holds = true

omit [DecidableEq Thread] [Fintype Thread] in
/-- Only one thread holds the mutex. -/
theorem Owned.unique (h : s.Owned) {t u : Thread} (ht : (s.position t).holds = true)
    (hu : (s.position u).holds = true) :
    t = u := Option.some.inj (((h t).mpr ht).symm.trans ((h u).mpr hu))

omit [Fintype Thread] in
/-- A thread takes the free mutex. -/
theorem Owned.acquire (h : s.Owned) (hfree : s.owner = none) (t : Thread) {position : MonitorPosition}
    (hholds : position.holds = true) : (s.acquire t position).Owned := by
  intro u
  rw [position_acquire]
  by_cases heq : u = t
  · rw [if_pos heq, heq]
    exact iff_of_true rfl hholds
  · rw [if_neg heq, ← h u, hfree]
    exact iff_of_false (fun hsame => heq (Option.some.inj hsame).symm) (by simp)

omit [Fintype Thread] in
/-- A thread that holds the mutex gives it back. -/
theorem Owned.release (h : s.Owned) {t : Thread} (ht : (s.position t).holds = true) {position : MonitorPosition}
    (hholds : position.holds = false) : (s.release t position).Owned := by
  intro u
  rw [position_release]
  by_cases heq : u = t
  · rw [if_pos heq, hholds]
    exact iff_of_false (fun hsame => by cases hsame) (by simp)
  · rw [if_neg heq]
    exact iff_of_false (fun hsame => by cases hsame) fun hu => heq (h.unique hu ht)

omit [Fintype Thread] in
/-- A thread moves and keeps the mutex, or stays without it. -/
theorem Owned.move (h : s.Owned) {t : Thread} {position : MonitorPosition}
    (hholds : position.holds = (s.position t).holds) : (s.move t position).Owned := by
  intro u
  rw [position_move]
  by_cases heq : u = t
  · rw [if_pos heq, hholds, heq]
    exact h t
  · rw [if_neg heq]
    exact h u

omit [DecidableEq Thread] [Fintype Thread] in
/-- Waking threads up does not concern the mutex. -/
theorem Owned.awaken (h : s.Owned) {wakes : Wakes} (hawakened : Awakened s s' wakes) : s'.Owned := by
  intro t
  rw [hawakened.owner, h t]
  rcases hawakened.position t with hsame | ⟨hwaiting, hwoken⟩
  · rw [hsame]
  · rw [hwaiting, hwoken]
    exact Iff.rfl

/-- Every step keeps the mutex with one thread. -/
theorem owned_step (h : s.Owned) {action : MonitorAction Thread} (hstep : s.step spec action = some s') :
    s'.Owned := by
  cases stepped_of_step hstep with
  | lock t free position => exact h.acquire free t (by split <;> rfl)
  | pass t position ready => exact h.move (by rw [position]; rfl)
  | wait t position unready => exact h.release (by rw [position]; rfl) rfl
  | wake t position => exact h.move (by rw [position]; rfl)
  | relock t free position => exact h.acquire free t rfl
  | update t position => exact h.move (by rw [position]; rfl)
  | notify t target position awakened =>
    refine (h.awaken awakened).move ?_
    rcases awakened.position t with hsame | ⟨hwaiting, -⟩
    · rw [hsame, position]
      rfl
    · cases position.symm.trans hwaiting
  | leave t position => exact h.release (by rw [position]; rfl) rfl
  | finish t position => exact h.release (by rw [position]; rfl) rfl

/-- A thread takes a step from its position. -/
theorem mem_starts_of_step {action : MonitorAction Thread} (hstep : s.step spec action = some s') :
    s.position action.thread ∈ action.starts := by
  cases stepped_of_step hstep <;> simp_all [MonitorAction.thread, MonitorAction.starts]

/-- A step moves the thread that takes it, and may wake others up. -/
theorem others_step {action : MonitorAction Thread} (hstep : s.step spec action = some s') {t : Thread}
    (ht : t ≠ action.thread) :
    s'.position t = s.position t ∨ s.position t = .waiting ∧ s'.position t = .woken := by
  cases stepped_of_step hstep with
  | lock u free position => exact Or.inl ((position_acquire s u t _).trans (if_neg ht))
  | pass u position ready => exact Or.inl ((position_move s u t _).trans (if_neg ht))
  | wait u position unready => exact Or.inl ((position_release s u t _).trans (if_neg ht))
  | wake u position => exact Or.inl ((position_move s u t _).trans (if_neg ht))
  | relock u free position => exact Or.inl ((position_acquire s u t _).trans (if_neg ht))
  | update u position => exact Or.inl ((position_move s u t _).trans (if_neg ht))
  | notify u target position awakened =>
    have hne : t ≠ u := ht
    rw [position_move, if_neg hne]
    exact awakened.position t
  | leave u position => exact Or.inl ((position_release s u t _).trans (if_neg ht))
  | finish u position => exact Or.inl ((position_release s u t _).trans (if_neg ht))

/-- Where a thread goes in a step of its own. -/
theorem moves_step {action : MonitorAction Thread} (hstep : s.step spec action = some s') :
    (s.position action.thread).Moves (spec.waits action.thread) (spec.ready s.data)
      (s'.position action.thread) := by
  cases stepped_of_step hstep with
  | lock t free position => simpa [MonitorAction.thread, position] using MonitorPosition.Moves.lock
  | pass t position ready => simpa [MonitorAction.thread, position] using MonitorPosition.Moves.pass ready
  | wait t position unready => simpa [MonitorAction.thread, position] using MonitorPosition.Moves.wait unready
  | wake t position => simpa [MonitorAction.thread, position] using MonitorPosition.Moves.wake
  | relock t free position => simpa [MonitorAction.thread, position] using MonitorPosition.Moves.relock
  | update t position => simpa [MonitorAction.thread, position] using MonitorPosition.Moves.update
  | notify t target position awakened => simpa [MonitorAction.thread, position] using MonitorPosition.Moves.notify
  | leave t position => simpa [MonitorAction.thread, position] using MonitorPosition.Moves.leave
  | finish t position => simpa [MonitorAction.thread, position] using MonitorPosition.Moves.finish

/-- A thread leaves with its unlock. -/
theorem left_step {action : MonitorAction Thread} (hstep : s.step spec action = some s') {t : Thread}
    (ht : s'.position t = .left) : s.position t = .left ∨ action = .unlock t ∧ s.position t = .leaving := by
  by_cases hthread : t = action.thread
  · subst hthread
    have hmoves := moves_step hstep
    have hstarts := mem_starts_of_step hstep
    rw [ht] at hmoves
    generalize s.position action.thread = before at hmoves hstarts
    generalize hafter : MonitorPosition.left = after at hmoves
    cases hmoves with
    | leave =>
      cases action with
      | unlock t => exact Or.inr ⟨rfl, rfl⟩
      | _ => simp [MonitorAction.starts] at hstarts
    | lock => split at hafter <;> cases hafter
    | _ => cases hafter
  · rcases others_step hstep hthread with hsame | ⟨-, hwoken⟩
    · exact Or.inl (hsame.symm.trans ht)
    · cases hwoken.symm.trans ht

/-- A step changes the data only where a thread has taken the mutex for it. -/
theorem data_step {action : MonitorAction Thread} (hstep : s.step spec action = some s') :
    s'.data = s.data ∨ s.position action.thread = .updating ∧ s'.position action.thread = .notifying ∧
      s'.data = spec.update action.thread s.data := by
  cases stepped_of_step hstep with
  | update t position => exact Or.inr ⟨position, by simp [MonitorAction.thread], rfl⟩
  | notify t target position awakened => exact Or.inl awakened.data
  | _ => exact Or.inl rfl

/-- Other steps than a change of the data do not count as one. -/
theorem hasUpdated_step {action : MonitorAction Thread} (hstep : s.step spec action = some s')
    (hposition : s.position action.thread ≠ .updating) (t : Thread) :
    (s'.position t).hasUpdated = (s.position t).hasUpdated := by
  by_cases ht : t = action.thread
  · subst ht
    have hmoves := moves_step hstep
    generalize s.position action.thread = before at hmoves hposition
    generalize s'.position action.thread = after at hmoves
    cases hmoves with
    | lock => split <;> rfl
    | update => exact absurd rfl hposition
    | _ => rfl
  · rcases others_step hstep ht with hsame | ⟨hwaiting, hwoken⟩
    · rw [hsame]
    · rw [hwaiting, hwoken]
      rfl

/-- Which threads have changed the data is changed with the data. -/
theorem updated_step {action : MonitorAction Thread} (hstep : s.step spec action = some s') :
    (s'.data = s.data ∧ ∀ t, (s'.position t).hasUpdated = (s.position t).hasUpdated) ∨
      s.position action.thread = .updating ∧ s'.data = spec.update action.thread s.data ∧
        ∀ t, (s'.position t).hasUpdated = if t = action.thread then true else (s.position t).hasUpdated := by
  by_cases hposition : s.position action.thread = .updating
  · refine Or.inr ⟨hposition, ?_⟩
    have hnext : s'.position action.thread = .notifying ∧ s'.data = spec.update action.thread s.data := by
      have hstarts := mem_starts_of_step hstep
      rw [hposition] at hstarts
      cases stepped_of_step hstep with
      | update t position => exact ⟨by simp [MonitorAction.thread], rfl⟩
      | _ => simp [MonitorAction.starts] at hstarts
    refine ⟨hnext.2, fun t => ?_⟩
    split
    · next ht =>
      rw [ht, hnext.1]
      rfl
    · next ht =>
      rcases others_step hstep ht with hsame | ⟨hwaiting, hwoken⟩
      · rw [hsame]
      · rw [hwaiting, hwoken]
        rfl
  · refine Or.inl ⟨?_, hasUpdated_step hstep hposition⟩
    rcases data_step hstep with hsame | ⟨hupdating, -, -⟩
    · exact hsame
    · exact absurd hupdating hposition

/-- Every step takes each thread to a position of its role. -/
theorem fits_step (h : ∀ t, (s.position t).fits (spec.waits t) = true) {action : MonitorAction Thread}
    (hstep : s.step spec action = some s') (t : Thread) : (s'.position t).fits (spec.waits t) = true := by
  have hfits := h t
  by_cases ht : t = action.thread
  · subst ht
    have hmoves := moves_step hstep
    generalize s.position action.thread = before at hmoves hfits
    generalize s'.position action.thread = after at hmoves
    generalize spec.waits action.thread = waits at hmoves hfits
    cases hmoves with
    | lock => cases waits <;> rfl
    | _ => exact hfits
  · rcases others_step hstep ht with hsame | ⟨hwaiting, hwoken⟩
    · rw [hsame]
      exact hfits
    · rw [hwaiting] at hfits
      rw [hwoken]
      exact hfits

end Monitor

end WebServer.Foundation
