import Mathlib.Algebra.BigOperators.Group.Finset.Basic
import Mathlib.Algebra.Group.Action.Defs
import Mathlib.Algebra.Order.BigOperators.Group.Finset
import WebServer.Foundation.Monitor

/-!
# No thread waits in vain

A monitor is lawful when a change that makes the condition true is announced, and no change makes
it false again. Then no waiting thread is forgotten, and as long as the threads wake up for no
reason only finitely often, all of them finish.
-/

namespace WebServer.Foundation

/-- Changes that make the condition true are announced and are not undone, and where only one thread
is woken up, only one can wait. -/
structure MonitorSpec.Lawful {Thread σ : Type*} (spec : MonitorSpec Thread σ) : Prop where
  monotone : ∀ t data, spec.ready data = true → spec.ready (spec.update t data) = true
  announces : ∀ t data, spec.ready data = false → spec.ready (spec.update t data) = true →
    spec.wakes (spec.update t data) ≠ .none
  alone : ∀ data, spec.wakes data = .one → ∀ t u, spec.waits t = true → spec.waits u = true → t = u

namespace Monitor

variable {Thread σ : Type*} {spec : MonitorSpec Thread σ} {s s' : Monitor Thread σ}

/-- The invariant: who has left has seen the condition, and while it holds, a thread that still waits
is going to be woken up. -/
structure Sound (spec : MonitorSpec Thread σ) (s : Monitor Thread σ) : Prop where
  owned : s.Owned
  fits : ∀ t, (s.position t).fits (spec.waits t) = true
  seen : ∀ t, (s.position t).hasSeen = true → spec.ready s.data = true
  announced : spec.ready s.data = true → ∀ t, s.position t = .waiting →
    ∃ u, s.position u = .notifying ∧ spec.wakes s.data ≠ .none

/-- At the start nobody waits. -/
theorem sound_new (spec : MonitorSpec Thread σ) (data : σ) : Sound spec (new data) where
  owned _ := iff_of_false (fun h => by cases h) (by simp [new, MonitorPosition.holds])
  fits _ := rfl
  seen _ h := by cases h
  announced _ _ h := by cases h

variable [DecidableEq Thread] [Fintype Thread]

/-- The condition stays true. -/
theorem ready_step (hlawful : spec.Lawful) {action : MonitorAction Thread} (hstep : s.step spec action = some s')
    (hready : spec.ready s.data = true) : spec.ready s'.data = true := by
  rcases data_step hstep with hsame | ⟨-, -, hupdate⟩
  · rw [hsame]
    exact hready
  · rw [hupdate]
    exact hlawful.monotone _ _ hready

/-- Who has seen the condition is right about it after every step as well. -/
theorem seen_step (hlawful : spec.Lawful) (h : Sound spec s) {action : MonitorAction Thread}
    (hstep : s.step spec action = some s') (t : Thread) (ht : (s'.position t).hasSeen = true) :
    spec.ready s'.data = true := by
  apply ready_step hlawful hstep
  by_cases hthread : t = action.thread
  · subst hthread
    have hmoves := moves_step hstep
    have hseen := h.seen action.thread
    generalize s.position action.thread = before at hmoves hseen
    generalize s'.position action.thread = after at hmoves ht
    cases hmoves with
    | pass condition => exact condition
    | leave => exact hseen rfl
    | lock => split at ht <;> cases ht
    | _ => cases ht
  · rcases others_step hstep hthread with hsame | ⟨-, hwoken⟩
    · exact h.seen t (hsame ▸ ht)
    · rw [hwoken] at ht
      cases ht

/-- A thread that waits after a step waited before, unless it found the condition false. -/
theorem waiting_step {action : MonitorAction Thread} (hstep : s.step spec action = some s') {t : Thread}
    (ht : s'.position t = .waiting) : s.position t = .waiting ∧ t ≠ action.thread ∨
      spec.ready s.data = false ∧ s'.data = s.data := by
  by_cases hthread : t = action.thread
  · subst hthread
    refine Or.inr ?_
    cases stepped_of_step hstep with
    | wait u position unready => exact ⟨unready, rfl⟩
    | lock u free position =>
      have hmoved := (position_acquire s u u _).symm.trans ht
      simp only [if_true] at hmoved
      split at hmoved <;> cases hmoved
    | notify u target position awakened => simp [MonitorAction.thread] at ht
    | _ => simp [MonitorAction.thread] at ht
  · rcases others_step hstep hthread with hsame | ⟨-, hwoken⟩
    · exact Or.inl ⟨hsame ▸ ht, hthread⟩
    · cases hwoken.symm.trans ht

/-- A thread before its notification notifies next. -/
theorem notify_of_notifying {action : MonitorAction Thread} (hstep : s.step spec action = some s')
    (hposition : s.position action.thread = .notifying) : ∃ target, action = .notify action.thread target := by
  have hstarts := mem_starts_of_step hstep
  rw [hposition] at hstarts
  cases action with
  | notify t target => exact ⟨target, rfl⟩
  | _ => simp [MonitorAction.starts] at hstarts

/-- A notification that wakes somebody up leaves nobody waiting. -/
theorem no_waiting_of_notify (hlawful : spec.Lawful) (h : Sound spec s) {t : Thread} {target : Option Thread}
    (hstep : s.step spec (.notify t target) = some s') (hwakes : spec.wakes s.data ≠ .none) {u : Thread}
    (hu : u ≠ t) : s'.position u ≠ .waiting := by
  intro hwaiting
  cases stepped_of_step hstep with
  | notify _ _ position awakened =>
    rw [position_move, if_neg hu] at hwaiting
    have hbefore : s.position u = .waiting := by
      rcases awakened.position u with hsame | ⟨hstill, -⟩
      · exact hsame.symm.trans hwaiting
      · exact hstill
    cases hkind : spec.wakes s.data with
    | none => exact hwakes hkind
    | one =>
      obtain ⟨other, hne, hother⟩ := awakened.one hkind u hwaiting
      have hrole := h.fits u
      have hrole' := h.fits other
      rw [hbefore] at hrole
      rw [hother] at hrole'
      exact hne (hlawful.alone s.data hkind other u hrole' hrole)
    | all => exact awakened.all hkind u hwaiting

/-- No waiting thread is forgotten in a step. -/
theorem announced_step (hlawful : spec.Lawful) (h : Sound spec s) {action : MonitorAction Thread}
    (hstep : s.step spec action = some s') (hready : spec.ready s'.data = true) (t : Thread)
    (ht : s'.position t = .waiting) : ∃ u, s'.position u = .notifying ∧ spec.wakes s'.data ≠ .none := by
  rcases waiting_step hstep ht with ⟨hwaiting, hthread⟩ | ⟨hunready, hsame⟩
  · cases hbefore : spec.ready s.data with
    | false =>
      -- The condition became true in this step, which announces it.
      rcases data_step hstep with hsame | ⟨-, hnotifying, hupdate⟩
      · rw [hsame, hbefore] at hready
        cases hready
      · rw [hupdate] at hready ⊢
        exact ⟨_, hnotifying, hlawful.announces _ _ hbefore hready⟩
    | true =>
      obtain ⟨u, hu, hwakes⟩ := h.announced hbefore t hwaiting
      by_cases hmine : u = action.thread
      · subst hmine
        obtain ⟨target, hnotify⟩ := notify_of_notifying hstep hu
        rw [hnotify] at hstep
        exact absurd ht (no_waiting_of_notify hlawful h hstep hwakes hthread)
      · have hstill : s'.position u = .notifying := by
          rcases others_step hstep hmine with hsame | ⟨hwaits, -⟩
          · exact hsame.trans hu
          · cases hu.symm.trans hwaits
        have hdata : s'.data = s.data := by
          rcases data_step hstep with hsame | ⟨hupdating, -, -⟩
          · exact hsame
          · exact absurd (h.owned.unique (by rw [hu]; rfl) (by rw [hupdating]; rfl)) hmine
        rw [hdata]
        exact ⟨u, hstill, hwakes⟩
  · rw [hsame, hunready] at hready
    cases hready

/-- Every step keeps the invariant. -/
theorem sound_step (hlawful : spec.Lawful) (h : Sound spec s) {action : MonitorAction Thread}
    (hstep : s.step spec action = some s') : Sound spec s' where
  owned := owned_step h.owned hstep
  fits := fits_step h.fits hstep
  seen := seen_step hlawful h hstep
  announced := announced_step hlawful h hstep

/-- Whoever is to be woken up, there is a way to notify. -/
theorem exists_notifying (s : Monitor Thread σ) (wakes : Wakes) :
    ∃ target s', s.notifying wakes target = some s' := by
  cases wakes with
  | none => exact ⟨none, s, rfl⟩
  | all => exact ⟨none, s.wakeAll, rfl⟩
  | one =>
    by_cases hnobody : ∀ t, s.position t ≠ .waiting
    · exact ⟨none, s, if_pos hnobody⟩
    · obtain ⟨t, ht⟩ := not_forall_not.mp hnobody
      exact ⟨some t, s.move t .woken, if_pos ht⟩

/-- The thread that holds the mutex can take a step. -/
theorem exists_step_of_holds (spec : MonitorSpec Thread σ) {t : Thread} (ht : (s.position t).holds = true) :
    ∃ action s', MonitorAction.isSpurious action = false ∧ s.step spec action = some s' := by
  cases hposition : s.position t with
  | testing => exact ⟨.test t, _, rfl, if_pos hposition⟩
  | leaving => exact ⟨.unlock t, _, rfl, if_pos hposition⟩
  | updating => exact ⟨.update t, _, rfl, if_pos hposition⟩
  | notifying =>
    obtain ⟨target, s', hnotified⟩ := s.exists_notifying (spec.wakes s.data)
    refine ⟨.notify t target, s'.move t .unlocking, rfl, ?_⟩
    rw [step, if_pos hposition, hnotified, Option.map_some]
  | unlocking =>
    refine ⟨.unlock t, s.release t .updated, rfl, ?_⟩
    rw [step, if_neg (by simp [hposition]), if_pos hposition]
  | _ =>
    rw [hposition] at ht
    cases ht

/-- Where the changes make the condition true in the end, either some thread can take a step without
waking up for no reason, or all threads are done. -/
theorem exists_step (h : Sound spec s)
    (hfinally : (∀ t, spec.waits t = false → s.position t = .updated) → spec.ready s.data = true) :
    (∃ action s', MonitorAction.isSpurious action = false ∧ s.step spec action = some s') ∨
      ∀ t, (s.position t).finished = true := by
  by_cases hheld : ∃ t, (s.position t).holds = true
  · obtain ⟨t, ht⟩ := hheld
    exact Or.inl (exists_step_of_holds spec ht)
  have hfree : s.owner = none := Option.eq_none_iff_forall_ne_some.mpr fun t howner => hheld
    ⟨t, (h.owned t).mp howner⟩
  by_cases hwoken : ∃ t, s.position t = .woken
  · obtain ⟨t, ht⟩ := hwoken
    exact Or.inl ⟨.relock t, _, rfl, if_pos ⟨hfree, ht⟩⟩
  by_cases houtside : ∃ t, s.position t = .outside
  · obtain ⟨t, ht⟩ := houtside
    exact Or.inl ⟨.lock t, _, rfl, if_pos ⟨hfree, ht⟩⟩
  have hrest (t : Thread) : s.position t = .waiting ∨ (s.position t).finished = true := by
    cases hposition : s.position t with
    | waiting => exact Or.inl rfl
    | left => exact Or.inr rfl
    | updated => exact Or.inr rfl
    | outside => exact absurd ⟨t, hposition⟩ houtside
    | woken => exact absurd ⟨t, hposition⟩ hwoken
    | _ => exact absurd ⟨t, by rw [hposition]; rfl⟩ hheld
  refine Or.inr fun t => (hrest t).resolve_left fun hwaiting => ?_
  -- All changes are made, so the condition holds, and a notification is still to come.
  have hready : spec.ready s.data = true := by
    refine hfinally fun u hu => ?_
    have hrole := h.fits u
    rw [hu] at hrole
    rcases hrest u with hwaits | hdone
    · rw [hwaits] at hrole
      cases hrole
    · cases hposition : s.position u with
      | updated => rfl
      | _ => simp [hposition, MonitorPosition.fits, MonitorPosition.finished] at hrole hdone
  obtain ⟨u, hu, -⟩ := h.announced hready t hwaiting
  exact hheld ⟨u, by rw [hu]; rfl⟩

/-- With one thread that changes the data, the data is what this change makes of it. -/
theorem data_eq_step {data : σ} {changer : Thread} (honly : ∀ t, spec.waits t = false → t = changer)
    (h : Sound spec s)
    (hdata : s.data = if (s.position changer).hasUpdated then spec.update changer data else data)
    {action : MonitorAction Thread} (hstep : s.step spec action = some s') :
    s'.data = if (s'.position changer).hasUpdated then spec.update changer data else data := by
  rcases updated_step hstep with ⟨hsame, hupdated⟩ | ⟨hupdating, hupdate, hupdated⟩
  · rw [hsame, hupdated changer, hdata]
  · have hchanger : action.thread = changer := by
      have hrole := h.fits action.thread
      rw [hupdating] at hrole
      refine honly _ ?_
      simpa [MonitorPosition.fits] using hrole
    rw [hchanger] at hupdating hupdate hupdated
    rw [hupdating] at hdata
    rw [hupdate, hdata, hupdated changer, if_pos rfl]
    rfl

/-- Who is done stays where it is. -/
theorem finished_step {action : MonitorAction Thread} (hstep : s.step spec action = some s') {t : Thread}
    (ht : (s.position t).finished = true) : s'.position t = s.position t := by
  by_cases hthread : t = action.thread
  · subst hthread
    have hmoves := moves_step hstep
    generalize s.position action.thread = before at hmoves ht
    generalize s'.position action.thread = after at hmoves
    cases hmoves <;> cases ht
  · rcases others_step hstep hthread with hsame | ⟨hwaiting, -⟩
    · exact hsame
    · rw [hwaiting] at ht
      cases ht

/-- The steps that are left. -/
def measure (s : Monitor Thread σ) : ℕ := ∑ t, (s.position t).rank (3 * Fintype.card Thread)

/-- A thread that moves changes its own part of the measure. -/
theorem measure_move (s : Monitor Thread σ) (t : Thread) (position : MonitorPosition) :
    (s.move t position).measure + (s.position t).rank (3 * Fintype.card Thread) =
      s.measure + position.rank (3 * Fintype.card Thread) := by
  have hother : ∑ u ∈ Finset.univ.erase t, ((s.move t position).position u).rank (3 * Fintype.card Thread) =
      ∑ u ∈ Finset.univ.erase t, (s.position u).rank (3 * Fintype.card Thread) := by
    refine Finset.sum_congr rfl fun u hu => ?_
    rw [position_move, if_neg (Finset.ne_of_mem_erase hu)]
  rw [measure, measure, ← Finset.add_sum_erase _ _ (Finset.mem_univ t),
    ← Finset.add_sum_erase _ _ (Finset.mem_univ t),
    hother, position_move, if_pos rfl]
  omega

omit [DecidableEq Thread] in
/-- A notification pays for all that it may wake up. -/
theorem measure_awaken {wakes : Wakes} (h : Awakened s s' wakes) :
    s'.measure ≤ s.measure + 3 * Fintype.card Thread := by
  have hthread (t : Thread) : (s'.position t).rank (3 * Fintype.card Thread) ≤
      (s.position t).rank (3 * Fintype.card Thread) + 3 := by
    rcases h.position t with hsame | ⟨hwaiting, hwoken⟩
    · rw [hsame]
      exact Nat.le_add_right _ _
    · rw [hwaiting, hwoken, MonitorPosition.rank, MonitorPosition.rank]
  calc s'.measure ≤ ∑ t, ((s.position t).rank (3 * Fintype.card Thread) + 3) :=
    Finset.sum_le_sum fun t _ => hthread t
    _ = s.measure + 3 * Fintype.card Thread := by
      rw [Finset.sum_add_distrib, Finset.sum_const, Finset.card_univ, smul_eq_mul,
        Nat.mul_comm (Fintype.card Thread) 3, measure]

/-- A thread that moves to a lower rank takes a step that was left. -/
theorem measure_move_le (s : Monitor Thread σ) (t : Thread) {before after : MonitorPosition} {extra : ℕ}
    (hbefore : s.position t = before) (hrank : after.rank (3 * Fintype.card Thread) + 1 ≤
      before.rank (3 * Fintype.card Thread) + extra) : (s.move t after).measure + 1 ≤ s.measure + extra := by
  have hmove := s.measure_move t after
  rw [hbefore] at hmove
  omega

/-- A step uses one of them up, unless a thread wakes up for no reason. -/
theorem measure_step {action : MonitorAction Thread} (hstep : s.step spec action = some s') :
    s'.measure + 1 ≤ s.measure + if action.isSpurious then 4 else 0 := by
  cases stepped_of_step hstep with
  | lock t free position =>
    refine s.measure_move_le t position ?_
    split
    · exact Nat.le_add_left _ _
    · exact Nat.le_refl _
  | pass t position ready => exact s.measure_move_le t position (Nat.le_refl 3)
  | wait t position unready => exact s.measure_move_le t position (Nat.le_succ 2)
  | wake t position => exact s.measure_move_le t position (Nat.le_refl 5)
  | relock t free position => exact s.measure_move_le t position (Nat.le_refl 4)
  | update t position => exact s.measure_move_le t position (Nat.le_refl _)
  | @notify awake t target position awakened =>
    have hawake := measure_awaken awakened
    have hstill : awake.position t = .notifying := by
      rcases awakened.position t with hsame | ⟨hwaiting, -⟩
      · exact hsame.trans position
      · cases position.symm.trans hwaiting
    have hmove := awake.measure_move t .unlocking
    rw [hstill] at hmove
    simp only [MonitorPosition.rank] at hmove
    change (awake.move t .unlocking).measure + 1 ≤ s.measure + 0
    omega
  | leave t position => exact s.measure_move_le t position (Nat.le_succ 1)
  | finish t position => exact s.measure_move_le t position (Nat.le_refl 1)

end Monitor

end WebServer.Foundation
