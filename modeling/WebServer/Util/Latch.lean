import Mathlib.Data.Fintype.Card
import WebServer.Foundation.MonitorProgress

/-!
# The latch

`CountDown()` lowers the count and wakes all waiting threads up when it reaches zero, and `Wait()`
returns when the count is not positive. The latch is a monitor, and the threads that do not wait
count it down.
-/

namespace WebServer.Util.Latch

open WebServer.Foundation

variable {Thread : Type}

/-- `Wait()` for these threads, and `CountDown()` for the others. -/
def spec (waits : Thread → Bool) : MonitorSpec Thread ℤ where
  waits := waits
  ready count := ¬ 0 < count
  update _ count := count - 1
  wakes count := if count = 0 then .all else .none

/-- The count that reaches zero is announced. -/
theorem lawful_spec (waits : Thread → Bool) : (spec waits).Lawful where
  monotone _ count h := by
    have hcount : ¬ 0 < count := of_decide_eq_true h
    have hlower : ¬ 0 < count - 1 := by omega
    exact decide_eq_true hlower
  announces _ count hbefore hafter := by
    have hpositive : ¬ ¬ 0 < count := of_decide_eq_false hbefore
    have hzero : ¬ 0 < count - 1 := of_decide_eq_true hafter
    have hlast : count - 1 = 0 := by omega
    simp [spec, hlast]
  alone count hone := by
    simp only [spec] at hone
    split at hone <;> cases hone

variable [Fintype Thread]

/-- How many threads have counted the latch down. -/
def counted (s : Monitor Thread ℤ) : ℕ := (Finset.univ.filter fun t => (s.position t).hasUpdated = true).card

variable [DecidableEq Thread] {waits : Thread → Bool} {s s' : Monitor Thread ℤ}

/-- The count and the calls that lowered it add up to the same number. -/
theorem data_add_counted_step {action : MonitorAction Thread} (hstep : s.step (spec waits) action = some s') :
    s'.data + counted s' = s.data + counted s := by
  rcases Monitor.updated_step hstep with ⟨hdata, hsame⟩ | ⟨hupdating, hdata, hupdated⟩
  · rw [hdata, counted, counted]
    simp only [hsame]
  · have hinsert : (Finset.univ.filter fun t => (s'.position t).hasUpdated = true) =
        insert action.thread (Finset.univ.filter fun t => (s.position t).hasUpdated = true) := by
      ext t
      rw [Finset.mem_insert, Finset.mem_filter, Finset.mem_filter, hupdated t]
      by_cases ht : t = action.thread
      · simp [ht]
      · simp [ht]
    have hnew : action.thread ∉ Finset.univ.filter fun t => (s.position t).hasUpdated = true := by
      rw [Finset.mem_filter, hupdating]
      exact fun hmem => by cases hmem.2
    have hcard : counted s' = counted s + 1 := by
      rw [counted, hinsert, Finset.card_insert_of_notMem hnew, counted]
    change s'.data = s.data - 1 at hdata
    rw [hdata, hcard]
    omega

/-- In every run of a latch, with any count, any threads and wakeups for no reason, no thread returns from
`Wait()` before the latch was counted down as often as its count says; if there are enough threads to do so, then
there is always a thread that can go on until all of them have returned; and apart from what the wakeups for no
reason cost, the number of steps is bounded. -/
theorem run_latch {count : ℤ} {actions : List (MonitorAction Thread)}
    (hrun : run (Monitor.step (spec waits)) (.new count) actions = some s) :
    (∀ t, (s.position t).hasSeen = true → count ≤ counted s) ∧
    (count ≤ (Finset.univ.filter fun t => waits t = false).card →
      (∃ action s', MonitorAction.isSpurious action = false ∧ s.step (spec waits) action = some s') ∨
        ∀ t, (s.position t).finished = true) ∧
    actions.length ≤ Fintype.card Thread * (3 * Fintype.card
      Thread + 4) + 4 * actions.countP MonitorAction.isSpurious := by
  have hsound := run_invariant (fun s action s' h hstep => Monitor.sound_step (lawful_spec waits) h hstep)
    (Monitor.sound_new _ count) hrun
  have hcounted : s.data + counted s = count := by
    refine run_invariant (fun s action s' h hstep => (data_add_counted_step hstep).trans h) ?_ hrun
    simp [counted, Monitor.new, MonitorPosition.hasUpdated]
  refine ⟨fun t ht => ?_, fun henough => Monitor.exists_step hsound fun hover => ?_, ?_⟩
  · have hready : ¬ 0 < s.data := of_decide_eq_true (hsound.seen t ht)
    omega
  · have hall : (Finset.univ.filter fun t => waits t = false).card ≤ counted s := by
      refine Finset.card_le_card fun t ht => ?_
      rw [Finset.mem_filter] at ht ⊢
      exact ⟨ht.1, by rw [hover t ht.2]; rfl⟩
    have hzero : ¬ 0 < s.data := by omega
    exact decide_eq_true hzero
  · have hlength := run_length_le (fun s action s' => Monitor.measure_step) hrun
    have hnew : (Monitor.new count : Monitor Thread ℤ).measure = Fintype.card Thread *
      (3 * Fintype.card Thread + 4) := by
      simp [Monitor.measure, Monitor.new, MonitorPosition.rank]
    omega

/-- A thread waits, wakes up for no reason, and returns after the other thread has counted the latch down. -/
theorem run_latch_once : ∃ s, run (Monitor.step (spec id)) (.new 1)
    [.lock true, .test true, .wake true, .relock true,
    .test true, .lock false, .update false, .notify false none, .unlock false, .relock true, .test true,
      .unlock true] =
      some s ∧ 1 ≤ counted s := by
  have hrun : run (Monitor.step (spec id)) (.new 1) [.lock true, .test true, .wake true, .relock true,
    .test true, .lock false, .update false, .notify false none, .unlock false, .relock true, .test true,
      .unlock true] =
      some _ := rfl
  have hcounted := (run_latch hrun).1 true rfl
  exact ⟨_, hrun, Int.ofNat_le.mp hcounted⟩

end WebServer.Util.Latch
