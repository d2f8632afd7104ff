import WebServer.Foundation.Run

/-!
# Runs that advance through stages

A rank which no step lowers divides a run into stages. What happens in a later stage cannot
happen in an earlier one, and an action that carries the rank over a threshold is taken at
most once.
-/

namespace WebServer.Foundation

variable {σ α : Type*} {step : σ → α → Option σ} {rank : σ → ℕ} {s t : σ} {actions : List α}

/-- No step lowers the rank. -/
def Advances (step : σ → α → Option σ) (rank : σ → ℕ) : Prop := ∀ s a s', step s a = some s' → rank s ≤ rank s'

namespace Advances

/-- A run does not lower the rank. -/
theorem run_le (h : Advances step rank) (hrun : run step s actions = some t) : rank s ≤ rank t := by
  induction actions generalizing s with
  | nil => exact Nat.le_of_eq (congrArg rank (Option.some.inj hrun))
  | cons a rest ih =>
    obtain ⟨s', hfirst, hrest⟩ := run_cons_eq_some.mp hrun
    exact Nat.le_trans (h s a s' hfirst) (ih hrest)

/-- Each action of a run is a step between the ranks of its ends. -/
theorem mem_run (h : Advances step rank) (hrun : run step s actions = some t) {a : α} (hmem : a ∈ actions) :
    ∃ u u', step u a = some u' ∧ rank s ≤ rank u ∧ rank u' ≤ rank t := by
  obtain ⟨before, after, rfl⟩ := List.append_of_mem hmem
  obtain ⟨u, hbefore, hafter⟩ := run_append_eq_some.mp hrun
  obtain ⟨u', hstep, hrest⟩ := run_cons_eq_some.mp hafter
  exact ⟨u, u', hstep, h.run_le hbefore, h.run_le hrest⟩

/-- Actions that carry the rank over a threshold are not taken above it. -/
theorem countP_eq_zero (h : Advances step rank) {threshold : ℕ} {p : α → Bool}
    (hcross : ∀ s a s', p a = true → step s a = some s' → rank s < threshold)
    (hrun : run step s actions = some t) (hs : threshold ≤ rank s) : actions.countP p = 0 := by
  rw [List.countP_eq_zero]
  intro a hmem hp
  obtain ⟨u, u', hstep, hle, -⟩ := h.mem_run hrun hmem
  exact absurd (hcross u a u' hp hstep) (Nat.not_lt.mpr (Nat.le_trans hs hle))

/-- Actions that carry the rank over a threshold are taken at most once. -/
theorem countP_le_one (h : Advances step rank) (threshold : ℕ) {p : α → Bool}
    (hcross : ∀ s a s', p a = true → step s a = some s' → rank s < threshold ∧ threshold ≤ rank s')
    (hrun : run step s actions = some t) : actions.countP p ≤ 1 := by
  induction actions generalizing s with
  | nil => exact Nat.zero_le 1
  | cons a rest ih =>
    obtain ⟨s', hfirst, hrest⟩ := run_cons_eq_some.mp hrun
    by_cases hp : p a = true
    · have hzero := h.countP_eq_zero (fun s a s' hp hstep => (hcross s a s' hp hstep).1) hrest
        (hcross s a s' hp hfirst).2
      have hone : (a :: rest).countP p = 1 := by rw [List.countP_cons_of_pos hp, hzero]
      exact Nat.le_of_eq hone
    · rw [List.countP_cons_of_neg hp]
      exact ih hrest

end Advances

/-- A run that ends above a threshold it starts below has a step that crosses it. -/
theorem exists_crossing (rank : σ → ℕ) (threshold : ℕ) (hrun : run step s actions = some t)
    (hs : rank s < threshold)
    (ht : threshold ≤ rank t) :
    ∃ a ∈ actions, ∃ u u', step u a = some u' ∧ rank u < threshold ∧ threshold ≤ rank u' := by
  induction actions generalizing s with
  | nil =>
    obtain rfl := Option.some.inj hrun
    exact absurd hs (Nat.not_lt.mpr ht)
  | cons a rest ih =>
    obtain ⟨s', hfirst, hrest⟩ := run_cons_eq_some.mp hrun
    by_cases hs' : rank s' < threshold
    · obtain ⟨b, hmem, hb⟩ := ih hrest hs'
      exact ⟨b, List.mem_cons_of_mem a hmem, hb⟩
    · exact ⟨a, List.mem_cons_self, s, s', hfirst, hs, Nat.not_lt.mp hs'⟩

end WebServer.Foundation
