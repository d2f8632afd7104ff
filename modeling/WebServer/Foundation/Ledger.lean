import WebServer.Foundation.Run
import Mathlib.Data.List.Flatten

/-!
# Accounting for what a run was offered

Each action offers some items to the system, and each state holds some items. When a step
either appends everything it was offered to what is held, or drops a nonempty offer and
holds what it held before, the final holding equals the whole offer exactly for the runs
that never drop. One drop cannot be made up for later, because the holding only grows by
what is offered. The account may be kept under a condition on the steps, which a run is then
required to meet.
-/

namespace WebServer.Foundation

variable {σ α β : Type*}

/-- The rules of an account: what is held, what an action offers, which steps are admitted, and when an offer
is kept. -/
structure Ledger (step : σ → α → Option σ) (β : Type*) where
  held : σ → List β
  offered : α → List β
  admits : σ → α → Prop
  keeps : σ → α → Prop
  invariant : σ → Prop
  invariant_step : ∀ s a s', invariant s → admits s a → step s a = some s' → invariant s'
  held_of_keeps : ∀ s a s', invariant s → admits s a → step s a = some s' → keeps s a →
    held s' = held s ++ offered a
  held_of_drops : ∀ s a s', invariant s → admits s a → step s a = some s' → ¬ keeps s a →
    held s' = held s ∧ offered a ≠ []

/-- All items offered by a list of actions, in order. -/
def Ledger.offers {step : σ → α → Option σ} (L : Ledger step β) (acts : List α) : List β :=
  acts.flatMap L.offered

/-- The first action's offer comes first. -/
theorem Ledger.offers_cons {step : σ → α → Option σ} (L : Ledger step β) (a : α) (rest : List α) :
    L.offers (a :: rest) = L.offered a ++ L.offers rest := List.flatMap_cons

/-- A run never holds more than it started with and was offered. -/
theorem Ledger.length_held_le {step : σ → α → Option σ} (L : Ledger step β) {s t : σ} {acts : List α}
    (hs : L.invariant s) (hadmits : Meets step L.admits s acts) (hrun : run step s acts = some t) :
    (L.held t).length ≤ (L.held s).length + (L.offers acts).length := by
  induction acts generalizing s with
  | nil =>
    obtain rfl := Option.some.inj hrun
    exact Nat.le_add_right _ _
  | cons a rest ih =>
    obtain ⟨s', hfirst, hrest⟩ := run_cons_eq_some.mp hrun
    have hlater := ih (L.invariant_step s a s' hs hadmits.head hfirst) (hadmits.tail hfirst) hrest
    have hnow : (L.held s').length ≤ (L.held s).length + (L.offered a).length := by
      by_cases hk : L.keeps s a
      · have hgrow := congrArg List.length (L.held_of_keeps s a s' hs hadmits.head hfirst hk)
        rw [List.length_append] at hgrow
        omega
      · rw [(L.held_of_drops s a s' hs hadmits.head hfirst hk).1]
        exact Nat.le_add_right _ _
    rw [L.offers_cons, List.length_append]
    omega

/-- The final holding is the whole offer exactly when no step of the run drops its offer. -/
theorem Ledger.held_eq_iff {step : σ → α → Option σ} (L : Ledger step β) {s t : σ} {acts : List α}
    (hs : L.invariant s) (hadmits : Meets step L.admits s acts) (hrun : run step s acts = some t) :
    L.held t = L.held s ++ L.offers acts ↔ Meets step L.keeps s acts := by
  induction acts generalizing s with
  | nil =>
    obtain rfl := Option.some.inj hrun
    simp [Ledger.offers, Meets]
  | cons a rest ih =>
    obtain ⟨s', hfirst, hrest⟩ := run_cons_eq_some.mp hrun
    have hs' := L.invariant_step s a s' hs hadmits.head hfirst
    have hadmits' := hadmits.tail hfirst
    by_cases hk : L.keeps s a
    · have hheld := L.held_of_keeps s a s' hs hadmits.head hfirst hk
      rw [L.offers_cons, ← List.append_assoc, ← hheld, ih hs' hadmits' hrest]
      exact ((meets_cons_of_step hfirst).trans (and_iff_right hk)).symm
    · obtain ⟨hsame, hoffer⟩ := L.held_of_drops s a s' hs hadmits.head hfirst hk
      have hshort := L.length_held_le hs' hadmits' hrest
      have hpos := List.length_pos_of_ne_nil hoffer
      refine ⟨fun h => ?_, fun h => absurd h.head hk⟩
      have hlen := congrArg List.length h
      rw [L.offers_cons, List.length_append, List.length_append] at hlen
      rw [hsame] at hshort
      omega

end WebServer.Foundation
