import Mathlib.Tactic.Common

/-!
# Sequencing of computations that may fail

Inversion of `>>=` in `Except`, so that a computation written with `do` is taken apart one
binding at a time, without unfolding the monad.
-/

namespace WebServer.Foundation

universe u

variable {ε : Type*} {α β : Type u}

/-- A sequence succeeds exactly when both of its parts do. -/
theorem except_bind_eq_ok {x : Except ε α} {f : α → Except ε β} {b : β} :
    (x >>= f) = .ok b ↔ ∃ a, x = .ok a ∧ f a = .ok b := by
  cases x with
  | error e =>
    constructor
    · intro h
      cases h
    · rintro ⟨a, ha, -⟩
      cases ha
  | ok a =>
    constructor
    · intro h
      exact ⟨a, rfl, h⟩
    · rintro ⟨a', ha', h⟩
      cases ha'
      exact h

end WebServer.Foundation
