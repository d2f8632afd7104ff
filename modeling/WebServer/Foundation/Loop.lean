import Mathlib.Tactic.Common

/-!
# Loops

A loop is given by its body, which goes on with another state, leaves the loop with a result, or
does something that is undefined. `loop` executes the body at most a given number of times. The
first rule shows that a loop ends, by a measure that every execution of the body decreases; the
second one draws a conclusion from the fact that it has ended.
-/

namespace WebServer.Foundation

variable {σ β : Type*}

/-- What one execution of the body of a loop leads to. -/
inductive Turn (σ β : Type*) where
  | again (state : σ)
  | done (result : β)

/-- Execute the body until it leaves the loop, at most as often as the first argument says. -/
def loop (body : σ → Option (Turn σ β)) : ℕ → σ → Option β
  | 0, _ => none
  | fuel + 1, s =>
    match body s with
    | none => none
    | some (.again s') => loop body fuel s'
    | some (.done result) => some result

/-- The loop goes on with the next state. -/
theorem loop_of_again {body : σ → Option (Turn σ β)} {s s' : σ} (h : body s = some (.again s')) (fuel : ℕ) :
    loop body (fuel + 1) s = loop body fuel s' := by
  rw [loop, h]

/-- The body leaves the loop. -/
theorem loop_of_done {body : σ → Option (Turn σ β)} {s : σ} {result : β} (h : body s = some (.done result))
    (fuel : ℕ) :
    loop body (fuel + 1) s = some result := by
  rw [loop, h]

/-- A loop ends when every execution of its body keeps the invariant and makes the measure smaller,
or leaves the loop with a result as it should be. -/
theorem loop_ends {body : σ → Option (Turn σ β)} {I : σ → Prop} {post : β → Prop} (measure : σ → ℕ)
    (hbody : ∀ s, I s → (∃ s', body s = some (.again s') ∧ I s' ∧ measure s' < measure s) ∨
      ∃ result, body s = some (.done result) ∧ post result)
    {s : σ} (hs : I s) {fuel : ℕ} (hfuel : measure s < fuel) :
      ∃ result, loop body fuel s = some result ∧ post result := by
  induction fuel generalizing s with
  | zero => exact absurd hfuel (Nat.not_lt_zero _)
  | succ fuel ih =>
    obtain ⟨s', hagain, hs', hless⟩ | ⟨result, hdone, hpost⟩ := hbody s hs
    · rw [loop_of_again hagain]
      exact ih hs' (Nat.lt_of_lt_of_le hless (Nat.le_of_lt_succ hfuel))
    · exact ⟨result, loop_of_done hdone fuel, hpost⟩

/-- A loop that has ended kept the invariant up to the execution of the body which left it. -/
theorem loop_ended {body : σ → Option (Turn σ β)} {I : σ → Prop} {post : β → Prop}
    (hagain : ∀ s s', I s → body s = some (.again s') → I s')
    (hdone : ∀ s result, I s → body s = some (.done result) → post result)
    {s : σ} (hs : I s) {fuel : ℕ} {result : β} (h : loop body fuel s = some result) : post result := by
  induction fuel generalizing s with
  | zero => cases h
  | succ fuel ih =>
    rw [loop] at h
    split at h
    · cases h
    · next s' hturn => exact ih (hagain s s' hs hturn) h
    · next hturn => exact hdone s result hs (Option.some.inj h ▸ hturn)

end WebServer.Foundation
