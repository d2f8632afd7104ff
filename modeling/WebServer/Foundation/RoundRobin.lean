import Mathlib.Data.Int.CardIntervalMod
import Mathlib.Data.List.Count
import Mathlib.Tactic.Common

/-!
# Round robin over a list

A walk through a list which starts over at its end, and how often it passes each of the
elements. The walk may begin anywhere in the list, so the counts hold in particular for
every section of a longer walk.
-/

namespace WebServer.Foundation

variable {α : Type*}

/-- The elements passed by `k` steps from a position on; at the end of the list the walk starts over. -/
def rotation (items : List α) (start k : ℕ) : List α :=
  (List.range' start k).filterMap fun position => items[position % items.length]?

/-- No element occurs two times more often than another one. -/
def Balanced [DecidableEq α] (items passed : List α) : Prop :=
  ∀ a ∈ items, ∀ b ∈ items, passed.count a ≤ passed.count b + 1

/-- The first step of a walk. -/
theorem rotation_succ {items : List α} {start : ℕ} {a : α} (h : items[start % items.length]? = some a) (k : ℕ) :
    rotation items start (k + 1) = a :: rotation items (start + 1) k := by
  rw [rotation, List.range'_succ, List.filterMap_cons, h]
  rfl

/-- A walk by the numbers of its steps. -/
theorem rotation_eq_filterMap (items : List α) (start k : ℕ) :
    rotation items start k = (List.range k).filterMap fun j => items[(start + j) % items.length]? := by
  rw [rotation, List.range'_eq_map_range, List.filterMap_map]
  rfl

/-- Only the place in the list matters for a walk. -/
theorem rotation_mod (items : List α) (start k : ℕ) :
    rotation items (start % items.length) k = rotation items start k := by
  simp only [rotation_eq_filterMap, Nat.mod_add_mod]

/-- A section of a walk is a walk. -/
theorem exists_rotation_of_infix {items passed : List α} {start k : ℕ} (h : passed <:+: rotation items start k) :
    ∃ first count, passed = rotation items first count := by
  obtain ⟨before, after, hsplit⟩ := h
  obtain ⟨positions, _, hall, hpositions, -⟩ := List.filterMap_eq_append_iff.mp hsplit.symm
  obtain ⟨m, -, rfl, -⟩ := List.range'_eq_append_iff.mp hall
  obtain ⟨_, positions', hfirst, -, rfl⟩ := List.filterMap_eq_append_iff.mp hpositions
  obtain ⟨n, -, -, rfl⟩ := List.range'_eq_append_iff.mp hfirst
  exact ⟨start + n * 1, m - n, rfl⟩

/-- A walk is at a certain place of the list after the numbers of steps of one residue class. -/
theorem place_eq_iff {n start i j : ℕ} (hi : i < n) :
    (start + j) % n = i ↔ j ≡ i + (n - start % n) [MOD n] := by
  have hstart : start % n < n := Nat.mod_lt start (by omega)
  have hplace : start + (i + (n - start % n)) ≡ i [MOD n] := by
    have hsum : start + (i + (n - start % n)) = i + n * (start / n + 1) := by
      have hdiv := Nat.mod_add_div start n
      rw [Nat.mul_add, Nat.mul_one]
      omega
    rw [hsum]
    exact Nat.add_mul_mod_self_left i n _
  constructor
  · intro h
    have hsame : start + j ≡ i [MOD n] := h.trans (Nat.mod_eq_of_lt hi).symm
    exact Nat.ModEq.add_left_cancel' start (hsame.trans hplace.symm)
  · intro h
    have hsame : (start + j) % n = i % n := (h.add_left start).trans hplace
    rw [hsame, Nat.mod_eq_of_lt hi]

/-- Each element is passed once in every full round, and at most once in the round that is not full. -/
theorem count_rotation [DecidableEq α] {items : List α} (hnodup : items.Nodup) {a : α} (ha : a ∈ items)
    (start k : ℕ) : k / items.length ≤ (rotation items start k).count a ∧
      (rotation items start k).count a ≤ k / items.length + 1 := by
  obtain ⟨i, hi⟩ := List.mem_iff_getElem?.mp ha
  have hlt : i < items.length := (List.getElem?_eq_some_iff.mp hi).1
  have hcount : (rotation items start k).count a =
      k.count (· ≡ i + (items.length - start % items.length) [MOD items.length]) := by
    rw [rotation_eq_filterMap, List.count_filterMap, Nat.count]
    refine List.countP_congr fun j _ => ?_
    rw [decide_eq_true_iff, ← place_eq_iff hlt, beq_iff_eq, ← hi]
    exact eq_comm.trans ((List.getElem?_inj hlt hnodup).trans eq_comm)
  rw [hcount, Nat.count_modEq_card _ (by omega)]
  split <;> omega

/-- Over any number of steps the elements are passed equally often, up to one time. -/
theorem rotation_balanced [DecidableEq α] {items : List α} (hnodup : items.Nodup) (start k : ℕ) :
    Balanced items (rotation items start k) := by
  intro a ha b hb
  calc (rotation items start k).count a ≤ k / items.length + 1 := (count_rotation hnodup ha start k).2
    _ ≤ (rotation items start k).count b + 1 := Nat.add_le_add_right (count_rotation hnodup hb start k).1 1

end WebServer.Foundation
