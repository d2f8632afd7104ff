import Mathlib.Data.List.Nodup
import Mathlib.Logic.Function.Basic

/-!
# Objects that are held exactly once

A heap maps addresses to objects. `Holds` says that a list of references owns it: every live
object is referred to by exactly one element of the list, and every element of the list refers to a
live object. The rules say how the list changes when objects are made, changed or deleted.

What is found after a change is the new object or an old one, in a heap as well as in a list of
objects in the order of their construction.
-/

namespace WebServer.Foundation

variable {ι β : Type*}

/-- The references are the live objects, each once. -/
structure Holds (heap : ι → Option β) (held : List ι) : Prop where
  nodup : held.Nodup
  live : ∀ i, (heap i).isSome ↔ i ∈ held

namespace Holds

variable {heap : ι → Option β} {held held' : List ι}

/-- Nothing is held of an empty heap. -/
theorem empty : Holds (fun _ : ι => (none : Option β)) [] := ⟨.nil, fun i => by simp⟩

/-- References may be handed on. -/
theorem perm (h : Holds heap held) (hperm : held'.Perm held) : Holds heap held' :=
  ⟨hperm.nodup_iff.mpr h.nodup, fun i => (h.live i).trans hperm.mem_iff.symm⟩

/-- A reference leads to an object. -/
theorem exists_object (h : Holds heap held) {i : ι} (hmem : i ∈ held) : ∃ object, heap i = some object :=
  Option.isSome_iff_exists.mp ((h.live i).mpr hmem)

/-- Where there is no object there is no reference. -/
theorem notMem (h : Holds heap held) {i : ι} (hnone : heap i = none) : i ∉ held := fun hmem => by
  have hlive := (h.live i).mpr hmem
  rw [hnone] at hlive
  cases hlive

variable [DecidableEq ι]

/-- A new object comes with a reference to it. -/
theorem alloc (h : Holds heap held) {i : ι} (hfresh : heap i = none) (object : β) :
    Holds (Function.update heap i (some object)) (i :: held) where
  nodup := List.nodup_cons.mpr ⟨h.notMem hfresh, h.nodup⟩
  live j := by
    rcases eq_or_ne j i with rfl | hne
    · simp
    · rw [Function.update_of_ne hne, List.mem_cons, h.live j]
      simp [hne]

/-- Deleting an object gives its reference away. -/
theorem free {i : ι} (h : Holds heap (i :: held)) : Holds (Function.update heap i none) held where
  nodup := h.nodup.of_cons
  live j := by
    rcases eq_or_ne j i with rfl | hne
    · simpa using h.nodup.notMem
    · rw [Function.update_of_ne hne, h.live j, List.mem_cons]
      simp [hne]

/-- Changing an object keeps the reference to it. -/
theorem change (h : Holds heap held) {i : ι} (hmem : i ∈ held) (object : β) :
    Holds (Function.update heap i (some object)) held where
  nodup := h.nodup
  live j := by
    rcases eq_or_ne j i with rfl | hne
    · simpa using hmem
    · rw [Function.update_of_ne hne, h.live j]

end Holds

/-- What a heap holds after a change is the new object or an old one. -/
theorem update_eq_some [DecidableEq ι] {heap : ι → Option β} {i j : ι} {object : Option β} {found : β}
    (h : Function.update heap i object j = some found) : (j = i ∧ object = some found) ∨
      (j ≠ i ∧ heap j = some found) := by
  rcases eq_or_ne j i with rfl | hne
  · rw [Function.update_self] at h
    exact Or.inl ⟨rfl, h⟩
  · rw [Function.update_of_ne hne] at h
    exact Or.inr ⟨hne, h⟩

/-- An object of an updated list is the new one or an old one. -/
theorem getElem?_set_cases {objects : List β} {i j : ℕ} {object found : β}
    (h : (objects.set i object)[j]? = some found) :
    (j = i ∧ found = object) ∨ (j ≠ i ∧ objects[j]? = some found) := by
  rw [List.getElem?_set] at h
  split at h
  · next heq =>
    split at h
    · exact Or.inl ⟨heq.symm, (Option.some.inj h).symm⟩
    · cases h
  · next hne => exact Or.inr ⟨fun heq => hne heq.symm, h⟩

/-- An object of an extended list is an old one or the new one. -/
theorem getElem?_concat_cases {objects : List β} {j : ℕ} {object found : β}
    (h : (objects ++ [object])[j]? = some found) :
    (j < objects.length ∧ objects[j]? = some found) ∨ (j = objects.length ∧ found = object) := by
  rw [List.getElem?_append] at h
  split at h
  · next hlt => exact Or.inl ⟨hlt, h⟩
  · next hge =>
    obtain ⟨hlast, rfl⟩ := List.getElem?_eq_some_iff.mp h
    rw [List.length_singleton] at hlast
    exact Or.inr ⟨by omega, List.getElem_singleton _⟩

end WebServer.Foundation
