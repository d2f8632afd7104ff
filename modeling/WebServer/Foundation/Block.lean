import Mathlib.Order.Nat
import WebServer.Foundation.Window

/-!
# Memory blocks of a fixed size

A `Block` is an array with as many cells as its type says. Writing outside of it is undefined. A
write that succeeds can be read back and leaves the cells in front of it alone.
-/

namespace WebServer.Foundation

variable {α : Type*} {size : ℕ}

/-- An array of the given size. -/
structure Block (α : Type*) (size : ℕ) where
  cells : List α
  sized : cells.length = size

namespace Block

/-- The content of the range `[first, last)`. -/
def read (block : Block α size) (first last : ℕ) : List α := window block.cells first last

/-- Copy the data to the given position, if it stays inside the array. -/
def write (block : Block α size) (start : ℕ) (data : List α) : Option (Block α size) :=
  if h : start + data.length ≤ size then
    some ⟨overwrite block.cells start data, (length_overwrite (h.trans_eq block.sized.symm)).trans block.sized⟩
  else none

/-- A write inside of the array succeeds. -/
theorem exists_write (block : Block α size) {start : ℕ} {data : List α} (h : start + data.length ≤ size) :
    ∃ block', block.write start data = some block' :=
  ⟨_, dif_pos h⟩

/-- A write outside of the array is undefined. -/
theorem write_eq_none (block : Block α size) {start : ℕ} {data : List α} (h : ¬ start + data.length ≤ size) :
    block.write start data = none :=
  dif_neg h

/-- A range inside the array has the length its bounds say. -/
theorem length_read (block : Block α size) (first : ℕ) {last : ℕ} (h : last ≤ size) :
    (block.read first last).length = last - first :=
  length_window (h.trans_eq block.sized.symm)

/-- An empty range has no content. -/
@[simp] theorem read_self (block : Block α size) (first : ℕ) : block.read first first = [] := window_self _ _

/-- Adjacent ranges concatenate. -/
theorem read_concat (block : Block α size) {first mid last : ℕ} (hfirst : first ≤ mid) (hlast : mid ≤ last) :
    block.read first last = block.read first mid ++ block.read mid last :=
  window_concat _ hfirst hlast

variable {block block' : Block α size} {start : ℕ} {data : List α}

/-- A write that succeeds stays inside the array. -/
theorem bound_of_write (h : block.write start data = some block') : start + data.length ≤ size := by
  by_contra hout
  rw [write_eq_none _ hout] at h
  cases h

/-- What was written is read back. -/
theorem read_of_write (h : block.write start data = some block') :
    block'.read start (start + data.length) = data := by
  have hbound := bound_of_write h
  rw [write, dif_pos hbound] at h
  obtain rfl := Option.some.inj h
  exact window_overwrite ((Nat.le_add_right _ _).trans (hbound.trans_eq block.sized.symm))

/-- A range that ends before the written data keeps its content. -/
theorem read_before_write (h : block.write start data = some block') {first last : ℕ} (hlast : last ≤ start) :
    block'.read first last = block.read first last := by
  have hbound := bound_of_write h
  rw [write, dif_pos hbound] at h
  obtain rfl := Option.some.inj h
  exact window_overwrite_before hlast ((Nat.le_add_right _ _).trans (hbound.trans_eq block.sized.symm))

/-- A range that starts behind the written data keeps its content. -/
theorem read_behind_write (h : block.write start data = some block') {first : ℕ}
    (hfirst : start + data.length ≤ first)
    (last : ℕ) : block'.read first last = block.read first last := by
  have hbound := bound_of_write h
  rw [write, dif_pos hbound] at h
  obtain rfl := Option.some.inj h
  exact window_overwrite_behind hfirst ((Nat.le_add_right _ _).trans (hbound.trans_eq block.sized.symm)) last

/-- A write directly behind a range extends it. -/
theorem read_through_write (h : block.write start data = some block') {first : ℕ} (hfirst : first ≤ start) :
    block'.read first (start + data.length) = block.read first start ++ data := by
  rw [read_concat block' hfirst (Nat.le_add_right _ _), read_before_write h le_rfl, read_of_write h]

end Block

end WebServer.Foundation
