import Mathlib.Data.List.Basic
import Mathlib.Data.List.TakeDrop
import Mathlib.Tactic.Common

/-!
# Half-open ranges of a memory block

`window mem first last` is the content of the range `[first, last)`, and `overwrite` copies
a block of data over the memory at a position. A range that ends before the data is not
changed by the copy, and the range the data was copied to reads the data back.
-/

namespace WebServer.Foundation

variable {α : Type*}

/-- The content of the range `[first, last)`. -/
def window (mem : List α) (first last : ℕ) : List α := (mem.drop first).take (last - first)

/-- Copy the data over the memory from the given position on. -/
def overwrite (mem : List α) (start : ℕ) (data : List α) : List α :=
  mem.take start ++ data ++ mem.drop (start + data.length)

/-- A range inside the memory has the length its bounds say. -/
theorem length_window {mem : List α} {first last : ℕ} (h : last ≤ mem.length) :
    (window mem first last).length = last - first := by
  rw [window, List.length_take, List.length_drop]
  omega

/-- An empty range has no content. -/
@[simp] theorem window_self (mem : List α) (first : ℕ) : window mem first first = [] := by
  simp [window]

/-- Adjacent ranges concatenate. -/
theorem window_concat (mem : List α) {first mid last : ℕ} (hfirst : first ≤ mid) (hlast : mid ≤ last) :
    window mem first last = window mem first mid ++ window mem mid last := by
  have hlen : last - first = (mid - first) + (last - mid) := by omega
  rw [window, hlen, List.take_add, List.drop_drop, Nat.add_sub_cancel' hfirst]
  rfl

/-- Advancing the start of a range drops the elements passed over. -/
theorem window_advance (mem : List α) (first count last : ℕ) :
    window mem (first + count) last = (window mem first last).drop count := by
  rw [window, window, List.drop_take, List.drop_drop, Nat.sub_sub]

/-- Memory added at the end does not change a range that fits before it. -/
theorem window_append {mem : List α} {last : ℕ} (more : List α) (first : ℕ) (h : last ≤ mem.length) :
    window (mem ++ more) first last = window mem first last := by
  by_cases hfirst : first ≤ mem.length
  · rw [window, List.drop_append_of_le_length hfirst, List.take_append_of_le_length]
    · rfl
    · rw [List.length_drop]
      omega
  · have hempty : last - first = 0 := by omega
    simp [window, hempty]

/-- A range that was concatenated between two others reads back. -/
theorem window_middle {mem before field rest : List α} {first last : ℕ} (hmem : mem = before ++ (field ++ rest))
    (hfirst : first = before.length) (hlast : last = first + field.length) : window mem first last = field := by
  subst hmem hfirst hlast
  rw [window, List.drop_left, Nat.add_sub_cancel_left, List.take_left]

/-- A copy that fits does not change the size of the memory. -/
theorem length_overwrite {mem data : List α} {start : ℕ} (h : start + data.length ≤ mem.length) :
    (overwrite mem start data).length = mem.length := by
  simp only [overwrite, List.length_append, List.length_take, List.length_drop]
  omega

/-- The range the data was copied to reads the data back. -/
theorem window_overwrite {mem data : List α} {start : ℕ} (h : start ≤ mem.length) :
    window (overwrite mem start data) start (start + data.length) = data := by
  have hstart : (mem.take start).length = start := by rw [List.length_take]; omega
  rw [window, overwrite, List.append_assoc, List.drop_append, hstart, Nat.sub_self, List.drop_zero,
    List.drop_of_length_le (by omega), List.nil_append, Nat.add_sub_cancel_left, List.take_left]

/-- A range that ends before the copied data keeps its content. -/
theorem window_overwrite_before {mem data : List α} {first last start : ℕ} (hlast : last ≤ start)
    (hstart : start ≤ mem.length) :
    window (overwrite mem start data) first last = window mem first last := by
  have htake : last ≤ (mem.take start).length := by rw [List.length_take]; omega
  have hsame := window_append (mem.drop start) first htake
  rw [List.take_append_drop] at hsame
  rw [overwrite, List.append_assoc, window_append _ first htake, hsame]

/-- A range that starts behind the copied data keeps its content. -/
theorem window_overwrite_behind {mem data : List α} {first start : ℕ} (hfirst : start + data.length ≤ first)
    (hstart : start ≤ mem.length) (last : ℕ) : window (overwrite mem start data) first last =
      window mem first last := by
  have hfront : (mem.take start ++ data).length = start + data.length := by
    rw [List.length_append, List.length_take, Nat.min_eq_left hstart]
  have hdrop : (overwrite mem start data).drop first = mem.drop first := by
    rw [overwrite, List.drop_append, hfront, List.drop_of_length_le (hfront ▸ hfirst), List.nil_append,
      List.drop_drop, Nat.add_sub_cancel' hfirst]
  rw [window, hdrop, window]

end WebServer.Foundation
