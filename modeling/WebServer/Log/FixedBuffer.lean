import WebServer.Util.Buffer

/-!
# The fixed-size log buffers

`FixedBuffer<SIZE>` is represented by the bytes between `buf_` and `cur_`, which never
exceed the size of the array. What stands behind `cur_` is not part of the content.
-/

namespace WebServer.Log

open WebServer.Util (Bytes)

/-- `kSmallSize`: the size of a `LogStream` buffer, and so of the longest record. -/
def smallSize : ℕ := 4096

/-- `kLargeSize`: the size of an `AsyncLogging` buffer. -/
def largeSize : ℕ := 4096 * 1000

/-- The filled part of a `FixedBuffer<size>`. -/
@[ext] structure FixedBuffer (size : ℕ) where
  data : Bytes
  fits : data.length ≤ size
deriving DecidableEq

namespace FixedBuffer

variable {size : ℕ}

/-- The constructor. -/
def new : FixedBuffer size := ⟨[], Nat.zero_le _⟩

/-- `len()`. -/
def len (b : FixedBuffer size) : ℕ := b.data.length

/-- `writablebytes()`. -/
def writablebytes (b : FixedBuffer size) : ℕ := size - b.len

/-- `Append(input_data, length)`, which cuts the input to the space left. -/
def append (b : FixedBuffer size) (input : Bytes) : FixedBuffer size where
  data := b.data ++ input.take (if b.writablebytes < input.length then b.writablebytes else input.length)
  fits := by
    have hfits := b.fits
    rw [List.length_append, List.length_take]
    split_ifs with hcut
    · simp only [writablebytes, len]
      omega
    · simp only [writablebytes, len] at hcut
      omega

/-- `SetBufferZero()`. -/
def setBufferZero (_ : FixedBuffer size) : FixedBuffer size := new

/-- A new buffer is empty. -/
@[simp] theorem data_new : (new : FixedBuffer size).data = [] := rfl

/-- A cleared buffer is empty. -/
@[simp] theorem data_setBufferZero (b : FixedBuffer size) : b.setBufferZero.data = [] := rfl

/-- Input that fits is appended in full. -/
theorem data_append {b : FixedBuffer size} {input : Bytes} (h : input.length ≤ b.writablebytes) :
    (b.append input).data = b.data ++ input := by
  change b.data ++ input.take (if b.writablebytes < input.length then b.writablebytes else input.length) = _
  rw [if_neg (by omega), List.take_length]

/-- Input is appended up to the space left. -/
theorem data_append_take (b : FixedBuffer size) (input : Bytes) :
    (b.append input).data = b.data ++ input.take b.writablebytes := by
  change b.data ++ input.take (if b.writablebytes < input.length then b.writablebytes else input.length) = _
  split_ifs with hcut
  · rfl
  · rw [List.take_length, List.take_of_length_le (Nat.not_lt.mp hcut)]

/-- The space left after appending. -/
theorem writablebytes_append (b : FixedBuffer size) (input : Bytes) :
    (b.append input).writablebytes = b.writablebytes - input.length := by
  rw [writablebytes, len, data_append_take, List.length_append, List.length_take, writablebytes, len]
  omega

/-- Appending in parts cuts at the same place as appending at once. -/
theorem append_append (b : FixedBuffer size) (first second : Bytes) :
    (b.append first).append second = b.append (first ++ second) := by
  ext1
  rw [data_append_take, data_append_take, data_append_take, writablebytes_append, List.append_assoc,
    List.take_append]

/-- Nothing is added to a full buffer. -/
theorem append_of_full {b : FixedBuffer size} (h : b.writablebytes = 0) (input : Bytes) : b.append input = b := by
  ext1
  rw [data_append_take, h, List.take_zero, List.append_nil]

/-- The filled and the free part make up the whole array. -/
theorem len_add_writablebytes (b : FixedBuffer size) : b.len + b.writablebytes = size :=
  Nat.add_sub_cancel' b.fits

end FixedBuffer

end WebServer.Log
