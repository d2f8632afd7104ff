import WebServer.Foundation.Block
import WebServer.Log.FixedBuffer

/-!
# `FixedBuffer` with its array

`RawFixedBuffer` holds the array `buf_` with all of its bytes and the position of `cur_` in it. A
length that is negative, one that is larger than the data it belongs to, and a pointer that leaves the
array are undefined. `content` forgets the bytes behind `cur_`, and `Append` then does what it does on
`FixedBuffer`.
-/

namespace WebServer.Log

open WebServer.Foundation
open WebServer.Util (Bytes)

/-- The length that `Append` copies when it is asked for another one. -/
def cutLength (room : ℕ) (length : ℤ) : ℤ := if room < length then room else length

/-- No more is copied than there is room for. -/
theorem cutLength_le (room : ℕ) (length : ℤ) : cutLength room length ≤ room := by
  rw [cutLength]
  split_ifs with hcut
  · exact Int.le_refl _
  · exact Int.not_lt.mp hcut

/-- The data members `buf_` and `cur_`. -/
structure RawFixedBuffer (size : ℕ) where
  buf : Block UInt8 size
  cur : ℕ
  within : cur ≤ size

namespace RawFixedBuffer

variable {size : ℕ}

/-- The constructor, over the indeterminate bytes of the array. -/
def new (buf : Block UInt8 size) : RawFixedBuffer size := ⟨buf, 0, Nat.zero_le _⟩

/-- `writablebytes()`. -/
def writablebytes (b : RawFixedBuffer size) : ℕ := size - b.cur

/-- `Add(length)`. -/
def add (b : RawFixedBuffer size) (length : ℕ) : Option (RawFixedBuffer size) :=
  if h : b.cur + length ≤ size then some { b with cur := b.cur + length, within := h } else none

/-- `Append(input_data, length)`, where only the given bytes can be read at `input_data`. -/
def append (b : RawFixedBuffer size) (inputData : Bytes) (length : ℤ) : Option (RawFixedBuffer size) :=
  let length := cutLength b.writablebytes length
  if 0 ≤ length ∧ length ≤ inputData.length then do
    let buf ← b.buf.write b.cur (inputData.take length.toNat)
    { b with buf }.add length.toNat
  else none

/-- The bytes in front of `cur_`. -/
def data (b : RawFixedBuffer size) : Bytes := b.buf.read 0 b.cur

/-- The filled part as a `FixedBuffer`. -/
def content (b : RawFixedBuffer size) : FixedBuffer size where
  data := b.data
  fits := (b.buf.length_read 0 b.within).trans_le ((Nat.sub_le _ _).trans b.within)

/-- A new buffer is empty. -/
@[simp] theorem content_new (buf : Block UInt8 size) : (new buf).content = .new := FixedBuffer.ext (buf.read_self 0)

/-- The filled part ends at `cur_`. -/
@[simp] theorem length_data (b : RawFixedBuffer size) : b.data.length = b.cur := b.buf.length_read 0 b.within

/-- The free bytes are those behind the filled part. -/
@[simp] theorem writablebytes_content (b : RawFixedBuffer size) : b.content.writablebytes = b.writablebytes := by
  rw [FixedBuffer.writablebytes, FixedBuffer.len, writablebytes]
  exact congrArg (size - ·) b.length_data

/-- Bytes that fit can be written at `cur_` and passed over, which appends them to the content. -/
theorem exists_write_add (b : RawFixedBuffer size) {data : Bytes} (h : data.length ≤ b.writablebytes) :
    ∃ buf b', b.buf.write b.cur data = some buf ∧ ({ b with buf } : RawFixedBuffer size).add data.length = some b' ∧
      b'.content.data = b.content.data ++ data := by
  have hbound : b.cur + data.length ≤ size := by
    have hwithin := b.within
    rw [writablebytes] at h
    omega
  obtain ⟨buf, hwrite⟩ := b.buf.exists_write hbound
  exact ⟨buf, _, hwrite, dif_pos hbound, Block.read_through_write hwrite (Nat.zero_le _)⟩

end RawFixedBuffer

namespace FixedBuffer

variable {size : ℕ}

/-- What `Append(input_data, length)` does to the content. -/
def appendSome (b : FixedBuffer size) (inputData : Bytes) (length : ℤ) : Option (FixedBuffer size) :=
  let length := cutLength b.writablebytes length
  if 0 ≤ length ∧ length ≤ inputData.length then some (b.append (inputData.take length.toNat)) else none

/-- A length that the data has is appended up to the space left. -/
theorem appendSome_of_readable (b : FixedBuffer size) {inputData : Bytes} {length : ℤ} (hnonneg : 0 ≤ length)
    (hlength : length ≤ inputData.length) :
    b.appendSome inputData length = some (b.append (inputData.take length.toNat)) := by
  by_cases hcut : b.writablebytes < length
  · have hroom : cutLength b.writablebytes length = b.writablebytes := if_pos hcut
    have hreadable : 0 ≤ (b.writablebytes : ℤ) ∧ b.writablebytes ≤ (inputData.length : ℤ) := by omega
    have htake : min b.writablebytes length.toNat = b.writablebytes := by omega
    simp only [appendSome, hroom, if_pos hreadable, Option.some.injEq]
    ext1
    rw [data_append_take, data_append_take, Int.toNat_natCast, List.take_take, List.take_take, Nat.min_self, htake]
  · have hall : cutLength b.writablebytes length = length := if_neg hcut
    simp only [appendSome, hall]
    exact if_pos ⟨hnonneg, hlength⟩

/-- A negative length is undefined. -/
theorem appendSome_of_neg (b : FixedBuffer size) (inputData : Bytes) {length : ℤ} (h : length < 0) :
    b.appendSome inputData length = none := by
  have hall : cutLength b.writablebytes length = length := if_neg (by omega)
  simp only [appendSome, hall]
  exact if_neg fun hreadable => absurd hreadable.1 (Int.not_le.mpr h)

end FixedBuffer

/-- `Append` on the array is `Append` on its content. -/
theorem RawFixedBuffer.content_append {size : ℕ} (b : RawFixedBuffer size) (inputData : Bytes) (length : ℤ) :
    (b.append inputData length).map content = b.content.appendSome inputData length := by
  rw [append, FixedBuffer.appendSome, writablebytes_content]
  split_ifs with hreadable
  · have hcut := cutLength_le b.writablebytes length
    have htake : (inputData.take (cutLength b.writablebytes length).toNat).length =
        (cutLength b.writablebytes length).toNat := by
      rw [List.length_take]
      omega
    have hfits : (inputData.take (cutLength b.writablebytes length).toNat).length ≤ b.writablebytes := by omega
    obtain ⟨buf, b', hwrite, hadd, hdata⟩ := b.exists_write_add hfits
    rw [htake] at hadd
    simp only [hwrite, Option.bind_eq_bind, Option.bind_some, hadd, Option.map_some, Option.some.injEq]
    ext1
    rw [hdata, FixedBuffer.data_append (hfits.trans_eq b.writablebytes_content.symm)]
  · rfl

end WebServer.Log
