import WebServer.Util.Buffer

/-!
# `Buffer` as a queue of bytes

A `Buffer` is a `RawBuffer` whose indices are in order. Its content is the list of readable
bytes; the operations append at the end, remove from the front and search for a line end.
The layers above use only the equations on `bytes`, never the indices.
-/

namespace WebServer.Util

open WebServer.Foundation

/-- A buffer whose indices are in order. -/
structure Buffer where
  raw : RawBuffer
  sound : raw.Sound
deriving DecidableEq

namespace Buffer

/-- The constructor. -/
def new : Buffer := ⟨.new, RawBuffer.sound_new⟩

/-- The readable bytes. -/
def bytes (b : Buffer) : Bytes := b.raw.peekAllAsString

/-- `readable()`. -/
def readable (b : Buffer) : ℕ := b.raw.readable

/-- `Append(message)`. -/
def append (b : Buffer) (message : Bytes) : Buffer := ⟨b.raw.append message, b.sound.append message⟩

/-- `Retrieve(len)`. -/
def retrieve (b : Buffer) (len : ℕ) : Buffer := ⟨b.raw.retrieve len, b.sound.retrieve len⟩

/-- `RetrieveAll()`. -/
def retrieveAll (b : Buffer) : Buffer := ⟨b.raw.retrieveAll, b.sound.retrieveAll⟩

/-- `ReadFd(fd)` when `readv` delivers the given bytes. -/
def readFd (b : Buffer) (data : Bytes) : Buffer := ⟨b.raw.readFd data, (b.sound.readFd data).1⟩

/-- The list of readable bytes has `readable()` elements. -/
theorem length_bytes (b : Buffer) : b.bytes.length = b.readable := b.sound.length_peekAllAsString

/-- `RetrieveUntilIndex(index)` for an index between the read and the write position. -/
def retrieveUntilIndex (b : Buffer) (offset : ℕ) (h : offset ≤ b.readable) : Buffer :=
  ⟨b.raw.retrieveUntilIndex offset, b.sound.retrieveUntilIndex h⟩

/-- A line end found in the readable bytes lies inside them. -/
theorem crlf_inside {b : Buffer} {offset : ℕ} (h : searchIdx crlf b.bytes = some offset) :
    offset + 2 ≤ b.readable := b.length_bytes ▸ (searchIdx_bound h).2

/-- `FindCRLF()`: the offset of the first line end, which lies inside the readable bytes. -/
def findCRLF (b : Buffer) : Option {offset : ℕ // offset + 2 ≤ b.readable} :=
  match h : searchIdx crlf b.bytes with
  | some offset => some ⟨offset, crlf_inside h⟩
  | none => none

/-- A new buffer is empty. -/
@[simp] theorem bytes_new : new.bytes = [] := window_self _ _

/-- `Append` adds at the end. -/
@[simp] theorem bytes_append (b : Buffer) (message : Bytes) :
    (b.append message).bytes = b.bytes ++ message := b.sound.peekAllAsString_append message

/-- `Retrieve` removes from the front. -/
@[simp] theorem bytes_retrieve (b : Buffer) (len : ℕ) : (b.retrieve len).bytes = b.bytes.drop len :=
  b.sound.peekAllAsString_retrieve len

/-- `RetrieveAll` empties the queue. -/
@[simp] theorem bytes_retrieveAll (b : Buffer) : b.retrieveAll.bytes = [] :=
  RawBuffer.peekAllAsString_retrieveAll b.raw

/-- `ReadFd` adds what was read at the end. -/
@[simp] theorem bytes_readFd (b : Buffer) (data : Bytes) : (b.readFd data).bytes = b.bytes ++ data :=
  (b.sound.readFd data).2

/-- `RetrieveUntilIndex` removes the bytes before the index. -/
@[simp] theorem bytes_retrieveUntilIndex (b : Buffer) (offset : ℕ) (h : offset ≤ b.readable) :
    (b.retrieveUntilIndex offset h).bytes = b.bytes.drop offset :=
  RawBuffer.peekAllAsString_retrieveUntilIndex b.raw offset

/-- The buffer is empty exactly when `readable()` is zero. -/
theorem readable_eq_zero {b : Buffer} : b.readable = 0 ↔ b.bytes = [] := by
  rw [← length_bytes, List.length_eq_zero_iff]

/-- Without a line end `FindCRLF` answers with the null pointer. -/
theorem findCRLF_eq_none {b : Buffer} (h : searchIdx crlf b.bytes = none) : b.findCRLF = none := by
  unfold findCRLF
  split
  · next offset hsome => exact absurd (h.symm.trans hsome) (by simp)
  · rfl

/-- With a line end `FindCRLF` answers with the first one. -/
theorem findCRLF_eq_some {b : Buffer} {offset : ℕ} (h : searchIdx crlf b.bytes = some offset) :
    b.findCRLF = some ⟨offset, crlf_inside h⟩ := by
  unfold findCRLF
  split
  · next found hsome =>
    obtain rfl : found = offset := Option.some.inj (hsome.symm.trans h)
    rfl
  · next hnone => exact absurd (hnone.symm.trans h) (by simp)

end Buffer

end WebServer.Util
