import WebServer.Foundation.Search
import WebServer.Foundation.Window

/-!
# The read and write indices of `Buffer`

`RawBuffer` holds the vector and the two indices of `Buffer` and each operation moves them
as the code does. Pointers into the vector are offsets from `Peek()`. The code keeps the
indices in `int`; they are natural numbers here, so the model speaks about buffers whose
total size stays below `2^31`: the input buffer of a connection, and the buffer to which a
response is written. The output buffer, in which any amount may pile up, is an `IntBuffer`.

`Buffer` is the same record together with the order of the indices, which every operation
preserves. Its `bytes` are the readable bytes, and each operation acts on them as the
corresponding operation on a byte queue.
-/

namespace WebServer.Util

open WebServer.Foundation

/-- The bytes of a `char` range. -/
abbrev Bytes := List UInt8

/-- The bytes of a string literal. -/
def ascii (text : String) : Bytes := text.toList.map fun c => UInt8.ofNat c.toNat

/-- `pre_index_`: the bytes kept free in front of the readable range. -/
def preIndex : ℕ := 8

/-- `kInitialSize`. -/
def initialSize : ℕ := 1024

/-- The size of the stack area `extrabuf` in `Buffer::ReadFd`. -/
def extraSize : ℕ := 65536

/-- `kCRLF`. -/
def crlf : Bytes := [13, 10]

/-- The data members of `Buffer`. -/
structure RawBuffer where
  buffer : Bytes
  readIndex : ℕ
  writeIndex : ℕ
deriving DecidableEq

namespace RawBuffer

/-- The constructor: a zeroed vector with both indices behind the reserved prefix. -/
def new : RawBuffer := ⟨List.replicate initialSize 0, preIndex, preIndex⟩

/-- `readable()`. -/
def readable (b : RawBuffer) : ℕ := b.writeIndex - b.readIndex

/-- `writeable()`. -/
def writeable (b : RawBuffer) : ℕ := b.buffer.length - b.writeIndex

/-- `preable()`. -/
def preable (b : RawBuffer) : ℕ := b.readIndex

/-- `PeekAllAsString()`. -/
def peekAllAsString (b : RawBuffer) : Bytes := window b.buffer b.readIndex b.writeIndex

/-- `PeekAsString(len)`. -/
def peekAsString (b : RawBuffer) (len : ℕ) : Bytes := window b.buffer b.readIndex (b.readIndex + len)

/-- `MakeEnough(len)`: do nothing, move the readable range to the front, or grow the vector. -/
def makeEnough (b : RawBuffer) (len : ℕ) : RawBuffer :=
  if b.writeable > len then b
  else if b.writeable + b.preable ≥ preIndex + len then
    { buffer := overwrite b.buffer preIndex b.peekAllAsString
      writeIndex := b.readable + preIndex
      readIndex := preIndex }
  else { b with buffer := b.buffer ++ List.replicate len 0 }

/-- `Append(message, len)`. -/
def append (b : RawBuffer) (message : Bytes) : RawBuffer :=
  let b := b.makeEnough message.length
  { b with
    buffer := overwrite b.buffer b.writeIndex message
    writeIndex := b.writeIndex + message.length }

/-- `RetrieveAll()`. -/
def retrieveAll (b : RawBuffer) : RawBuffer := { b with writeIndex := preIndex, readIndex := preIndex }

/-- `Retrieve(len)`. -/
def retrieve (b : RawBuffer) (len : ℕ) : RawBuffer :=
  if len + b.readIndex < b.writeIndex then { b with readIndex := b.readIndex + len } else b.retrieveAll

/-- `RetrieveUntilIndex(index)`, the index given as an offset from the read position. -/
def retrieveUntilIndex (b : RawBuffer) (offset : ℕ) : RawBuffer :=
  { b with readIndex := b.readIndex + offset }

/-- The number of bytes `ReadFd` offers to `readv`. -/
def readFdRoom (b : RawBuffer) : ℕ := b.writeable + if b.writeable < extraSize then extraSize else 0

/-- `ReadFd(fd)` when `readv` delivers the given bytes: first the vector's tail, then the
stack area, which is appended afterwards. -/
def readFd (b : RawBuffer) (data : Bytes) : RawBuffer :=
  if data.length ≤ b.writeable then
    { b with
      buffer := overwrite b.buffer b.writeIndex data
      writeIndex := b.writeIndex + data.length }
  else
    { b with
      buffer := overwrite b.buffer b.writeIndex (data.take b.writeable)
      writeIndex := b.buffer.length }.append (data.drop b.writeable)

/-- The order of the indices. -/
structure Sound (b : RawBuffer) : Prop where
  pre_le_read : preIndex ≤ b.readIndex
  read_le_write : b.readIndex ≤ b.writeIndex
  write_le_size : b.writeIndex ≤ b.buffer.length

/-- The order of the indices can be decided. -/
instance (b : RawBuffer) : Decidable b.Sound :=
  decidable_of_iff (preIndex ≤ b.readIndex ∧ b.readIndex ≤ b.writeIndex ∧ b.writeIndex ≤ b.buffer.length)
    ⟨fun h => ⟨h.1, h.2.1, h.2.2⟩, fun h => ⟨h.1, h.2, h.3⟩⟩

/-- The readable range has `readable()` bytes. -/
theorem Sound.length_peekAllAsString {b : RawBuffer} (h : b.Sound) :
    b.peekAllAsString.length = b.readable := length_window h.write_le_size

/-- A new buffer is sound. -/
theorem sound_new : new.Sound :=
  ⟨le_rfl, le_rfl, (by decide : preIndex ≤ initialSize).trans_eq List.length_replicate.symm⟩

/-- Making room keeps the order of the indices. -/
theorem Sound.makeEnough {b : RawBuffer} (h : b.Sound) (len : ℕ) : (b.makeEnough len).Sound := by
  obtain ⟨hpre, hread, hwrite⟩ := h
  have hlen : b.peekAllAsString.length = b.writeIndex - b.readIndex := length_window hwrite
  unfold RawBuffer.makeEnough
  split_ifs with hroom hmove
  · exact ⟨hpre, hread, hwrite⟩
  · refine ⟨le_rfl, Nat.le_add_left _ _, ?_⟩
    rw [length_overwrite (by omega)]
    simp only [readable]
    omega
  · refine ⟨hpre, hread, ?_⟩
    simp only [List.length_append, List.length_replicate]
    omega

/-- After making room, the requested number of bytes fits behind the write position. -/
theorem Sound.makeEnough_room {b : RawBuffer} (h : b.Sound) (len : ℕ) :
    (b.makeEnough len).writeIndex + len ≤ (b.makeEnough len).buffer.length := by
  obtain ⟨hpre, hread, hwrite⟩ := h
  have hlen : b.peekAllAsString.length = b.writeIndex - b.readIndex := length_window hwrite
  unfold RawBuffer.makeEnough
  split_ifs with hroom hmove
  · simp only [writeable] at hroom
    omega
  · rw [length_overwrite (by omega)]
    simp only [readable, writeable, preable] at hmove ⊢
    omega
  · simp only [List.length_append, List.length_replicate]
    omega

/-- Making room does not change the readable bytes, also when the ranges overlap. -/
theorem Sound.peekAllAsString_makeEnough {b : RawBuffer} (h : b.Sound) (len : ℕ) :
    (b.makeEnough len).peekAllAsString = b.peekAllAsString := by
  obtain ⟨hpre, hread, hwrite⟩ := h
  have hlen : b.peekAllAsString.length = b.readable := length_window hwrite
  unfold RawBuffer.makeEnough
  split_ifs with hroom hmove
  · rfl
  · change window (overwrite b.buffer preIndex b.peekAllAsString) preIndex (b.readable + preIndex) = _
    rw [Nat.add_comm, ← hlen]
    exact window_overwrite (by omega)
  · exact window_append _ _ hwrite

/-- Writing behind the write position into the vector extends the readable bytes. -/
theorem Sound.extend {b : RawBuffer} (h : b.Sound) {data : Bytes}
    (hroom : b.writeIndex + data.length ≤ b.buffer.length) :
    let b' : RawBuffer :=
      { b with buffer := overwrite b.buffer b.writeIndex data, writeIndex := b.writeIndex + data.length }
    b'.Sound ∧ b'.peekAllAsString = b.peekAllAsString ++ data := by
  obtain ⟨hpre, hread, hwrite⟩ := h
  refine ⟨⟨hpre, hread.trans (Nat.le_add_right _ _), ?_⟩, ?_⟩
  · rw [length_overwrite hroom]
    exact hroom
  · change window (overwrite b.buffer b.writeIndex data) b.readIndex (b.writeIndex + data.length) = _
    rw [window_concat _ hread (Nat.le_add_right _ _), window_overwrite hwrite,
      window_overwrite_before le_rfl hwrite]
    rfl

/-- Appending keeps the order of the indices. -/
theorem Sound.append {b : RawBuffer} (h : b.Sound) (message : Bytes) : (b.append message).Sound :=
  ((h.makeEnough _).extend (h.makeEnough_room _)).1

/-- Appending adds the message behind the readable bytes. -/
theorem Sound.peekAllAsString_append {b : RawBuffer} (h : b.Sound) (message : Bytes) :
    (b.append message).peekAllAsString = b.peekAllAsString ++ message :=
  ((h.makeEnough _).extend (h.makeEnough_room _)).2.trans
    (congrArg (· ++ message) (h.peekAllAsString_makeEnough _))

/-- `RetrieveAll` leaves a sound buffer. -/
theorem Sound.retrieveAll {b : RawBuffer} (h : b.Sound) : b.retrieveAll.Sound :=
  ⟨le_rfl, le_rfl, h.pre_le_read.trans (h.read_le_write.trans h.write_le_size)⟩

/-- `RetrieveAll` leaves nothing to read. -/
theorem peekAllAsString_retrieveAll (b : RawBuffer) : b.retrieveAll.peekAllAsString = [] := window_self _ _

/-- `Retrieve` keeps the order of the indices. -/
theorem Sound.retrieve {b : RawBuffer} (h : b.Sound) (len : ℕ) : (b.retrieve len).Sound := by
  unfold RawBuffer.retrieve
  split_ifs with hless
  · exact ⟨h.pre_le_read.trans (Nat.le_add_right _ _), by simp only; omega, h.write_le_size⟩
  · exact h.retrieveAll

/-- `Retrieve` removes the given number of readable bytes, or all of them. -/
theorem Sound.peekAllAsString_retrieve {b : RawBuffer} (h : b.Sound) (len : ℕ) :
    (b.retrieve len).peekAllAsString = b.peekAllAsString.drop len := by
  unfold RawBuffer.retrieve
  split_ifs with hless
  · exact window_advance _ _ _ _
  · rw [peekAllAsString_retrieveAll, List.drop_of_length_le]
    rw [h.length_peekAllAsString, readable]
    omega

/-- `RetrieveUntilIndex` keeps the order of the indices up to the write position. -/
theorem Sound.retrieveUntilIndex {b : RawBuffer} (h : b.Sound) {offset : ℕ} (ho : offset ≤ b.readable) :
    (b.retrieveUntilIndex offset).Sound := by
  have hread := h.read_le_write
  refine ⟨h.pre_le_read.trans (Nat.le_add_right _ _), ?_, h.write_le_size⟩
  simp only [RawBuffer.retrieveUntilIndex, readable] at ho ⊢
  omega

/-- `RetrieveUntilIndex` removes the bytes before the index. -/
theorem peekAllAsString_retrieveUntilIndex (b : RawBuffer) (offset : ℕ) :
    (b.retrieveUntilIndex offset).peekAllAsString = b.peekAllAsString.drop offset := window_advance _ _ _ _

/-- `ReadFd` keeps the order of the indices and adds the bytes read, wherever they were put. -/
theorem Sound.readFd {b : RawBuffer} (h : b.Sound) (data : Bytes) :
    (b.readFd data).Sound ∧ (b.readFd data).peekAllAsString = b.peekAllAsString ++ data := by
  have hwrite := h.write_le_size
  unfold RawBuffer.readFd
  split_ifs with hfit
  · exact h.extend (by simp only [writeable] at hfit; omega)
  · have htake : (data.take b.writeable).length = b.writeable := by
      rw [List.length_take]
      omega
    have hfull : b.writeIndex + (data.take b.writeable).length = b.buffer.length := by
      rw [htake, writeable]
      omega
    obtain ⟨hsound, hbytes⟩ := h.extend hfull.le
    rw [hfull] at hsound hbytes
    refine ⟨hsound.append _, ?_⟩
    rw [hsound.peekAllAsString_append, hbytes, List.append_assoc, List.take_append_drop]

end RawBuffer

end WebServer.Util
