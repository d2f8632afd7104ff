import WebServer.Foundation.Run
import WebServer.Util.Buffer

/-!
# `Buffer` with its `int` indices

`IntBuffer` performs the operations of `Buffer` in the 32-bit arithmetic of the code and checks
every write against the end of the vector. As long as the vector stays smaller than `2^31`
bytes, an operation computes what the unbounded arithmetic of `RawBuffer` computes, with one
exception: `Retrieve(len)` adds `len` to the read index before it compares, and the sum of a
large `len` wraps to a negative number.

`ByteFifo` is what the operations are meant to do: bytes are added at the end and removed
from the front, and none is lost. `Exact` says of one buffer that it is in range; `AppendFits` is what
an `Append` needs to keep it so.
-/

namespace WebServer.Util

open WebServer.Foundation

/-- The value of an exact result in an `int`. -/
def wrap (n : ℤ) : ℤ := (n + 2147483648) % 4294967296 - 2147483648

/-- A result in the range of `int` is kept. -/
theorem wrap_eq {n : ℤ} (h : -2147483648 ≤ n) (h' : n < 2147483648) : wrap n = n := by
  rw [wrap]
  omega

/-- The data members of `Buffer`, and whether something was written outside of the vector. -/
structure IntBuffer where
  buffer : Bytes
  readIndex : ℤ
  writeIndex : ℤ
  overrun : Bool
deriving DecidableEq

namespace IntBuffer

/-- The constructor. -/
def new : IntBuffer := ⟨List.replicate initialSize 0, preIndex, preIndex, false⟩

/-- `readable()`. -/
def readable (b : IntBuffer) : ℤ := wrap (b.writeIndex - b.readIndex)

/-- `writeable()`. -/
def writeable (b : IntBuffer) : ℤ := wrap (wrap b.buffer.length - b.writeIndex)

/-- `preable()`. -/
def preable (b : IntBuffer) : ℤ := b.readIndex

/-- `PeekAllAsString()`. -/
def peekAllAsString (b : IntBuffer) : Bytes := window b.buffer b.readIndex.toNat b.writeIndex.toNat

/-- The readable bytes. -/
def bytes (b : IntBuffer) : Bytes := b.peekAllAsString

/-- Copy data into the vector. -/
def copy (b : IntBuffer) (start : ℤ) (data : Bytes) : IntBuffer :=
  if 0 ≤ start ∧ start + data.length ≤ b.buffer.length then
    { b with buffer := overwrite b.buffer start.toNat data }
  else { b with overrun := true }

/-- `MakeEnough(len)`. -/
def makeEnough (b : IntBuffer) (len : ℤ) : IntBuffer :=
  if b.writeable > len then b
  else if wrap (b.writeable + b.preable) ≥ wrap (preIndex + len) then
    { b.copy preIndex b.peekAllAsString with
      writeIndex := wrap (b.readable + preIndex)
      readIndex := preIndex }
  else { b with buffer := b.buffer ++ List.replicate len.toNat 0 }

/-- `Append(message, len)`. -/
def append (b : IntBuffer) (message : Bytes) : IntBuffer :=
  let len := wrap message.length
  let b := b.makeEnough len
  { b.copy b.writeIndex message with writeIndex := wrap (b.writeIndex + len) }

/-- `RetrieveAll()`. -/
def retrieveAll (b : IntBuffer) : IntBuffer := { b with writeIndex := preIndex, readIndex := preIndex }

/-- `Retrieve(len)`. -/
def retrieve (b : IntBuffer) (len : ℤ) : IntBuffer :=
  if wrap (len + b.readIndex) < b.writeIndex then { b with readIndex := wrap (b.readIndex + len) }
  else b.retrieveAll

/-- `RetrieveUntilIndex(index)`, the index given as an offset from the read position. -/
def retrieveUntilIndex (b : IntBuffer) (offset : ℤ) : IntBuffer :=
  { b with readIndex := wrap (b.readIndex + offset) }

/-- `RetrieveAsString(len)`: the string, and the buffer behind it. -/
def retrieveAsString (b : IntBuffer) (len : ℤ) : Bytes × IntBuffer :=
  (window b.buffer b.readIndex.toNat (b.readIndex + len).toNat, b.retrieve len)

/-- `ReadFd(fd)`, given what `readv` delivered, or that it failed. -/
def readFd (b : IntBuffer) : Option Bytes → IntBuffer
  | none => b
  | some data =>
    let writeableSize := b.writeable
    let n := wrap data.length
    if n ≤ writeableSize then
      { b.copy b.writeIndex data with writeIndex := wrap (b.writeIndex + n) }
    else
      { b.copy b.writeIndex (data.take writeableSize.toNat) with
        writeIndex := wrap b.buffer.length }.append (data.drop writeableSize.toNat)

/-- The indices of an unbounded buffer, kept in `int`. -/
def ofRaw (b : RawBuffer) : IntBuffer := ⟨b.buffer, b.readIndex, b.writeIndex, false⟩

end IntBuffer

/-- The operations of `Buffer`; `readv` delivers bytes or fails. -/
inductive BufferOp where
  | append (message : Bytes)
  | readFd (result : Option Bytes)
  | retrieve (len : ℕ)
  | retrieveUntilIndex (offset : ℕ)
  | retrieveAsString (len : ℕ)
  | retrieveAll
deriving DecidableEq

namespace BufferOp

/-- The operation in the arithmetic of the code. -/
def onInt (b : IntBuffer) : BufferOp → IntBuffer
  | append message => b.append message
  | readFd result => b.readFd result
  | retrieve len => b.retrieve len
  | retrieveUntilIndex offset => b.retrieveUntilIndex offset
  | retrieveAsString len => (b.retrieveAsString len).2
  | retrieveAll => b.retrieveAll

/-- The operation in unbounded arithmetic. -/
def onRaw (b : RawBuffer) : BufferOp → RawBuffer
  | append message => b.append message
  | readFd none => b
  | readFd (some data) => b.readFd data
  | retrieve len => b.retrieve len
  | retrieveUntilIndex offset => b.retrieveUntilIndex offset
  | retrieveAsString len => b.retrieve len
  | retrieveAll => b.retrieveAll

/-- The bytes an operation adds. -/
def added : BufferOp → Bytes
  | append message => message
  | readFd (some data) => data
  | _ => []

/-- What the callers guarantee: lengths are nonnegative values of `int`, `readv` delivers at most
what it was offered, and an index lies between the two positions. -/
def Allowed (b : RawBuffer) : BufferOp → Prop
  | append message => message.length < 2147483648
  | readFd (some data) => data.length ≤ b.readFdRoom
  | readFd none => True
  | retrieve len => len < 2147483648
  | retrieveUntilIndex offset => offset ≤ b.readable
  | retrieveAsString len => len ≤ b.readable
  | retrieveAll => True

instance (b : RawBuffer) : (op : BufferOp) → Decidable (op.Allowed b)
  | append _ => inferInstanceAs (Decidable (_ < _))
  | readFd (some _) => inferInstanceAs (Decidable (_ ≤ _))
  | readFd none => isTrue trivial
  | retrieve _ => inferInstanceAs (Decidable (_ < _))
  | retrieveUntilIndex _ => inferInstanceAs (Decidable (_ ≤ _))
  | retrieveAsString _ => inferInstanceAs (Decidable (_ ≤ _))
  | retrieveAll => isTrue trivial

/-- `Retrieve(len)` does not leave the range of `int` when it adds up the index it compares. -/
def SumFits (b : IntBuffer) : BufferOp → Prop
  | retrieve len => len + b.readIndex < 2147483648
  | _ => True

instance (b : IntBuffer) : (op : BufferOp) → Decidable (op.SumFits b)
  | retrieve _ => inferInstanceAs (Decidable (_ < _))
  | append _ => isTrue trivial
  | readFd _ => isTrue trivial
  | retrieveUntilIndex _ => isTrue trivial
  | retrieveAsString _ => isTrue trivial
  | retrieveAll => isTrue trivial

end BufferOp

/-- A queue of bytes, with everything removed from it so far. -/
structure ByteFifo where
  removed : Bytes
  waiting : Bytes
deriving DecidableEq

namespace ByteFifo

/-- The empty queue. -/
def new : ByteFifo := ⟨[], []⟩

/-- Remove the given number of bytes, or all if there are fewer. -/
def remove (q : ByteFifo) (count : ℕ) : ByteFifo := ⟨q.removed ++ q.waiting.take count, q.waiting.drop count⟩

/-- What an operation does to the queue. -/
def apply (q : ByteFifo) : BufferOp → ByteFifo
  | .append message => ⟨q.removed, q.waiting ++ message⟩
  | .readFd (some data) => ⟨q.removed, q.waiting ++ data⟩
  | .readFd none => q
  | .retrieve len => q.remove len
  | .retrieveUntilIndex offset => q.remove offset
  | .retrieveAsString len => q.remove len
  | .retrieveAll => q.remove q.waiting.length

/-- No byte is lost or moved. -/
theorem apply_removed_waiting (q : ByteFifo) (op : BufferOp) :
    (q.apply op).removed ++ (q.apply op).waiting = q.removed ++ q.waiting ++ op.added := by
  have hremove (count : ℕ) : (q.remove count).removed ++ (q.remove count).waiting = q.removed ++ q.waiting ++
    [] := by
    rw [remove, List.append_assoc, List.take_append_drop, List.append_nil]
  cases op with
  | append message => exact (List.append_assoc _ _ _).symm
  | readFd result =>
    cases result with
    | none => exact (List.append_nil _).symm
    | some data => exact (List.append_assoc _ _ _).symm
  | retrieve len => exact hremove len
  | retrieveUntilIndex offset => exact hremove offset
  | retrieveAsString len => exact hremove len
  | retrieveAll => exact hremove _

end ByteFifo

namespace IntBuffer

section

variable {b : RawBuffer}

/-- `writeable()` of a small buffer is exact. -/
theorem writeable_ofRaw (h : b.Sound) (hsize : b.buffer.length < 2147483648) :
    (ofRaw b).writeable = b.writeable := by
  have hwrite := h.write_le_size
  have hlength : wrap b.buffer.length = b.buffer.length := wrap_eq (by omega) (by omega)
  simp only [writeable, ofRaw, RawBuffer.writeable]
  rw [hlength, wrap_eq (by omega) (by omega)]
  omega

/-- `readable()` of a small buffer is exact. -/
theorem readable_ofRaw (h : b.Sound) (hsize : b.buffer.length < 2147483648) : (ofRaw b).readable = b.readable := by
  have hread := h.read_le_write
  have hwrite := h.write_le_size
  simp only [readable, ofRaw, RawBuffer.readable]
  rw [wrap_eq (by omega) (by omega)]
  omega

/-- The readable bytes are the same. -/
@[simp] theorem peekAllAsString_ofRaw (b : RawBuffer) : (ofRaw b).peekAllAsString = b.peekAllAsString := rfl

/-- A copy that fits is performed. -/
theorem copy_ofRaw {start : ℕ} {data : Bytes} (hfits : start + data.length ≤ b.buffer.length) :
    (ofRaw b).copy start data = ofRaw { b with buffer := overwrite b.buffer start data } := by
  rw [copy, if_pos]
  · rfl
  · simp only [ofRaw]
    omega

/-- `MakeEnough` is exact for a length that leaves the buffer small. -/
theorem makeEnough_ofRaw (h : b.Sound) (hsize : b.buffer.length < 2147483648) {len : ℕ}
    (hlen : preIndex + len < 2147483648) : (ofRaw b).makeEnough len = ofRaw (b.makeEnough len) := by
  have hpre := h.pre_le_read
  have hread := h.read_le_write
  have hwrite := h.write_le_size
  have hpeek : b.peekAllAsString.length = b.writeIndex - b.readIndex := h.length_peekAllAsString
  have hroom : (b.writeable : ℤ) > len ↔ b.writeable > len := by omega
  have hmove : wrap (b.writeable + b.readIndex) ≥ wrap (preIndex + len) ↔
    b.writeable + b.preable ≥ preIndex + len := by
    simp only [RawBuffer.writeable, RawBuffer.preable]
    rw [wrap_eq (by omega) (by omega), wrap_eq (by omega) (by omega)]
    omega
  rw [makeEnough, RawBuffer.makeEnough, writeable_ofRaw h hsize, readable_ofRaw h hsize, preable]
  simp only [hroom, ofRaw, hmove]
  split_ifs with henough hcompact
  · rfl
  · have hfits : preIndex + b.peekAllAsString.length ≤ b.buffer.length := by omega
    have hcopy := copy_ofRaw (b := b) hfits
    have hindex : wrap (b.readable + preIndex) = (b.readable + preIndex : ℕ) := by
      simp only [RawBuffer.readable]
      rw [wrap_eq (by omega) (by omega)]
      omega
    change { (ofRaw b).copy preIndex b.peekAllAsString with
      writeIndex := wrap (b.readable + preIndex), readIndex := preIndex } = _
    rw [hcopy, hindex]
    rfl
  · simp

/-- `Append` is exact if the vector is small, and the sums with the length are in range. -/
theorem append_ofRaw_of_fits (h : b.Sound) (hsize : b.buffer.length < 2147483648) {message : Bytes}
    (hlen : preIndex + message.length < 2147483648)
    (hindex : (b.makeEnough message.length).writeIndex + message.length < 2147483648) :
    (ofRaw b).append message = ofRaw (b.append message) := by
  have hwrap : wrap message.length = message.length := wrap_eq (by omega) (by omega)
  have hsum : wrap ((b.makeEnough message.length).writeIndex + message.length) =
      ((b.makeEnough message.length).writeIndex + message.length : ℕ) := by
    rw [wrap_eq (by omega) (by omega)]
    omega
  rw [append, hwrap, makeEnough_ofRaw h hsize hlen]
  change { (ofRaw (b.makeEnough message.length)).copy (b.makeEnough message.length).writeIndex message with
    writeIndex := wrap ((b.makeEnough message.length).writeIndex + message.length) } = _
  rw [copy_ofRaw (h.makeEnough_room message.length), hsum]
  rfl

/-- `Append` is exact if it leaves the buffer small. -/
theorem append_ofRaw (h : b.Sound) (hsize : b.buffer.length < 2147483648) {message : Bytes}
    (hgrown : (b.append message).buffer.length < 2147483648) :
      (ofRaw b).append message = ofRaw (b.append message) := by
  have hroom := h.makeEnough_room message.length
  have hsound := h.makeEnough message.length
  have hpre := hsound.pre_le_read
  have hread := hsound.read_le_write
  have hlength : (b.append message).buffer.length = (b.makeEnough message.length).buffer.length :=
    length_overwrite hroom
  exact append_ofRaw_of_fits h hsize (by omega) (by omega)

/-- An `Append` whose last sum is out of range makes the write index negative, and nothing is readable any more. -/
theorem append_wraps (h : b.Sound) (hsize : b.buffer.length < 2147483648) {message : Bytes}
    (hlen : preIndex + message.length < 2147483648)
    (hover : 2147483648 ≤ (b.makeEnough message.length).writeIndex + message.length) :
    ((ofRaw b).append message).writeIndex < 0 ∧ ((ofRaw b).append message).bytes = [] := by
  have hwrap : wrap message.length = message.length := wrap_eq (by omega) (by omega)
  have hindex : (b.makeEnough message.length).writeIndex ≤ b.writeIndex + preIndex := by
    rw [RawBuffer.makeEnough]
    split_ifs
    · exact Nat.le_add_right _ _
    · exact Nat.add_le_add_right (Nat.sub_le _ _) _
    · exact Nat.le_add_right _ _
  have hwrite := h.write_le_size
  have hnegative : wrap ((b.makeEnough message.length).writeIndex + message.length) < 0 := by
    rw [wrap]
    omega
  rw [append, hwrap, makeEnough_ofRaw h hsize hlen]
  refine ⟨hnegative, ?_⟩
  have hzero : (wrap ((b.makeEnough message.length).writeIndex + message.length)).toNat = 0 := by omega
  change window _ _ (wrap ((b.makeEnough message.length).writeIndex + message.length)).toNat = []
  rw [hzero, window, Nat.zero_sub, List.take_zero]

/-- The vector grows by the length asked for at most. -/
theorem length_makeEnough_le (h : b.Sound) (len : ℕ) : (b.makeEnough len).buffer.length ≤
    b.buffer.length + len := by
  have hpre := h.pre_le_read
  have hread := h.read_le_write
  have hwrite := h.write_le_size
  have hpeek : b.peekAllAsString.length = b.writeIndex - b.readIndex := h.length_peekAllAsString
  rw [RawBuffer.makeEnough]
  split_ifs
  · exact Nat.le_add_right _ _
  · have hinside : preIndex + b.peekAllAsString.length ≤ b.buffer.length := by omega
    rw [length_overwrite hinside]
    exact Nat.le_add_right _ _
  · rw [List.length_append, List.length_replicate]

/-- Two messages of `2^30` bytes and more wrap the write index of a fresh buffer. -/
theorem append_twice_wraps {message : Bytes} (hlow : 1073741824 ≤ message.length)
    (hhigh : initialSize + message.length < 2147483648) : ((new.append message).append message).bytes = [] := by
  have hpre : preIndex = 8 := rfl
  have hinitial : initialSize = 1024 := rfl
  have hsize : RawBuffer.new.buffer.length = 1024 := List.length_replicate
  have hwrite : (RawBuffer.new.makeEnough message.length).writeIndex = 8 := by
    rw [RawBuffer.makeEnough]
    split_ifs <;> rfl
  have hfirst : new.append message = ofRaw (RawBuffer.new.append message) :=
    append_ofRaw_of_fits RawBuffer.sound_new (by omega) (by omega) (by omega)
  have hsound := RawBuffer.sound_new.append message
  have hroom := RawBuffer.sound_new.makeEnough_room message.length
  have hgrown : (RawBuffer.new.append message).buffer.length =
    (RawBuffer.new.makeEnough message.length).buffer.length :=
    length_overwrite hroom
  have hvector := length_makeEnough_le RawBuffer.sound_new message.length
  have hbytes : (RawBuffer.new.append message).peekAllAsString = message := by
    rw [RawBuffer.sound_new.peekAllAsString_append, RawBuffer.peekAllAsString, RawBuffer.new, window_self,
      List.nil_append]
  have hsound' := hsound.makeEnough message.length
  have hbytes' : ((RawBuffer.new.append message).makeEnough message.length).peekAllAsString.length =
    message.length := by
    rw [hsound.peekAllAsString_makeEnough, hbytes]
  have hreadable : ((RawBuffer.new.append message).makeEnough message.length).writeIndex -
      ((RawBuffer.new.append message).makeEnough message.length).readIndex = message.length :=
    hsound'.length_peekAllAsString.symm.trans hbytes'
  have hpre' := hsound'.pre_le_read
  rw [hfirst]
  exact (append_wraps hsound (by omega) (by omega) (by omega)).2

/-- `Retrieve` is exact if the sum it compares is in range. -/
theorem retrieve_ofRaw {len : ℕ} (hsum : len + b.readIndex < 2147483648) :
    (ofRaw b).retrieve len = ofRaw (b.retrieve len) := by
  have hindex : wrap ((b.readIndex : ℤ) + len) = (b.readIndex + len : ℕ) := by
    rw [wrap_eq (by omega) (by omega)]
    omega
  have hless : wrap ((len : ℤ) + b.readIndex) < b.writeIndex ↔ len + b.readIndex < b.writeIndex := by
    rw [wrap_eq (by omega) (by omega)]
    omega
  rw [retrieve, RawBuffer.retrieve]
  simp only [ofRaw, hless, hindex]
  split_ifs <;> rfl

/-- A sum out of range wraps to a negative number, and the read index becomes negative. -/
theorem retrieve_wraps (h : b.Sound) (hsize : b.buffer.length < 2147483648) {len : ℕ} (hlen : len < 2147483648)
    (hsum : ¬ len + b.readIndex < 2147483648) : ((ofRaw b).retrieve len).readIndex < 0 := by
  have hread := h.read_le_write
  have hwrite := h.write_le_size
  have hnegative : wrap ((len : ℤ) + b.readIndex) < 0 := by
    rw [wrap]
    omega
  have hless : wrap ((len : ℤ) + b.readIndex) < b.writeIndex := by omega
  have hretrieve : (ofRaw b).retrieve len = { ofRaw b with readIndex := wrap (b.readIndex + len) } := if_pos hless
  rw [hretrieve, Int.add_comm]
  exact hnegative

/-- `RetrieveUntilIndex` is exact up to the write position. -/
theorem retrieveUntilIndex_ofRaw (h : b.Sound) (hsize : b.buffer.length < 2147483648) {offset : ℕ}
    (hoffset : offset ≤ b.readable) : (ofRaw b).retrieveUntilIndex offset = ofRaw
      (b.retrieveUntilIndex offset) := by
  have hwrite := h.write_le_size
  have hread := h.read_le_write
  have hindex : wrap ((b.readIndex : ℤ) + offset) = (b.readIndex + offset : ℕ) := by
    simp only [RawBuffer.readable] at hoffset
    rw [wrap_eq (by omega) (by omega)]
    omega
  simp only [retrieveUntilIndex, ofRaw, hindex, RawBuffer.retrieveUntilIndex]

/-- `ReadFd` is exact if it leaves the buffer small. -/
theorem readFd_ofRaw (h : b.Sound) (hsize : b.buffer.length < 2147483648) {data : Bytes}
    (hroom : data.length ≤ b.readFdRoom) (hgrown : (b.readFd data).buffer.length < 2147483648) :
    (ofRaw b).readFd (some data) = ofRaw (b.readFd data) := by
  have hpre := h.pre_le_read
  have hread := h.read_le_write
  have hwrite := h.write_le_size
  have hextra : extraSize = 65536 := rfl
  have hdata : wrap data.length = data.length := by
    rw [RawBuffer.readFdRoom, RawBuffer.writeable] at hroom
    apply wrap_eq (by omega)
    split_ifs at hroom <;> omega
  have hfits : (data.length : ℤ) ≤ b.writeable ↔ data.length ≤ b.writeable := Int.ofNat_le
  rw [readFd, RawBuffer.readFd, writeable_ofRaw h hsize, hdata]
  simp only [hfits]
  split_ifs with htail
  · have hinside : b.writeIndex + data.length ≤ b.buffer.length := by
      simp only [RawBuffer.writeable] at htail
      omega
    have hindex : wrap ((b.writeIndex : ℤ) + data.length) = (b.writeIndex + data.length : ℕ) := by
      rw [wrap_eq (by omega) (by omega)]
      omega
    change { (ofRaw b).copy b.writeIndex data with writeIndex := wrap (b.writeIndex + data.length) } = _
    rw [copy_ofRaw hinside, hindex]
    rfl
  · have htake : (data.take b.writeable).length = b.writeable := by
      rw [List.length_take]
      omega
    have hfull : b.writeIndex + (data.take b.writeable).length = b.buffer.length := by
      rw [htake, RawBuffer.writeable]
      omega
    have hindex : wrap b.buffer.length = b.buffer.length := wrap_eq (by omega) (by omega)
    have hsound := (h.extend hfull.le).1
    rw [hfull] at hsound
    rw [RawBuffer.readFd, if_neg htail] at hgrown
    have hlength : (overwrite b.buffer b.writeIndex (data.take b.writeable)).length = b.buffer.length :=
      length_overwrite hfull.le
    rw [← append_ofRaw hsound (hlength.trans_lt hsize) hgrown]
    change append { (ofRaw b).copy b.writeIndex (data.take b.writeable) with writeIndex := wrap b.buffer.length }
      (data.drop b.writeable) = _
    rw [copy_ofRaw hfull.le, hindex]
    rfl

/-- `RetrieveAsString` returns the bytes it removes. -/
theorem retrieveAsString_fst {len : ℕ} (hlen : len ≤ b.readable) :
    ((ofRaw b).retrieveAsString len).1 = b.peekAllAsString.take len := by
  have hindex : ((b.readIndex : ℤ) + len).toNat = b.readIndex + len := by omega
  simp only [RawBuffer.readable] at hlen
  simp only [retrieveAsString, ofRaw, hindex, Int.toNat_natCast, RawBuffer.peekAllAsString, window, List.take_take]
  congr 1
  omega

end

/-- The indices of a buffer that are not negative. -/
def toRaw (b : IntBuffer) : RawBuffer := ⟨b.buffer, b.readIndex.toNat, b.writeIndex.toNat⟩

/-- Natural numbers kept in `int` are read back. -/
@[simp] theorem toRaw_ofRaw (b : RawBuffer) : (ofRaw b).toRaw = b := rfl

/-- The indices are in order and in the range of `int`, and nothing was written outside of the vector. -/
def Exact (b : IntBuffer) : Prop := ∃ raw : RawBuffer, raw.Sound ∧ raw.writeIndex < 2147483648 ∧ b = ofRaw raw

/-- The `int` results of an `Append` of this length are in range: the size of the vector, and the two sums. -/
def AppendFits (b : IntBuffer) (len : ℕ) : Prop :=
  b.buffer.length < 2147483648 ∧ preIndex + len < 2147483648 ∧ (b.makeEnough len).writeIndex + len < 2147483648

instance (b : IntBuffer) (len : ℕ) : Decidable (b.AppendFits len) := inferInstanceAs (Decidable (_ ∧ _ ∧ _))

/-- A fresh buffer is empty. -/
theorem exact_new : new.Exact ∧ new.bytes = [] :=
  ⟨⟨RawBuffer.new, RawBuffer.sound_new, by decide, rfl⟩, window_self _ _⟩

namespace Exact

variable {b : IntBuffer}

/-- Nothing was written outside of the vector. -/
theorem overrun (h : b.Exact) : b.overrun = false := by
  obtain ⟨raw, -, -, rfl⟩ := h
  rfl

/-- The `int` that counts the readable bytes is zero if there is none. -/
theorem readable_eq_zero (h : b.Exact) : b.readable = 0 ↔ b.bytes = [] := by
  obtain ⟨raw, hsound, hindex, rfl⟩ := h
  have hread := hsound.read_le_write
  have hlength : (ofRaw raw).bytes.length = raw.writeIndex - raw.readIndex := hsound.length_peekAllAsString
  have hreadable : (ofRaw raw).readable = (raw.writeIndex : ℤ) - raw.readIndex := by
    change wrap ((raw.writeIndex : ℤ) - raw.readIndex) = _
    exact wrap_eq (by omega) (by omega)
  rw [← List.length_eq_zero_iff, hlength, hreadable]
  omega

/-- An `Append` that fits adds its message. -/
theorem append (h : b.Exact) {message : Bytes} (hfits : b.AppendFits message.length) :
    (b.append message).Exact ∧ (b.append message).bytes = b.bytes ++ message := by
  obtain ⟨raw, hsound, -, rfl⟩ := h
  obtain ⟨hsize, hlen, hindex⟩ := hfits
  rw [makeEnough_ofRaw hsound hsize hlen] at hindex
  have hsum : (raw.makeEnough message.length).writeIndex + message.length < 2147483648 := by
    change ((raw.makeEnough message.length).writeIndex : ℤ) + message.length < 2147483648 at hindex
    omega
  rw [append_ofRaw_of_fits hsound hsize hlen hsum]
  exact ⟨⟨_, hsound.append message, hsum, rfl⟩, hsound.peekAllAsString_append message⟩

/-- `Retrieve` removes readable bytes. -/
theorem retrieve (h : b.Exact) {len : ℕ} (hlen : len ≤ b.bytes.length) :
    (b.retrieve len).Exact ∧ (b.retrieve len).bytes = b.bytes.drop len := by
  obtain ⟨raw, hsound, hindex, rfl⟩ := h
  have hread := hsound.read_le_write
  have hlength : (ofRaw raw).bytes.length = raw.writeIndex - raw.readIndex := hsound.length_peekAllAsString
  have hwrite : (raw.retrieve len).writeIndex ≤ raw.writeIndex := by
    rw [RawBuffer.retrieve]
    split
    · exact le_rfl
    · exact hsound.pre_le_read.trans hread
  rw [retrieve_ofRaw (by omega)]
  exact ⟨⟨_, hsound.retrieve len, by omega, rfl⟩, hsound.peekAllAsString_retrieve len⟩

end Exact

/-- The indices are in order, and the vector holds at most this many bytes. -/
def Within (b : IntBuffer) (size : ℕ) : Prop := ∃ raw : RawBuffer, raw.Sound ∧ raw.buffer.length ≤ size ∧
    b = ofRaw raw

/-- The vector of a fresh buffer has the initial size. -/
theorem within_new : new.Within initialSize :=
  ⟨RawBuffer.new, RawBuffer.sound_new, List.length_replicate.le, rfl⟩

namespace Within

variable {b : IntBuffer} {size : ℕ}

/-- A larger bound holds as well. -/
theorem mono (h : b.Within size) {larger : ℕ} (hle : size ≤ larger) : b.Within larger := by
  obtain ⟨raw, hsound, hsize, rfl⟩ := h
  exact ⟨raw, hsound, hsize.trans hle, rfl⟩

/-- An `Append` fits, and makes the vector grow by its length at most, if that keeps it below `2^31` bytes. -/
theorem append (h : b.Within size) {message : Bytes} (hpre : preIndex ≤ size)
    (hfits : size + message.length < 2147483648) :
    b.AppendFits message.length ∧ (b.append message).Within (size + message.length) := by
  obtain ⟨raw, hsound, hsize, rfl⟩ := h
  have hsmall : raw.buffer.length < 2147483648 := by omega
  have hlen : preIndex + message.length < 2147483648 := by omega
  have hroom := hsound.makeEnough_room message.length
  have hgrown := length_makeEnough_le hsound message.length
  have hindex : (raw.makeEnough message.length).writeIndex + message.length < 2147483648 := by omega
  constructor
  · refine ⟨hsmall, hlen, ?_⟩
    rw [makeEnough_ofRaw hsound hsmall hlen]
    change ((raw.makeEnough message.length).writeIndex : ℤ) + message.length < 2147483648
    omega
  · have hlength : (raw.append message).buffer.length = (raw.makeEnough message.length).buffer.length :=
      length_overwrite hroom
    rw [append_ofRaw_of_fits hsound hsmall hlen hindex]
    exact ⟨raw.append message, hsound.append message, by omega, rfl⟩

/-- `Retrieve` does not change the vector. -/
theorem retrieve (h : b.Within size) {len : ℕ} (hlen : len ≤ b.bytes.length) (hsmall : size < 2147483648) :
    (b.retrieve len).Within size := by
  obtain ⟨raw, hsound, hsize, rfl⟩ := h
  have hread := hsound.read_le_write
  have hwrite := hsound.write_le_size
  have hlength : (ofRaw raw).bytes.length = raw.writeIndex - raw.readIndex := hsound.length_peekAllAsString
  have hvector : (raw.retrieve len).buffer = raw.buffer := by
    rw [RawBuffer.retrieve]
    split <;> rfl
  rw [retrieve_ofRaw (by omega)]
  exact ⟨raw.retrieve len, hsound.retrieve len, hvector ▸ hsize, rfl⟩

end Within

end IntBuffer

namespace BufferOp

/-- The callers' part of the sum in `Retrieve` is the only condition under which the code computes
what unbounded arithmetic does. -/
theorem onInt_ofRaw {b : RawBuffer} (h : b.Sound) (hsize : b.buffer.length < 2147483648) {op : BufferOp}
    (hallowed : op.Allowed b) (hgrown : (op.onRaw b).buffer.length < 2147483648)
    (hsum : op.SumFits (.ofRaw b)) : op.onInt (.ofRaw b) = .ofRaw (op.onRaw b) := by
  cases op with
  | append message => exact IntBuffer.append_ofRaw h hsize hgrown
  | readFd result =>
    cases result with
    | none => rfl
    | some data =>
      change (IntBuffer.ofRaw b).readFd (some data) = .ofRaw (b.readFd data)
      exact IntBuffer.readFd_ofRaw h hsize hallowed hgrown
  | retrieve len =>
    have hinside : len + b.readIndex < 2147483648 := by
      simp only [SumFits, IntBuffer.ofRaw] at hsum
      omega
    exact IntBuffer.retrieve_ofRaw hinside
  | retrieveUntilIndex offset => exact IntBuffer.retrieveUntilIndex_ofRaw h hsize hallowed
  | retrieveAsString len =>
    have hinside : len + b.readIndex < 2147483648 := by
      have hread := h.read_le_write
      have hwrite := h.write_le_size
      simp only [Allowed, RawBuffer.readable] at hallowed
      omega
    simp only [onInt, onRaw, IntBuffer.retrieveAsString]
    exact IntBuffer.retrieve_ofRaw hinside
  | retrieveAll => rfl

/-- In unbounded arithmetic every operation keeps the order of the indices. -/
theorem sound_onRaw {b : RawBuffer} (h : b.Sound) {op : BufferOp} (hallowed : op.Allowed b) :
    (op.onRaw b).Sound := by
  cases op with
  | append message => exact h.append message
  | readFd result =>
    cases result with
    | none => exact h
    | some data => exact (h.readFd data).1
  | retrieve len => exact h.retrieve len
  | retrieveUntilIndex offset => exact h.retrieveUntilIndex hallowed
  | retrieveAsString len => exact h.retrieve len
  | retrieveAll => exact h.retrieveAll

/-- In unbounded arithmetic every operation acts on the readable bytes as on a queue. -/
theorem peekAllAsString_onRaw {b : RawBuffer} (h : b.Sound) {q : ByteFifo} (hq : b.peekAllAsString = q.waiting)
    (op : BufferOp) : (op.onRaw b).peekAllAsString = (q.apply op).waiting := by
  cases op with
  | append message => exact (h.peekAllAsString_append message).trans (congrArg (· ++ message) hq)
  | readFd result =>
    cases result with
    | none => exact hq
    | some data => exact (h.readFd data).2.trans (congrArg (· ++ data) hq)
  | retrieve len => exact (h.peekAllAsString_retrieve len).trans (congrArg (List.drop len) hq)
  | retrieveUntilIndex offset =>
    exact (RawBuffer.peekAllAsString_retrieveUntilIndex b offset).trans (congrArg (List.drop offset) hq)
  | retrieveAsString len => exact (h.peekAllAsString_retrieve len).trans (congrArg (List.drop len) hq)
  | retrieveAll => exact (RawBuffer.peekAllAsString_retrieveAll b).trans List.drop_length.symm

end BufferOp

/-- A buffer beside the queue it stands for. -/
structure TrackedBuffer where
  int : IntBuffer
  fifo : ByteFifo
deriving DecidableEq

namespace TrackedBuffer

/-- A fresh buffer stands for the empty queue. -/
def new : TrackedBuffer := ⟨.new, .new⟩

/-- One operation, allowed by its caller, for which the vector needs fewer than `2^31` bytes. -/
def step (s : TrackedBuffer) (op : BufferOp) : Option TrackedBuffer :=
  if op.Allowed s.int.toRaw ∧ (op.onRaw s.int.toRaw).buffer.length < 2147483648 then
    some ⟨op.onInt s.int, s.fifo.apply op⟩
  else none

/-- The indices are in order, the vector is small, nothing was written outside of it, and the
readable bytes are those that wait in the queue. -/
structure Faithful (s : TrackedBuffer) : Prop where
  pre_le_read : preIndex ≤ s.int.readIndex
  read_le_write : s.int.readIndex ≤ s.int.writeIndex
  write_le_size : s.int.writeIndex ≤ s.int.buffer.length
  small : s.int.buffer.length < 2147483648
  inside : s.int.overrun = false
  bytes : s.int.peekAllAsString = s.fifo.waiting

/-- A sound small buffer with the bytes of the queue is faithful. -/
theorem faithful_ofRaw {b : RawBuffer} (h : b.Sound) (hsize : b.buffer.length < 2147483648) {q : ByteFifo}
    (hq : b.peekAllAsString = q.waiting) : Faithful ⟨.ofRaw b, q⟩ where
  pre_le_read := Int.ofNat_le.mpr h.pre_le_read
  read_le_write := Int.ofNat_le.mpr h.read_le_write
  write_le_size := Int.ofNat_le.mpr h.write_le_size
  small := hsize
  inside := rfl
  bytes := hq

/-- A fresh buffer is faithful. -/
theorem faithful_new : new.Faithful :=
  faithful_ofRaw RawBuffer.sound_new (List.length_replicate.trans_lt (by decide)) (window_self _ _)

/-- A faithful buffer keeps natural numbers in its indices. -/
theorem Faithful.exists_raw {s : TrackedBuffer} (h : s.Faithful) :
    ∃ b : RawBuffer, b.Sound ∧ b.buffer.length < 2147483648 ∧ s.int = .ofRaw b ∧
      b.peekAllAsString = s.fifo.waiting := by
  have hpre := h.pre_le_read
  have hread := h.read_le_write
  have hwrite := h.write_le_size
  refine ⟨s.int.toRaw, ⟨?_, ?_, ?_⟩, h.small, ?_, h.bytes⟩
  · simp only [IntBuffer.toRaw]
    omega
  · simp only [IntBuffer.toRaw]
    omega
  · simp only [IntBuffer.toRaw]
    omega
  · have hreadIndex : (s.int.readIndex.toNat : ℤ) = s.int.readIndex := Int.toNat_of_nonneg (by omega)
    have hwriteIndex : (s.int.writeIndex.toNat : ℤ) = s.int.writeIndex := Int.toNat_of_nonneg (by omega)
    rw [IntBuffer.ofRaw, IntBuffer.toRaw, hreadIndex, hwriteIndex, ← h.inside]

/-- An operation keeps the buffer faithful if and only if the sum in `Retrieve` is in range. -/
theorem faithful_step (s : TrackedBuffer) (op : BufferOp) (s' : TrackedBuffer) (h : s.Faithful)
    (hstep : s.step op = some s') : s'.Faithful ↔ op.SumFits s.int := by
  obtain ⟨b, hsound, hsize, hint, hbytes⟩ := h.exists_raw
  rw [step, hint, IntBuffer.toRaw_ofRaw] at hstep
  split at hstep
  · next hcan =>
    obtain rfl := Option.some.inj hstep
    rw [hint]
    constructor
    · intro hfaithful
      cases op with
      | retrieve len =>
        by_contra hsum
        have hout : ¬ len + b.readIndex < 2147483648 := by
          simp only [BufferOp.SumFits, IntBuffer.ofRaw] at hsum
          omega
        have hwraps : ((IntBuffer.ofRaw b).retrieve len).readIndex < 0 :=
          IntBuffer.retrieve_wraps hsound hsize hcan.1 hout
        have hpre : (preIndex : ℤ) ≤ ((IntBuffer.ofRaw b).retrieve len).readIndex := hfaithful.pre_le_read
        omega
      | _ => trivial
    · intro hsum
      rw [BufferOp.onInt_ofRaw hsound hsize hcan.1 hcan.2 hsum]
      exact faithful_ofRaw (BufferOp.sound_onRaw hsound hcan.1) hcan.2
        (BufferOp.peekAllAsString_onRaw hsound hbytes op)
  · cases hstep

/-- The queue has everything that was added. -/
theorem fifo_run {s t : TrackedBuffer} {ops : List BufferOp} (hrun : run step s ops = some t) :
    t.fifo.removed ++ t.fifo.waiting = s.fifo.removed ++ s.fifo.waiting ++ ops.flatMap BufferOp.added := by
  refine @run_extends _ _ _ _ (fun m => m.fifo.removed ++ m.fifo.waiting) _ (fun m op m' hstep => ?_) _ _ _ hrun
  have hfifo : m'.fifo = m.fifo.apply op := by
    rw [step] at hstep
    split at hstep
    · exact Option.some.inj hstep ▸ rfl
    · cases hstep
  simp only [hfifo, ByteFifo.apply_removed_waiting]

/-- At every point of a run of a fresh buffer the indices are in order, every write was inside of
the vector, and what was removed followed by the readable bytes is what was added, if and only
if no `Retrieve` of the run adds up to an index outside of the range of `int`. -/
theorem fifo_iff {ops : List BufferOp} {s : TrackedBuffer} (hrun : run step new ops = some s) :
    (∀ first m, first <+: ops → run step new first = some m →
      m.Faithful ∧ m.fifo.removed ++ m.int.peekAllAsString = first.flatMap BufferOp.added) ↔
      Meets step (fun m op => op.SumFits m.int) new ops := by
  rw [← throughout_iff_meets (I := fun _ => True) (fun _ _ _ _ _ => trivial)
    (fun m op m' _ h hstep => faithful_step m op m' h hstep) trivial faithful_new hrun]
  constructor
  · intro hall first m hfirst hm
    exact (hall first m hfirst hm).1
  · intro hall first m hfirst hm
    have hfaithful := hall first m hfirst hm
    exact ⟨hfaithful, hfaithful.bytes ▸ fifo_run hm⟩

/-- A run that retrieves more than there is, and whose sums are in range. -/
theorem fifo_smallSums : ∃ s, run step new [.append [1, 2, 3], .retrieve 2, .readFd (some [4]), .retrieve 100] =
    some s ∧
    s.Faithful := by
  have hruns : (run step new [.append [1, 2, 3], .retrieve 2, .readFd (some [4]), .retrieve 100]).isSome := by
    decide +kernel
  obtain ⟨s, hrun⟩ := Option.isSome_iff_exists.mp hruns
  exact ⟨s, hrun, ((fifo_iff hrun).mpr (by decide +kernel) _ _ List.prefix_rfl hrun).1⟩

/-- Retrieving the largest number of bytes from a fresh buffer makes the read index negative. -/
theorem not_faithful_retrieveMax : ∃ s, run step new [.retrieve 2147483647] = some s ∧
    s.int.readIndex = -2147483641 ∧ ¬ s.Faithful := by
  have hlast : (run step new [.retrieve 2147483647]).map (·.int.readIndex) = some (-2147483641) := by decide +kernel
  obtain ⟨s, hrun, hread⟩ := Option.map_eq_some_iff.mp hlast
  refine ⟨s, hrun, hread, fun h => ?_⟩
  have hpre := h.pre_le_read
  omega

end TrackedBuffer

end WebServer.Util
