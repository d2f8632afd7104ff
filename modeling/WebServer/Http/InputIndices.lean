import WebServer.Http.Isolation
import WebServer.Util.IntBuffer

/-!
# The `int` results of a read

`readFdInts` lists every result of type `int` that `ReadFd` computes on the input buffer, with its
exact value. The vector grows when a read brings more than its tail takes and the bytes consumed
by the parser have not freed enough in front, and nothing stops a peer from sending bytes that
are never consumed. As long as the vector stays below `2^31` bytes every result is in range, and
the read that takes it there is the first one with a result out of range.
-/

namespace WebServer.Util

open WebServer.Foundation

/-- A value of type `int`. -/
def FitsInt (n : ℤ) : Prop := -2147483648 ≤ n ∧ n < 2147483648

instance (n : ℤ) : Decidable (FitsInt n) := inferInstanceAs (Decidable (_ ∧ _))

namespace RawBuffer

/-- The results in `writeable()`. -/
def writeableInts (b : RawBuffer) : List ℤ := [(b.buffer.length : ℤ), (b.buffer.length - b.writeIndex : ℤ)]

/-- The results in `MakeEnough(len)`. -/
def makeEnoughInts (b : RawBuffer) (len : ℕ) : List ℤ :=
  b.writeableInts ++
    if b.writeable > len then []
    else b.writeableInts ++ [(b.writeable + b.preable : ℤ), (preIndex + len : ℤ)] ++
      if b.writeable + b.preable ≥ preIndex + len then [(b.writeIndex - b.readIndex : ℤ),
        (b.readable + preIndex : ℤ)]
      else []

/-- The results in `Append(message, len)`. -/
def appendInts (b : RawBuffer) (len : ℕ) : List ℤ := b.makeEnoughInts len ++
    [((b.makeEnough len).writeIndex + len : ℤ)]

/-- The results in `ReadFd(fd)`, where `readv` failed or delivered the given number of bytes. -/
def readFdInts (b : RawBuffer) : Option ℕ → List ℤ
  | none => b.writeableInts ++ [-1]
  | some n => b.writeableInts ++ (n : ℤ) ::
      if n ≤ b.writeable then [(b.writeIndex + n : ℤ)]
      else (b.buffer.length : ℤ) :: (n - b.writeable : ℤ) ::
        { b with writeIndex := b.buffer.length }.appendInts (n - b.writeable)

/-- The vector stays small in a read: the tail takes it, or the bytes freed in front do, or the grown
vector has fewer than `2^31` bytes. -/
def ReadFits (b : RawBuffer) (n : ℕ) : Prop :=
  n ≤ b.writeable ∨ preIndex + (n - b.writeable) ≤ b.readIndex ∨ b.writeIndex + n < 2147483648

/-- `writeable()` of a small buffer has its results in range. -/
theorem writeableInts_fit {b : RawBuffer} (h : b.Sound) (hsize : b.buffer.length < 2147483648) :
    ∀ value ∈ b.writeableInts, FitsInt value := by
  have hwrite := h.write_le_size
  rw [writeableInts, List.forall_mem_cons, List.forall_mem_singleton, FitsInt, FitsInt]
  omega

/-- With a full tail, making room moves the readable bytes to the front or grows the vector. -/
theorem makeEnough_of_full {b : RawBuffer} (hfull : b.writeIndex = b.buffer.length) (len : ℕ) :
    b.makeEnough len =
      if preIndex + len ≤ b.readIndex then
        { buffer := overwrite b.buffer preIndex b.peekAllAsString
          writeIndex := b.readable + preIndex
          readIndex := preIndex }
      else { b with buffer := b.buffer ++ List.replicate len 0 } := by
  have hnone : b.writeable = 0 := by rw [writeable, hfull, Nat.sub_self]
  rw [makeEnough, hnone, if_neg (Nat.not_lt_zero _), preable, Nat.zero_add]

/-- Appending to a small buffer whose tail is full has its results in range exactly if the bytes freed in
front take the message, or the grown vector is still small. -/
theorem appendInts_fit {b : RawBuffer} (h : b.Sound) (hfull : b.writeIndex = b.buffer.length)
    (hsize : b.buffer.length < 2147483648) {len : ℕ} (hpos : 0 < len) (hlen : len ≤ 65536) :
    (∀ value ∈ b.appendInts len, FitsInt value) ↔
      preIndex + len ≤ b.readIndex ∨ b.buffer.length + len < 2147483648 := by
  have height : preIndex = 8 := rfl
  have hread := h.read_le_write
  have hnone : b.writeable = 0 := by rw [writeable, hfull, Nat.sub_self]
  have hroom : ¬ b.writeable > len := by omega
  have hwriteable := writeableInts_fit h hsize
  rw [appendInts, makeEnoughInts, if_neg hroom, makeEnough_of_full hfull]
  simp only [hnone, preable, readable, Nat.zero_add, List.forall_mem_append]
  rw [and_iff_right hwriteable, and_iff_right hwriteable]
  split_ifs with hmove
  · simp only [List.forall_mem_cons, List.not_mem_nil, false_imp_iff, implies_true, and_true, FitsInt]
    omega
  · simp only [List.forall_mem_cons, List.not_mem_nil, false_imp_iff, implies_true, and_true, FitsInt]
    omega

/-- A read of at most as many bytes as offered has all its results in range exactly if the vector stays
small. -/
theorem readFdInts_fit {b : RawBuffer} (h : b.Sound) (hsize : b.buffer.length < 2147483648) {n : ℕ}
    (hroom : n ≤ b.readFdRoom) : (∀ value ∈ b.readFdInts (some n), FitsInt value) ↔ b.ReadFits n := by
  have hwrite := h.write_le_size
  have htail : b.writeIndex + b.writeable = b.buffer.length := Nat.add_sub_cancel' hwrite
  have hwriteable := writeableInts_fit h hsize
  have hoffered : n ≤ b.writeable ∨ b.writeable < 65536 ∧ n ≤ b.writeable + 65536 := by
    rw [readFdRoom, extraSize] at hroom
    split_ifs at hroom with hsmall
    · exact Or.inr ⟨hsmall, hroom⟩
    · exact Or.inl hroom
  have hcount : FitsInt n := by
    rw [FitsInt]
    omega
  rw [readFdInts, List.forall_mem_append, List.forall_mem_cons, ReadFits]
  split_ifs with hfits
  · have hend : FitsInt (b.writeIndex + n) := by
      rw [FitsInt]
      omega
    rw [List.forall_mem_singleton]
    exact iff_of_true ⟨hwriteable, hcount, hend⟩ (Or.inl hfits)
  · have hsound : Sound { b with writeIndex := b.buffer.length } :=
      ⟨h.pre_le_read, h.read_le_write.trans hwrite, le_rfl⟩
    have happend := appendInts_fit hsound rfl hsize (Nat.sub_pos_of_lt (not_le.mp hfits)) (by omega)
    have hrest : FitsInt (n - b.writeable) := by
      rw [FitsInt] at *
      omega
    have hlength : FitsInt b.buffer.length := by
      rw [FitsInt]
      omega
    have hgrown : b.buffer.length + (n - b.writeable) = b.writeIndex + n := by omega
    rw [List.forall_mem_cons, List.forall_mem_cons, happend, hgrown, and_iff_right hwriteable, and_iff_right hcount,
      and_iff_right hlength, and_iff_right hrest, or_iff_right hfits]

/-- The size of the vector after appending behind a full tail. -/
theorem length_append_of_full {b : RawBuffer} (h : b.Sound) (hfull : b.writeIndex = b.buffer.length)
    (message : Bytes) :
    (b.append message).buffer.length =
      if preIndex + message.length ≤ b.readIndex then b.buffer.length else b.buffer.length + message.length := by
  have hread := h.read_le_write
  have hpeek : b.peekAllAsString.length = b.writeIndex - b.readIndex := h.length_peekAllAsString
  rw [append, length_overwrite (h.makeEnough_room _), makeEnough_of_full hfull]
  split_ifs with hmove
  · exact length_overwrite (by omega)
  · rw [List.length_append, List.length_replicate]

/-- The size of the vector after a read. -/
theorem length_readFd {b : RawBuffer} (h : b.Sound) (data : Bytes) : (b.readFd data).buffer.length =
    if data.length ≤ b.writeable ∨ preIndex + (data.length - b.writeable) ≤ b.readIndex then b.buffer.length
    else b.writeIndex + data.length := by
  have hwrite := h.write_le_size
  have htail : b.writeIndex + b.writeable = b.buffer.length := Nat.add_sub_cancel' hwrite
  rw [readFd]
  by_cases hfits : data.length ≤ b.writeable
  · rw [if_pos hfits, if_pos (Or.inl hfits)]
    exact length_overwrite (by omega)
  · have htake : (data.take b.writeable).length = b.writeable := by
      rw [List.length_take]
      omega
    have hoverwrite : (overwrite b.buffer b.writeIndex (data.take b.writeable)).length = b.buffer.length :=
      length_overwrite (by omega)
    have hsound : Sound { b with
        buffer := overwrite b.buffer b.writeIndex (data.take b.writeable), writeIndex := b.buffer.length } :=
      ⟨h.pre_le_read, h.read_le_write.trans hwrite, hoverwrite.ge⟩
    have hdrop : (data.drop b.writeable).length = data.length - b.writeable := List.length_drop
    rw [if_neg hfits, length_append_of_full hsound hoverwrite.symm, hdrop, hoverwrite]
    simp only [hfits, false_or]
    split_ifs
    · rfl
    · omega

/-- A read that the vector has to grow for leaves its tail full and the read index where it was. -/
theorem readFd_grows {b : RawBuffer} {data : Bytes} (htail : ¬ data.length ≤ b.writeable)
    (hfront : ¬ preIndex + (data.length - b.writeable) ≤ b.readIndex) (h : b.Sound) :
    (b.readFd data).readIndex = b.readIndex ∧ (b.readFd data).writeable = 0 := by
  have hgrown := length_readFd h data
  have hwrite := h.write_le_size
  have hroom : b.writeIndex + b.writeable = b.buffer.length := Nat.add_sub_cancel' hwrite
  have htake : (data.take b.writeable).length = b.writeable := by
    rw [List.length_take]
    omega
  have hoverwrite : (overwrite b.buffer b.writeIndex (data.take b.writeable)).length = b.buffer.length :=
    length_overwrite (by omega)
  have hdrop : (data.drop b.writeable).length = data.length - b.writeable := List.length_drop
  rw [if_neg (not_or.mpr ⟨htail, hfront⟩)] at hgrown
  rw [writeable, hgrown, readFd, if_neg htail, append, makeEnough_of_full hoverwrite.symm, hdrop, if_neg hfront]
  exact ⟨rfl, by simp only; omega⟩

/-- A read that fits leaves a small vector. -/
theorem ReadFits.small {b : RawBuffer} (h : b.Sound) (hsize : b.buffer.length < 2147483648) {data : Bytes}
    (hfits : b.ReadFits data.length) : (b.readFd data).buffer.length < 2147483648 := by
  rw [length_readFd h]
  split_ifs with hstays
  · exact hsize
  · exact (hfits.resolve_left fun hin => hstays (Or.inl hin)).resolve_left fun hin => hstays (Or.inr hin)

end RawBuffer

end WebServer.Util

namespace WebServer.Http

open WebServer.Foundation
open WebServer.Util (Bytes Buffer Session Epoller FitsInt RawBuffer preIndex initialSize extraSize crlf)

namespace Iteration

/-- The buffer which an execution of the loop body leaves. -/
def rest {β : Type} : Iteration β → Option β
  | again _ buffer => some buffer
  | finished _ _ buffer => some buffer
  | threw => none

end Iteration

namespace HttpContent

/-- The branch for the request line leaves the buffer it is given. -/
theorem requestLineBranch_rest {β : Type} (content : HttpContent) (line : Bytes) (buffer : β) :
    ∀ left ∈ (content.requestLineBranch line buffer).rest, left = buffer := by
  rw [requestLineBranch]
  split <;> simp [Iteration.rest]

/-- The branch for a header line leaves the buffer it is given. -/
theorem headerBranch_rest {β : Type} (content : HttpContent) (text : Bytes) (finish : ℕ) (buffer : β) :
    ∀ left ∈ (content.headerBranch text finish buffer).rest, left = buffer := by
  rw [headerBranch]
  split
  · simp [Iteration.rest]
  · split <;> simp [Iteration.rest]

/-- The loop body moves the read index and leaves the vector alone. -/
theorem parseIteration_vector (content : HttpContent) (buffer : Buffer) :
    ∀ left ∈ (content.parseIteration buffer).rest, left.raw.buffer = buffer.raw.buffer := by
  rw [parseIteration]
  intro left hleft
  split at hleft
  · split at hleft
    · exact congrArg (·.raw.buffer) (requestLineBranch_rest _ _ _ left hleft)
    · exact congrArg (·.raw.buffer) (Option.some.inj hleft).symm
  · split at hleft
    · exact congrArg (·.raw.buffer) (headerBranch_rest _ _ _ _ left hleft)
    · exact congrArg (·.raw.buffer) (Option.some.inj hleft).symm
  · exact congrArg (·.raw.buffer) (Option.some.inj hleft).symm
  · exact congrArg (·.raw.buffer) (Option.some.inj hleft).symm
  · exact congrArg (·.raw.buffer) (Option.some.inj hleft).symm

/-- `ParseContent` leaves the vector alone. -/
theorem parseContent_vector {content content' : HttpContent} {buffer buffer' : Buffer} {parseok : Bool}
    (h : content.parseContent buffer = some (.returned parseok content' buffer')) :
    buffer'.raw.buffer = buffer.raw.buffer := by
  have hloop (fuel : ℕ) (content : HttpContent) (buffer : Buffer)
      (h : parseLoop fuel content buffer = some (.returned parseok content' buffer')) :
      buffer'.raw.buffer = buffer.raw.buffer := by
    induction fuel generalizing content buffer with
    | zero => cases h
    | succ fuel ih =>
      have hvector := content.parseIteration_vector buffer
      rw [parseLoop] at h
      split at h
      · next content'' buffer'' hiteration =>
        rw [hiteration] at hvector
        exact (ih _ _ h).trans (hvector buffer'' rfl)
      · next hiteration =>
        cases h
        rw [hiteration] at hvector
        exact hvector buffer' rfl
      · cases h
  exact hloop _ _ _ h

end HttpContent

namespace HttpServer

/-- A read delivers at most as many bytes as `ReadFd` offers. -/
def Delivers (s : Session) : ConnectionEvent → Prop
  | .readable (some data) _ => data.length ≤ s.inputBuffer.raw.readFdRoom
  | _ => True

instance (s : Session) : (event : ConnectionEvent) → Decidable (Delivers s event)
  | .readable (some _) _ => inferInstanceAs (Decidable (_ ≤ _))
  | .readable none _ => isTrue trivial
  | .writable _ => isTrue trivial
  | .idleShutdown => isTrue trivial

/-- Handle one event that the kernel can report. -/
def deliveredStep (server : HttpServer) (s : Session) (event : ConnectionEvent) : Option Session :=
  if Delivers s event then server.connectionStep s event else none

/-- Every result of type `int` in the read of an event is in range. -/
def IntsFit (s : Session) (event : ConnectionEvent) : Prop :=
  Delivers s event → match event with
    | .readable data _ => ∀ value ∈ s.inputBuffer.raw.readFdInts (data.map List.length), FitsInt value
    | _ => True

/-- The vector of the input buffer stays small in the read of an event. -/
def VectorFits (s : Session) (event : ConnectionEvent) : Prop :=
  Delivers s event → match event with
    | .readable (some data) _ => s.inputBuffer.raw.ReadFits data.length
    | _ => True

/-- The vector of the input buffer has fewer than `2^31` bytes. -/
def SmallInput (s : Session) : Prop := s.inputBuffer.raw.buffer.length < 2147483648

/-- The results of a read are in range exactly if the vector stays small. -/
theorem intsFit_iff_vectorFits (s : Session) (event : ConnectionEvent) (h : SmallInput s) :
    IntsFit s event ↔ VectorFits s event := by
  refine imp_congr_right fun hdelivers => ?_
  cases event with
  | readable data inputs =>
    cases data with
    | none =>
      have hwriteable := RawBuffer.writeableInts_fit s.inputBuffer.sound h
      refine iff_of_true (List.forall_mem_append.mpr ⟨hwriteable, ?_⟩) trivial
      rw [List.forall_mem_singleton]
      decide
    | some data => exact RawBuffer.readFdInts_fit s.inputBuffer.sound h hdelivers
  | writable result => exact Iff.rfl
  | idleShutdown => exact Iff.rfl

/-- Answering does not touch the input buffer. -/
theorem inputBuffer_answer (server : HttpServer) (inputs : CallbackInputs) (parseok : Bool) (s : Session) :
    (server.answer inputs parseok s).inputBuffer = s.inputBuffer := by
  have hdeal (t : Session) : (server.dealWithRequest t.content.request inputs t).inputBuffer = t.inputBuffer := by
    have hsent := Session.sameInput_send t (server.response t.content.request
      inputs.statusCode).text inputs.responseSend
    rw [dealWithRequest]
    split
    · exact (Session.sameInput_shutdown _).inputBuffer.trans hsent.inputBuffer
    · exact hsent.inputBuffer
  have hcomplete (t : Session) : (server.answerComplete inputs t).inputBuffer = t.inputBuffer := by
    rw [answerComplete]
    split
    · exact hdeal t
    · rfl
  rw [answer, hcomplete]
  split
  · rfl
  · exact (Session.sameInput_shutdown _).inputBuffer.trans (Session.sameInput_send s _ _).inputBuffer

/-- `MessageCallback` leaves the vector of the input buffer alone. -/
theorem messageCallback_vector {server : HttpServer} {inputs : CallbackInputs} {s s' : Session}
    (h : server.messageCallback inputs s = some s') : s'.inputBuffer.raw.buffer = s.inputBuffer.raw.buffer := by
  have hparse (t : Session) (ht : server.parseInput inputs t = some s') :
      s'.inputBuffer.raw.buffer = t.inputBuffer.raw.buffer := by
    rw [parseInput] at ht
    split at ht
    · exact Option.some.inj ht ▸ rfl
    · split at ht
      · next parseok content inputBuffer hparse =>
        obtain rfl := Option.some.inj ht
        rw [inputBuffer_answer]
        exact HttpContent.parseContent_vector hparse
      · cases ht
  rw [messageCallback] at h
  refine (hparse _ h).trans ?_
  split <;> rfl

/-- An event whose read fits leaves a small vector. -/
theorem smallInput_step {server : HttpServer} (s : Session) (event : ConnectionEvent) (s' : Session)
    (h : SmallInput s)
    (hfits : VectorFits s event) (hstep : server.deliveredStep s event = some s') : SmallInput s' := by
  rw [deliveredStep] at hstep
  split at hstep
  · next hdelivers =>
    have hread := hfits hdelivers
    cases event with
    | readable data inputs =>
      rw [connectionStep] at hstep
      split at hstep
      · cases data with
        | none =>
          obtain rfl := Option.some.inj hstep
          exact h
        | some data =>
          cases data with
          | nil =>
            obtain rfl := Option.some.inj hstep
            exact h
          | cons first rest =>
            have hvector := messageCallback_vector hstep
            rw [SmallInput, hvector]
            exact hread.small s.inputBuffer.sound h
      · cases hstep
    | writable result =>
      obtain rfl := Option.some.inj hstep
      rw [SmallInput, (Session.sameInput_handleWrite s result).inputBuffer]
      exact h
    | idleShutdown =>
      obtain rfl := Option.some.inj hstep
      rw [SmallInput, (Session.sameInput_shutdown s).inputBuffer]
      exact h
  · cases hstep

/-- A new connection has a small vector. -/
theorem smallInput_started (address fd : ℕ) (now : ℤ) (content : HttpContent) (epoller : Epoller) :
    SmallInput (.started address fd now content epoller) :=
  List.length_replicate.trans_lt (by decide : initialSize < 2147483648)

/-- In every run of a connection all results of type `int` in its reads are in range if and only if
the vector of the input buffer stays below `2^31` bytes in every read. -/
theorem intsFit_iff (server : HttpServer) (address fd : ℕ) (now : ℤ) (content : HttpContent) (epoller : Epoller)
    (events : List ConnectionEvent) :
    Meets server.deliveredStep IntsFit (.started address fd now content epoller) events ↔
      Meets server.deliveredStep VectorFits (.started address fd now content epoller) events :=
  meets_congr_of_kept
    (fun s event s' h hfits hstep => smallInput_step s event s' h
      ((intsFit_iff_vectorFits s event h).mp hfits) hstep)
    (fun s event h => intsFit_iff_vectorFits s event h) (smallInput_started address fd now content epoller) events

/-- A read of some letters, none of them part of a line end. -/
def floodRead (count : ℕ) : ConnectionEvent :=
  .readable (some (List.replicate count 65)) ⟨0, .wouldBlock, .wouldBlock, 0, .kGet, .kUnknown⟩

/-- A connection that has read nothing but letters, always as many as it offered room for. -/
structure Flooded (s : Session) (count : ℕ) : Prop where
  watches : watchesInput s = true
  active : s.isShutdown = false
  line : s.content.parseState = .kParseRequestLine
  letters : ∃ length, s.inputBuffer.bytes = List.replicate length 65
  front : s.inputBuffer.raw.readIndex = preIndex
  size : s.inputBuffer.raw.buffer.length = initialSize + extraSize * count

/-- Without a line end `ParseContent` leaves everything as it is. -/
theorem parseContent_flooded {content : HttpContent} (hline : content.parseState = .kParseRequestLine)
    {buffer : Buffer}
    {length : ℕ} (hletters : buffer.bytes = List.replicate length 65) :
    content.parseContent buffer = some (.returned true content buffer) := by
  have hnone : searchIdx crlf buffer.bytes = none := by
    refine (searchIdx_eq_none (by decide)).mpr fun hin => ?_
    have hmem : 13 ∈ List.replicate length (65 : UInt8) := hletters ▸ hin.subset List.mem_cons_self
    exact absurd (List.eq_of_mem_replicate hmem) (by decide)
  have hiteration : content.parseIteration buffer = .finished true content buffer := by
    simp only [HttpContent.parseIteration, hline, Buffer.findCRLF_eq_none hnone]
  rw [HttpContent.parseContent, HttpContent.parseLoop, hiteration]

/-- Reading letters changes nothing but the input buffer. -/
theorem handleMessage_flooded {server : HttpServer} (hauto : server.autoCloseIdleconnection = false) {s : Session}
    {count : ℕ} (h : Flooded s count) (inputs : CallbackInputs) {length : ℕ} (hpos : 0 < length) :
    server.handleMessage inputs s (some (List.replicate length 65)) =
      some { s with inputBuffer := s.inputBuffer.readFd (List.replicate length 65) } := by
  obtain ⟨already, hletters⟩ := h.letters
  obtain ⟨length, rfl⟩ := Nat.exists_eq_add_one_of_ne_zero hpos.ne'
  have hbytes : (s.inputBuffer.readFd (List.replicate (length + 1) 65)).bytes =
      List.replicate (already + (length + 1)) 65 := by
    rw [Buffer.bytes_readFd, hletters, List.replicate_append_replicate]
  have hopen : s.content.getCompleteRequest = false := by simp [HttpContent.getCompleteRequest, h.line]
  have hactive :
      ¬ ({ s with inputBuffer := s.inputBuffer.readFd (List.replicate (length + 1) 65) } : Session).isShutdown =
        true :=
    Bool.not_eq_true _ ▸ h.active
  have hparse := parseContent_flooded h.line hbytes
  change server.messageCallback inputs
    { s with inputBuffer := s.inputBuffer.readFd (List.replicate (length + 1) 65) } = _
  rw [messageCallback, hauto, if_neg Bool.false_ne_true, parseInput, if_neg hactive]
  simp only [hparse]
  exact congrArg some (answerComplete_of_incomplete hopen)

/-- A read that uses all the room makes the vector larger by the size of the stack area. -/
theorem flooded_step {server : HttpServer} (hauto : server.autoCloseIdleconnection = false) {s : Session}
    {count length : ℕ}
    (h : Flooded s count) (hsmall : s.inputBuffer.raw.writeable < extraSize)
    (hall : length = s.inputBuffer.raw.writeable + extraSize) :
    ∃ s', server.deliveredStep s (floodRead length) = some s' ∧ Flooded s' (count + 1) ∧
      s'.inputBuffer.raw.writeable = 0 := by
  have hsound := s.inputBuffer.sound
  have hwrite : s.inputBuffer.raw.writeIndex + s.inputBuffer.raw.writeable = s.inputBuffer.raw.buffer.length :=
    Nat.add_sub_cancel' hsound.write_le_size
  have hlength : (List.replicate length (65 : UInt8)).length = length := List.length_replicate
  have hextra : 0 < extraSize := by decide
  have htail : ¬ (List.replicate length (65 : UInt8)).length ≤ s.inputBuffer.raw.writeable := by omega
  have hfront : ¬ preIndex + ((List.replicate length (65 : UInt8)).length - s.inputBuffer.raw.writeable) ≤
      s.inputBuffer.raw.readIndex := by
    rw [h.front]
    omega
  obtain ⟨hreadIndex, hfull⟩ := RawBuffer.readFd_grows htail hfront hsound
  have hsize := RawBuffer.length_readFd hsound (List.replicate length (65 : UInt8))
  rw [if_neg (not_or.mpr ⟨htail, hfront⟩), hlength] at hsize
  have hdelivers : Delivers s (floodRead length) := by
    change (List.replicate length (65 : UInt8)).length ≤ s.inputBuffer.raw.readFdRoom
    rw [hlength, RawBuffer.readFdRoom, if_pos hsmall]
    exact hall.le
  obtain ⟨already, hletters⟩ := h.letters
  have hbytes : (s.inputBuffer.readFd (List.replicate length 65)).bytes =
      List.replicate (already + length) 65 := by
    rw [Buffer.bytes_readFd, hletters, List.replicate_append_replicate]
  refine ⟨{ s with inputBuffer := s.inputBuffer.readFd (List.replicate length 65) }, ?_,
    ⟨h.watches, h.active, h.line, ⟨_, hbytes⟩, hreadIndex.trans h.front, ?_⟩, hfull⟩
  · rw [deliveredStep, if_pos hdelivers, floodRead, connectionStep, if_pos h.watches]
    exact handleMessage_flooded hauto h _ (by omega)
  · have hbefore := h.size
    change (s.inputBuffer.raw.readFd _).buffer.length = _
    rw [hsize, Nat.mul_succ]
    omega

/-- Any number of reads can follow the first one in this way. -/
theorem flooded_run {server : HttpServer} (hauto : server.autoCloseIdleconnection = false) {s : Session} {count : ℕ}
    (h : Flooded s count) (hroom : s.inputBuffer.raw.writeable = 0) (reads : ℕ) :
    ∃ s', run server.deliveredStep s (List.replicate reads (floodRead extraSize)) = some s' ∧
      Flooded s' (count + reads) ∧ s'.inputBuffer.raw.writeable = 0 := by
  induction reads generalizing s count with
  | zero => exact ⟨s, rfl, h, hroom⟩
  | succ reads ih =>
    have hextra : 0 < extraSize := by decide
    have hall : extraSize = s.inputBuffer.raw.writeable + extraSize := by rw [hroom, Nat.zero_add]
    obtain ⟨m, hfirst, hm, hfull⟩ := flooded_step hauto h (hroom.trans_lt hextra) hall
    obtain ⟨s', hrest, hs', hfull'⟩ := ih hm hfull
    rw [Nat.add_right_comm, Nat.add_assoc] at hs'
    exact ⟨s', run_cons_eq_some.mpr ⟨m, hfirst, hrest⟩, hs', hfull'⟩

/-- A new connection has read nothing. -/
theorem flooded_started : Flooded (.started 0 5 0 (.new .kGet .kUnknown) .new) 0 where
  watches := watchesInput_started rfl rfl
  active := rfl
  line := rfl
  letters := ⟨0, Buffer.bytes_new⟩
  front := rfl
  size := List.length_replicate

/-- A read that would take the vector beyond `2^31` bytes has a result out of range. -/
theorem Flooded.not_intsFit {s : Session} {count : ℕ} (h : Flooded s count)
    (hroom : s.inputBuffer.raw.writeable = 0)
    (hsmall : initialSize + extraSize * count < 2147483648)
    (hlarge : 2147483648 ≤ initialSize + extraSize * (count + 1)) :
    Delivers s (floodRead extraSize) ∧ ¬ IntsFit s (floodRead extraSize) := by
  have hfront := h.front
  have hwrite : s.inputBuffer.raw.writeIndex + s.inputBuffer.raw.writeable = s.inputBuffer.raw.buffer.length :=
    Nat.add_sub_cancel' s.inputBuffer.sound.write_le_size
  have hlength : (List.replicate extraSize (65 : UInt8)).length = extraSize := List.length_replicate
  have hdelivers : Delivers s (floodRead extraSize) := by
    change (List.replicate extraSize (65 : UInt8)).length ≤ s.inputBuffer.raw.readFdRoom
    rw [hlength, RawBuffer.readFdRoom, hroom]
    decide
  refine ⟨hdelivers, fun hints => ?_⟩
  have hfits : s.inputBuffer.raw.ReadFits (List.replicate extraSize (65 : UInt8)).length :=
    (intsFit_iff_vectorFits s _ (h.size.trans_lt hsmall)).mp hints hdelivers
  have hextra : 0 < extraSize := by decide
  rw [Nat.mul_succ, ← Nat.add_assoc, ← h.size] at hlarge
  rw [hlength, RawBuffer.ReadFits] at hfits
  omega

/-- The peer fills the new buffer and the stack area at once, and then the stack area in every read. -/
theorem flood_run (reads : ℕ) : ∃ s, run (defaultServer false).deliveredStep
    (.started 0 5 0 (.new .kGet .kUnknown) .new)
      (floodRead (1016 + extraSize) :: List.replicate reads (floodRead extraSize)) = some s ∧
    Flooded s (0 + 1 + reads) ∧ s.inputBuffer.raw.writeable = 0 := by
  have hroom : (Session.started 0 5 0 (.new .kGet .kUnknown) .new).inputBuffer.raw.writeable = 1016 := by
    decide +kernel
  have hextra : 1016 < extraSize := by decide
  obtain ⟨m, hfirst, hm, hfull⟩ := @flooded_step (defaultServer false) rfl _ _ _ flooded_started
    (hroom.trans_lt hextra)
    (congrArg (· + extraSize) hroom.symm)
  obtain ⟨s, hrest, hs, hfull'⟩ := @flooded_run (defaultServer false) rfl _ _ hm hfull reads
  exact ⟨s, run_cons_eq_some.mpr ⟨m, hfirst, hrest⟩, hs, hfull'⟩

/-- After 32767 reads from a peer that never sends a line end, the next one has a result out of range. -/
theorem not_intsFit_flood : ∃ s, run (defaultServer false).deliveredStep
    (.started 0 5 0 (.new .kGet .kUnknown) .new)
      (floodRead (1016 + extraSize) :: List.replicate 32766 (floodRead extraSize)) = some s ∧
    Delivers s (floodRead extraSize) ∧ ¬ IntsFit s (floodRead extraSize) ∧
      ¬ Meets (defaultServer false).deliveredStep IntsFit (.started 0 5 0 (.new .kGet .kUnknown) .new)
        (floodRead (1016 + extraSize) :: List.replicate 32766 (floodRead extraSize) ++ [floodRead extraSize]) := by
  obtain ⟨s, hrun, hs, hfull⟩ := flood_run 32766
  have hbounds : initialSize + extraSize * (0 + 1 + 32766) < 2147483648 ∧
      2147483648 ≤ initialSize + extraSize * (0 + 1 + 32766 + 1) := by decide
  obtain ⟨hdelivers, hout⟩ := hs.not_intsFit hfull hbounds.1 hbounds.2
  exact ⟨s, hrun, hdelivers, hout, fun hmeets => hout (hmeets.at_run hrun)⟩

end HttpServer

end WebServer.Http
