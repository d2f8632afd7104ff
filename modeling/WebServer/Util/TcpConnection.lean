import WebServer.Http.Content
import WebServer.Util.Epoller
import WebServer.Util.IntBuffer

/-!
# A connection and the calls it makes

The functions of `TcpConnection` act on its data members, on the epoller of its loop and on
the outside world. `Session` puts the connection together with the epoller and with the
record of the calls made so far: the messages handed to `Send`, the bytes each `send()`
accepted, the calls of `Shutdown`, `::shutdown` and the close callback. The result of a
`send()` is chosen by the environment and is an argument of the function that makes the call.

What waits for the peer in `output_buffer_` has no bound, so this buffer keeps its indices in
`int`, and `Send` counts in `int`. The order of the calls does not depend on that; what does
is subject to `SendFits`.
-/

namespace WebServer.Util

open WebServer.Http (HttpContent)

/-- `TcpConnection::ConnectionState`. -/
inductive ConnectionState where
  | kConnected
  | kDisconnected
  | kDisconnecting
deriving DecidableEq

/-- The data members of `TcpConnection`; `timestamp_` counts microseconds. -/
structure TcpConnection where
  state : ConnectionState
  channel : Channel
  timestamp : ℤ
  inputBuffer : Buffer
  outputBuffer : IntBuffer
  content : HttpContent

/-- The result of a `send()`: bytes accepted, at most as many as offered, or an error. -/
inductive SendResult where
  | accepted (count : ℕ)
  | wouldBlock
  | failed
deriving DecidableEq

/-- What a connection does to the outside world. -/
inductive Call where
  | send (message : Bytes)
  | kernelSend (accepted : Bytes)
  | shutdown
  | kernelShutdown (buffered : Bytes)
  | close
deriving DecidableEq

/-- A connection, the epoller of its loop, and the calls made so far. -/
structure Session extends TcpConnection where
  epoller : Epoller
  calls : List Call

namespace Session

/-- The constructor, with the time of construction; the content is constructed over
indeterminate members of its request. -/
def new (address fd : ℕ) (now : ℤ) (content : HttpContent) (epoller : Epoller) : Session where
  state := .kDisconnected
  channel := .new address fd
  timestamp := now
  inputBuffer := .new
  outputBuffer := .new
  content := content
  epoller := epoller
  calls := []

/-- Add a call to the record. -/
def record (s : Session) (call : Call) : Session := { s with calls := s.calls ++ [call] }

/-- A record entry changes nothing but the record. -/
@[simp] theorem record_toTcpConnection (s : Session) (call : Call) :
    (s.record call).toTcpConnection = s.toTcpConnection := rfl

/-- A record entry does not concern the epoller. -/
@[simp] theorem record_epoller (s : Session) (call : Call) : (s.record call).epoller = s.epoller := rfl

/-- A new record entry stands at the end. -/
@[simp] theorem record_calls (s : Session) (call : Call) : (s.record call).calls = s.calls ++ [call] := rfl

/-- Change the events of the channel and call `Update()`. -/
def setEvent (s : Session) (event : Events) : Session :=
  let updated := s.epoller.update { s.channel with event }
  { s with epoller := updated.1, channel := updated.2 }

/-- The channel has the events that were set. -/
@[simp] theorem setEvent_event (s : Session) (event : Events) : (s.setEvent event).channel.event = event := by
  obtain ⟨state, hstate, -⟩ := s.epoller.update_channel { s.channel with event }
  rw [setEvent, hstate]

/-- `Update()` does not change the descriptor of the channel. -/
@[simp] theorem setEvent_fd (s : Session) (event : Events) : (s.setEvent event).channel.fd = s.channel.fd := by
  obtain ⟨state, hstate, -⟩ := s.epoller.update_channel { s.channel with event }
  rw [setEvent, hstate]

/-- `Update()` does not change the output buffer. -/
@[simp] theorem setEvent_outputBuffer (s : Session) (event : Events) :
    (s.setEvent event).outputBuffer = s.outputBuffer := rfl

/-- The connection with another output buffer. -/
def setOutput (s : Session) (outputBuffer : IntBuffer) : Session := { s with outputBuffer }

/-- The output buffer is the one that was set. -/
@[simp] theorem setOutput_outputBuffer (s : Session) (outputBuffer : IntBuffer) :
    (s.setOutput outputBuffer).outputBuffer = outputBuffer := rfl

/-- Setting the output buffer is no call. -/
@[simp] theorem setOutput_calls (s : Session) (outputBuffer : IntBuffer) :
    (s.setOutput outputBuffer).calls = s.calls := rfl

/-- `EnableRead()` of the channel. -/
def enableRead (s : Session) : Session := s.setEvent { s.channel.event with epollin := true }

/-- `EnableWrite()` of the channel. -/
def enableWrite (s : Session) : Session := s.setEvent { s.channel.event with epollout := true }

/-- `DisableWrite()` of the channel. -/
def disableWrite (s : Session) : Session := s.setEvent { s.channel.event with epollout := false }

/-- `DisableAll()` of the channel. -/
def disableAll (s : Session) : Session := s.setEvent .none

/-- `ConnectionEstablished()`, up to the call of the connect callback. -/
def connectionEstablished (s : Session) : Session := enableRead { s with state := .kConnected }

/-- A connection which its loop has just established. -/
def started (address fd : ℕ) (now : ℤ) (content : HttpContent) (epoller : Epoller) : Session :=
  (new address fd now content epoller).connectionEstablished

/-- `ConnectionDestructor()`. -/
def connectionDestructor (s : Session) : Session :=
  let s := if s.state = .kDisconnecting ∨ s.state = .kConnected then disableAll { s with state := .kDisconnected }
    else s
  let removed := s.epoller.remove s.channel
  { s with epoller := removed.1, channel := removed.2 }

/-- `HandleClose()`. -/
def handleClose (s : Session) : Session := (disableAll { s with state := .kDisconnected }).record .close

/-- `Shutdown()`. -/
def shutdown (s : Session) : Session :=
  let requested := { s with state := .kDisconnecting }.record .shutdown
  if s.channel.isWriting then requested else requested.record (.kernelShutdown s.outputBuffer.bytes)

/-- The end of `HandleWrite`: once everything is sent, writing is disabled and a shutdown that
waited for it is completed. -/
def finishWrite (s : Session) : Session :=
  if s.outputBuffer.readable = 0 then
    if s.state = .kDisconnecting then s.disableWrite.shutdown else s.disableWrite
  else s

/-- `HandleWrite()` when `send()` returned: what was accepted leaves the output buffer. -/
def writeOutput (s : Session) : SendResult → Session
  | .accepted count =>
    let accepted := s.outputBuffer.bytes.take count
    finishWrite ((s.record (.kernelSend accepted)).setOutput (s.outputBuffer.retrieve accepted.length))
  | .wouldBlock => s.record (.kernelSend [])
  | .failed => s.record (.kernelSend [])

/-- `HandleWrite()`. -/
def handleWrite (s : Session) (result : SendResult) : Session :=
  if s.channel.isWriting then s.writeOutput result else s

/-- The bytes offered in `send(connfd_, message, len, 0)`, where a negative `len` becomes a very large size. The
kernel accepts fewer than `2^31` bytes at once. -/
def offered (message : Bytes) (len : ℤ) : Bytes := if 0 ≤ len then message.take len.toNat else message

/-- The bytes from `message + send_size` on, as many as `remaining` says. -/
def remaining (message : Bytes) (len : ℤ) (sendSize : ℕ) : Bytes :=
  (message.drop sendSize).take (wrap (len - sendSize)).toNat

/-- Output waits in the buffer, and writing is enabled for it. -/
def bufferOutput (s : Session) (outputBuffer : IntBuffer) : Session :=
  if s.channel.isWriting then s.setOutput outputBuffer else (s.setOutput outputBuffer).enableWrite

/-- The end of `Send`: what was not sent is buffered. -/
def bufferUnsent (s : Session) (unsent : Bytes) : Session :=
  if 0 < unsent.length then s.bufferOutput (s.outputBuffer.append unsent) else s

/-- `Send(message, len)` when the direct `send()` returned: an error ends the call. -/
def sendDirectly (s : Session) (message : Bytes) (len : ℤ) : SendResult → Session
  | .accepted count =>
    let sent := (offered message len).take count
    (s.record (.kernelSend sent)).bufferUnsent (remaining message len sent.length)
  | .wouldBlock => s.record (.kernelSend [])
  | .failed => s.record (.kernelSend [])

/-- `Send(message, len)` behind the record of the call: a direct `send()` if nothing waits. -/
def sendOrBuffer (s : Session) (message : Bytes) (len : ℤ) (result : SendResult) : Session :=
  if ¬ s.channel.isWriting ∧ s.outputBuffer.readable = 0 then s.sendDirectly message len result
  else s.bufferUnsent (remaining message len 0)

/-- `Send(message)`, which casts the length to `int`. -/
def send (s : Session) (message : Bytes) (result : SendResult) : Session :=
  (s.record (.send message)).sendOrBuffer message (wrap message.length) result

/-- The next `Send` tries a direct `send()`. -/
def SendsDirectly (s : Session) : Prop := ¬ s.channel.isWriting ∧ s.outputBuffer.readable = 0

instance (s : Session) : Decidable s.SendsDirectly := inferInstanceAs (Decidable (_ ∧ _))

/-- What `Send` leaves to the output buffer of a message. -/
def unsent (s : Session) (message : Bytes) (result : SendResult) : Bytes :=
  if s.SendsDirectly then
    match result with
    | .accepted count => message.drop count
    | .wouldBlock => []
    | .failed => []
  else message

/-- A direct `send()` leaves what was not accepted. -/
theorem unsent_accepted {s : Session} (h : s.SendsDirectly) (message : Bytes) (count : ℕ) :
    s.unsent message (.accepted count) = message.drop count := if_pos h

/-- Without a direct `send()` all of the message is left. -/
theorem unsent_buffered {s : Session} (h : ¬ s.SendsDirectly) (message : Bytes) (result : SendResult) :
    s.unsent message result = message := if_neg h

/-- No more than the message is left. -/
theorem length_unsent_le (s : Session) (message : Bytes) (result : SendResult) :
    (s.unsent message result).length ≤ message.length := by
  by_cases hdirect : s.SendsDirectly
  · have hnone : s.unsent message .wouldBlock = [] := if_pos hdirect
    have hnone' : s.unsent message .failed = [] := if_pos hdirect
    cases result with
    | accepted count =>
      rw [unsent_accepted hdirect]
      exact (List.drop_sublist _ _).length_le
    | wouldBlock =>
      rw [hnone]
      exact Nat.zero_le _
    | failed =>
      rw [hnone']
      exact Nat.zero_le _
  · rw [unsent_buffered hdirect]

/-- The length of a message fits an `int`, and so do the results when the rest of it is appended to the output
buffer. -/
def SendFits (s : Session) (message : Bytes) (result : SendResult) : Prop :=
  message.length < 2147483648 ∧
    (s.unsent message result ≠ [] → s.outputBuffer.AppendFits (s.unsent message result).length)

instance (s : Session) (message : Bytes) (result : SendResult) : Decidable (s.SendFits message result) :=
  inferInstanceAs (Decidable (_ ∧ (_ → _)))

/-- The whole of a message remains whose length fits an `int`. -/
theorem remaining_zero {message : Bytes} (h : message.length < 2147483648) :
    remaining message (wrap message.length) 0 = message := by
  have hlen : wrap message.length = message.length := wrap_eq (by omega) (by omega)
  have hremaining : (wrap (wrap message.length - (0 : ℕ))).toNat = message.length := by
    rw [hlen, wrap_eq (by omega) (by omega)]
    omega
  rw [remaining, hremaining, List.drop_zero, List.take_length]

/-- A direct `send()` is offered a message whose length fits an `int`, and the rest remains. -/
theorem sendDirectly_accepted {s : Session} {message : Bytes} (h : message.length < 2147483648) (count : ℕ) :
    s.sendDirectly message (wrap message.length) (.accepted count) =
      (s.record (.kernelSend (message.take count))).bufferUnsent (message.drop count) := by
  have hlen : wrap message.length = message.length := wrap_eq (by omega) (by omega)
  have hoffered : offered message (wrap message.length) = message := by
    rw [hlen, offered, if_pos (by omega), Int.toNat_natCast, List.take_length]
  have hsent : (message.take count).length ≤ message.length := by
    rw [List.length_take]
    exact Nat.min_le_right _ _
  have hremaining : (wrap (wrap message.length - ((message.take count).length : ℕ))).toNat =
      message.length - (message.take count).length := by
    rw [hlen, wrap_eq (by omega) (by omega)]
    omega
  have hrest : message.drop (message.take count).length = message.drop count := by
    rw [List.length_take]
    rcases Nat.le_total count message.length with hpart | hall
    · rw [Nat.min_eq_left hpart]
    · rw [Nat.min_eq_right hall, List.drop_length, List.drop_eq_nil_of_le hall]
  rw [sendDirectly, hoffered, remaining, hremaining, ← List.length_drop, List.take_length, hrest]

/-- What `Send` does with a message whose length fits an `int`. -/
theorem send_eq {s : Session} {message : Bytes} {result : SendResult} (h : message.length < 2147483648) :
    s.send message result =
      if s.SendsDirectly then
        match result with
        | .accepted count =>
          ((s.record (.send message)).record (.kernelSend (message.take count))).bufferUnsent (message.drop count)
        | .wouldBlock => (s.record (.send message)).record (.kernelSend [])
        | .failed => (s.record (.send message)).record (.kernelSend [])
      else (s.record (.send message)).bufferUnsent message := by
  rw [send, sendOrBuffer, remaining_zero h]
  by_cases hdirect : s.SendsDirectly
  · rw [if_pos hdirect, if_pos (by exact hdirect)]
    cases result with
    | accepted count => exact sendDirectly_accepted h count
    | wouldBlock => rfl
    | failed => rfl
  · rw [if_neg hdirect, if_neg (by exact hdirect)]

/-- Unsent bytes wait in the output buffer, and writing is enabled. -/
theorem bufferUnsent_waits {s : Session} {unsent : Bytes} (h : unsent ≠ []) :
    (s.bufferUnsent unsent).outputBuffer = s.outputBuffer.append unsent ∧
      (s.bufferUnsent unsent).channel.isWriting = true := by
  have hbuffered (outputBuffer : IntBuffer) : (s.bufferOutput outputBuffer).outputBuffer = outputBuffer ∧
      (s.bufferOutput outputBuffer).channel.isWriting = true := by
    rw [bufferOutput]
    split
    · next hwriting => exact ⟨rfl, hwriting⟩
    · exact ⟨rfl, by simp [enableWrite, Channel.isWriting]⟩
  rw [bufferUnsent, if_pos (List.length_pos_of_ne_nil h)]
  exact hbuffered _

/-- A message of which the kernel takes nothing waits in the output buffer. -/
theorem send_refused {s : Session} {message : Bytes} (h : message.length < 2147483648) (hne : message ≠ []) :
    (s.send message (.accepted 0)).outputBuffer = s.outputBuffer.append message ∧
      (s.send message (.accepted 0)).channel.isWriting = true := by
  rw [send_eq h]
  split
  · exact bufferUnsent_waits hne
  · exact bufferUnsent_waits hne

/-- `Shutdown` does not touch the output buffer. -/
theorem outputBuffer_shutdown (s : Session) : s.shutdown.outputBuffer = s.outputBuffer := by
  rw [shutdown]
  split <;> rfl

/-- The end of a write event does not touch the output buffer. -/
theorem outputBuffer_finishWrite (s : Session) : s.finishWrite.outputBuffer = s.outputBuffer := by
  rw [finishWrite]
  split
  · split
    · exact outputBuffer_shutdown _
    · rfl
  · rfl

/-- `IsShutdown()`. -/
def isShutdown (s : Session) : Bool := s.state = .kDisconnecting

/-- The part of a connection which the output functions leave alone. -/
structure SameInput (s s' : Session) : Prop where
  state : s'.state = s.state
  inputBuffer : s'.inputBuffer = s.inputBuffer
  content : s'.content = s.content

/-- Another output buffer does not touch the input side. -/
theorem sameInput_bufferOutput (s : Session) (outputBuffer : IntBuffer) :
    SameInput s (s.bufferOutput outputBuffer) := by
  rw [bufferOutput]
  split
  · exact ⟨rfl, rfl, rfl⟩
  · exact ⟨rfl, rfl, rfl⟩

/-- Buffering output does not touch the input side. -/
theorem sameInput_bufferUnsent (s : Session) (unsent : Bytes) : SameInput s (s.bufferUnsent unsent) := by
  rw [bufferUnsent]
  split
  · exact sameInput_bufferOutput s _
  · exact ⟨rfl, rfl, rfl⟩

/-- A record entry does not touch the input side. -/
theorem SameInput.of_record {s s' : Session} {call : Call} (h : SameInput (s.record call) s') : SameInput s s' :=
  ⟨h.state, h.inputBuffer, h.content⟩

/-- `Send` does not touch the input side. -/
theorem sameInput_send (s : Session) (message : Bytes) (result : SendResult) :
    SameInput s (s.send message result) := by
  rw [send]
  apply SameInput.of_record
  generalize s.record (.send message) = recorded
  generalize wrap message.length = len
  rw [sendOrBuffer]
  split
  · cases result with
    | accepted count =>
      rw [sendDirectly]
      exact (sameInput_bufferUnsent _ (remaining message len ((offered message len).take count).length)).of_record
    | wouldBlock => exact ⟨rfl, rfl, rfl⟩
    | failed => exact ⟨rfl, rfl, rfl⟩
  · exact sameInput_bufferUnsent recorded (remaining message len 0)

/-- `Shutdown` changes the state and nothing else of the input side. -/
theorem sameInput_shutdown (s : Session) : SameInput { s with state := .kDisconnecting } s.shutdown := by
  rw [shutdown]
  split
  · exact ⟨rfl, rfl, rfl⟩
  · exact ⟨rfl, rfl, rfl⟩

end Session

end WebServer.Util
