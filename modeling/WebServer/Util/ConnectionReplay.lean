import WebServer.Util.ConnectionCallbacks

/-!
# Replaying a connection with another epoller

What the functions of `TcpConnection` do to its data members, and which calls they make, does not
depend on the epoller of its loop or on the calls made before: `Update()` tells the channel its
new state whatever the epoller contains. `Replays` relates a connection to one with the same data
members, another epoller and a longer record; every function keeps it.
-/

namespace WebServer.Util

open WebServer.Http (HttpContent)

namespace Epoller

/-- What `Update` does to the channel does not depend on the epoller. -/
theorem update_channel_congr (epoller other : Epoller) (channel : Channel) :
    (other.update channel).2 = (epoller.update channel).2 := by
  rw [update, update]
  split
  · rfl
  · rfl
  · split
    · rfl
    · rfl

end Epoller

namespace Session

/-- The same data members, with any epoller and with these calls in front of the record. -/
def Replays (log : List Call) (s t : Session) : Prop :=
  ∃ epoller, t = { toTcpConnection := s.toTcpConnection, epoller, calls := log ++ s.calls }

namespace Replays

variable {log : List Call} {s t : Session}

/-- Only the data members and the record matter. -/
theorem of_eq (hconnection : t.toTcpConnection = s.toTcpConnection) (hcalls : t.calls = log ++ s.calls) :
    Replays log s t := by
  obtain ⟨connection, epoller, calls⟩ := t
  obtain rfl : connection = s.toTcpConnection := hconnection
  obtain rfl : calls = log ++ s.calls := hcalls
  exact ⟨epoller, rfl⟩

/-- The data members are the same. -/
theorem connection (h : Replays log s t) : t.toTcpConnection = s.toTcpConnection := by
  obtain ⟨epoller, rfl⟩ := h
  rfl

/-- The record is longer. -/
theorem calls (h : Replays log s t) : t.calls = log ++ s.calls := by
  obtain ⟨epoller, rfl⟩ := h
  rfl

/-- One is shut down if the other one is. -/
theorem isShutdown (h : Replays log s t) : t.isShutdown = s.isShutdown := by
  rw [Session.isShutdown, h.connection, Session.isShutdown]

/-- The same call is recorded. -/
theorem record (h : Replays log s t) (call : Call) : Replays log (s.record call) (t.record call) := by
  obtain ⟨epoller, rfl⟩ := h
  exact ⟨epoller, by rw [Session.record, record_calls, List.append_assoc]; rfl⟩

/-- The same events are set. -/
theorem setEvent (h : Replays log s t) (event : Events) : Replays log (s.setEvent event) (t.setEvent event) := by
  obtain ⟨epoller, rfl⟩ := h
  have hchannel := s.epoller.update_channel_congr epoller { s.channel with event }
  exact ⟨(epoller.update { s.channel with event }).1, by simp only [Session.setEvent, hchannel]⟩

/-- The same state is set. -/
theorem setState (h : Replays log s t) (state : ConnectionState) :
    Replays log { s with state } { t with state } := by
  obtain ⟨epoller, rfl⟩ := h
  exact ⟨epoller, rfl⟩

/-- The same output is buffered. -/
theorem setOutput (h : Replays log s t) (outputBuffer : IntBuffer) :
    Replays log (s.setOutput outputBuffer) (t.setOutput outputBuffer) := by
  obtain ⟨epoller, rfl⟩ := h
  exact ⟨epoller, rfl⟩

/-- The same time is set. -/
theorem setTimestamp (h : Replays log s t) (timestamp : ℤ) :
    Replays log { s with timestamp } { t with timestamp } := by
  obtain ⟨epoller, rfl⟩ := h
  exact ⟨epoller, rfl⟩

/-- The same input is buffered. -/
theorem setInput (h : Replays log s t) (inputBuffer : Buffer) :
    Replays log { s with inputBuffer } { t with inputBuffer } := by
  obtain ⟨epoller, rfl⟩ := h
  exact ⟨epoller, rfl⟩

/-- The same content is set. -/
theorem setContent (h : Replays log s t) (content : HttpContent) :
    Replays log { s with content } { t with content } := by
  obtain ⟨epoller, rfl⟩ := h
  exact ⟨epoller, rfl⟩

/-- `ConnectionEstablished`. -/
theorem connectionEstablished (h : Replays log s t) :
    Replays log s.connectionEstablished t.connectionEstablished := by
  have hevent := (h.setState .kConnected).setEvent { s.channel.event with epollin := true }
  obtain ⟨epoller, rfl⟩ := h
  exact hevent

/-- `Shutdown`. -/
theorem shutdown (h : Replays log s t) : Replays log s.shutdown t.shutdown := by
  have hrequested := (h.setState .kDisconnecting).record .shutdown
  obtain ⟨epoller, rfl⟩ := h
  simp only [Session.shutdown]
  split
  · exact hrequested
  · exact hrequested.record _

/-- `HandleClose`. -/
theorem handleClose (h : Replays log s t) : Replays log s.handleClose t.handleClose :=
  ((h.setState .kDisconnected).setEvent .none).record .close

/-- Output that waits in the buffer. -/
theorem bufferOutput (h : Replays log s t) (outputBuffer : IntBuffer) :
    Replays log (s.bufferOutput outputBuffer) (t.bufferOutput outputBuffer) := by
  have hbuffered := h.setOutput outputBuffer
  obtain ⟨epoller, rfl⟩ := h
  simp only [Session.bufferOutput]
  split
  · exact hbuffered
  · exact hbuffered.setEvent { s.channel.event with epollout := true }

/-- Buffering what was not sent. -/
theorem bufferUnsent (h : Replays log s t) (unsent : Bytes) :
    Replays log (s.bufferUnsent unsent) (t.bufferUnsent unsent) := by
  have hbuffered := h.bufferOutput (s.outputBuffer.append unsent)
  obtain ⟨epoller, rfl⟩ := h
  simp only [Session.bufferUnsent]
  split
  · exact hbuffered
  · exact ⟨epoller, rfl⟩

/-- `Send` behind the record of the call. -/
theorem sendOrBuffer (h : Replays log s t) (message : Bytes) (len : ℤ) (result : SendResult) :
    Replays log (s.sendOrBuffer message len result) (t.sendOrBuffer message len result) := by
  have hsent (accepted : Bytes) := h.record (.kernelSend accepted)
  have hbuffered := h.bufferUnsent (remaining message len 0)
  obtain ⟨epoller, rfl⟩ := h
  simp only [Session.sendOrBuffer]
  split
  · cases result with
    | accepted count => exact (hsent _).bufferUnsent _
    | wouldBlock => exact hsent []
    | failed => exact hsent []
  · exact hbuffered

/-- `Send`. -/
theorem send (h : Replays log s t) (message : Bytes) (result : SendResult) :
    Replays log (s.send message result) (t.send message result) :=
  (h.record (.send message)).sendOrBuffer message (wrap message.length) result

/-- The end of `HandleWrite`. -/
theorem finishWrite (h : Replays log s t) : Replays log s.finishWrite t.finishWrite := by
  have hdisabled := h.setEvent { s.channel.event with epollout := false }
  obtain ⟨epoller, rfl⟩ := h
  simp only [Session.finishWrite]
  split
  · split
    · exact hdisabled.shutdown
    · exact hdisabled
  · exact ⟨epoller, rfl⟩

/-- `HandleWrite`. -/
theorem handleWrite (h : Replays log s t) (result : SendResult) :
    Replays log (s.handleWrite result) (t.handleWrite result) := by
  have hsent (accepted : Bytes) := h.record (.kernelSend accepted)
  obtain ⟨epoller, rfl⟩ := h
  simp only [Session.handleWrite]
  split
  · cases result with
    | accepted count => exact ((hsent _).setOutput _).finishWrite
    | wouldBlock => exact hsent []
    | failed => exact hsent []
  · exact ⟨epoller, rfl⟩

/-- The calls of a callback. -/
theorem callAll (h : Replays log s t) (calls : List UserCall) :
    Replays log (s.callAll calls) (t.callAll calls) := by
  induction calls generalizing s t with
  | nil => exact h
  | cons call calls ih =>
    apply ih
    cases call with
    | send message result => exact h.send message result
    | shutdown => exact h.shutdown
    | change timestamp inputBuffer content =>
      exact ((h.setTimestamp timestamp).setInput inputBuffer).setContent content

/-- `ConnectionEstablished` with the connect callback. -/
theorem establish (h : Replays log s t) (calls : List UserCall) :
    Replays log (s.establish calls) (t.establish calls) :=
  h.connectionEstablished.callAll calls

end Replays

end Session

end WebServer.Util
