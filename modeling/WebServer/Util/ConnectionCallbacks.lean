import WebServer.Util.ConnectionOrder

/-!
# Connections under any callbacks

The user of a `TcpServer` sets the connect callback and the message callback. Whatever they
do with the connection they are given is a list of calls of its public functions. None of
these calls changes which descriptor a connection has, what its epoller says about other
descriptors, or that the connection is watched for input; only `ConnectionEstablished`,
`HandleClose` and `ConnectionDestructor` move it from one registration to another.
-/

namespace WebServer.Util

open WebServer.Http (HttpContent)

/-- A call of a callback on its connection: `Send`, `Shutdown`, or a change of what the callback
is given access to, which is the timestamp, the input buffer and the content. -/
inductive UserCall where
  | send (message : Bytes) (result : SendResult)
  | shutdown
  | change (timestamp : ℤ) (inputBuffer : Buffer) (content : HttpContent)

namespace Session

/-- One call of a callback. -/
def call (s : Session) : UserCall → Session
  | .send message result => s.send message result
  | .shutdown => s.shutdown
  | .change timestamp inputBuffer content => { s with timestamp, inputBuffer, content }

/-- The calls of a callback. -/
def callAll (s : Session) (calls : List UserCall) : Session := calls.foldl call s

/-- `ConnectionEstablished()` with the calls of the connect callback. -/
def establish (s : Session) (calls : List UserCall) : Session := s.connectionEstablished.callAll calls

/-- `HandleMessage()` with the calls of the message callback; the end of the stream closes the
connection, and an error of `readv` is ignored. -/
def handleMessage (s : Session) (calls : List UserCall) : Option Bytes → Session
  | none => s
  | some [] => s.handleClose
  | some (first :: rest) => callAll { s with inputBuffer := s.inputBuffer.readFd (first :: rest) } calls

/-- The channel and the epoller are the same. -/
def SameView (s s' : Session) : Prop := s'.channel = s.channel ∧ s'.epoller = s.epoller

/-- At most the interest in output was set. -/
def SetsOutput (s s' : Session) : Prop :=
  SameView s s' ∨ ∃ epollout, SameView (s.setEvent { s.channel.event with epollout }) s'

/-- The descriptor, the object and what the epoller says about other descriptors are the same. -/
structure Local (s s' : Session) : Prop where
  fd : s'.channel.fd = s.channel.fd
  address : s'.channel.address = s.channel.address
  elsewhere : ∀ fd, fd ≠ s.channel.fd → Epoller.SameAt s.epoller s'.epoller fd

/-- The connection is watched for input. -/
structure Reading (s : Session) : Prop where
  inStep : s.epoller.InStep s.channel
  added : s.channel.state = .kAdded
  epollin : s.channel.event.epollin = true

/-- The connection is known to its epoller, and it is watched for nothing. -/
structure Silent (s : Session) : Prop where
  inStep : s.epoller.InStep s.channel
  deleted : s.channel.state = .kDeleted
  event : s.channel.event = .none

/-- The connection is not known to its epoller. -/
structure Unregistered (s : Session) : Prop where
  inStep : s.epoller.InStep s.channel
  new : s.channel.state = .kNew

/-- `Shutdown` does not concern the channel. -/
theorem shutdown_sameView (s : Session) : SameView s s.shutdown := by
  rw [shutdown]
  split
  · exact ⟨rfl, rfl⟩
  · exact ⟨rfl, rfl⟩

/-- Output that waits in the buffer enables writing. -/
theorem bufferOutput_setsOutput (s : Session) (outputBuffer : IntBuffer) :
    SetsOutput s (s.bufferOutput outputBuffer) := by
  rw [bufferOutput]
  split
  · exact Or.inl ⟨rfl, rfl⟩
  · exact Or.inr ⟨true, rfl, rfl⟩

/-- Buffering the unsent bytes may enable writing. -/
theorem bufferUnsent_setsOutput (s : Session) (unsent : Bytes) : SetsOutput s (s.bufferUnsent unsent) := by
  rw [bufferUnsent]
  split
  · exact bufferOutput_setsOutput s _
  · exact Or.inl ⟨rfl, rfl⟩

/-- `Send` behind the record of the call may enable writing. -/
theorem sendOrBuffer_setsOutput (s : Session) (message : Bytes) (len : ℤ) (result : SendResult) :
    SetsOutput s (s.sendOrBuffer message len result) := by
  rw [sendOrBuffer]
  split
  · cases result with
    | accepted count =>
      exact bufferUnsent_setsOutput (s.record (.kernelSend ((offered message len).take count)))
        (remaining message len ((offered message len).take count).length)
    | wouldBlock => exact Or.inl ⟨rfl, rfl⟩
    | failed => exact Or.inl ⟨rfl, rfl⟩
  · exact bufferUnsent_setsOutput s (remaining message len 0)

/-- `Send` may enable writing. -/
theorem send_setsOutput (s : Session) (message : Bytes) (result : SendResult) :
    SetsOutput s (s.send message result) :=
  sendOrBuffer_setsOutput (s.record (.send message)) message (wrap message.length) result

/-- `HandleWrite` may disable writing. -/
theorem handleWrite_setsOutput (s : Session) (result : SendResult) : SetsOutput s (s.handleWrite result) := by
  rw [handleWrite]
  split
  · cases result with
    | accepted count =>
      rw [writeOutput, finishWrite]
      split
      · split
        · exact Or.inr ⟨false, shutdown_sameView _⟩
        · exact Or.inr ⟨false, rfl, rfl⟩
      · exact Or.inl ⟨rfl, rfl⟩
    | wouldBlock => exact Or.inl ⟨rfl, rfl⟩
    | failed => exact Or.inl ⟨rfl, rfl⟩
  · exact Or.inl ⟨rfl, rfl⟩

/-- A call of a callback may enable writing. -/
theorem call_setsOutput (s : Session) (call : UserCall) : SetsOutput s (s.call call) := by
  cases call with
  | send message result => exact s.send_setsOutput message result
  | shutdown => exact Or.inl s.shutdown_sameView
  | change timestamp inputBuffer content => exact Or.inl ⟨rfl, rfl⟩

/-- Only the channel and the epoller matter. -/
theorem SameView.local {s s' : Session} (h : SameView s s') : Local s s' where
  fd := congrArg Channel.fd h.1
  address := congrArg Channel.address h.1
  elsewhere fd _ := by
    rw [h.2]
    exact ⟨rfl, rfl⟩

/-- One change after the other. -/
theorem Local.trans {s t u : Session} (h : Local s t) (h' : Local t u) : Local s u where
  fd := h'.fd.trans h.fd
  address := h'.address.trans h.address
  elsewhere fd hne := by
    have hfirst := h.elsewhere fd hne
    have hsecond := h'.elsewhere fd (h.fd ▸ hne)
    exact ⟨hsecond.1.trans hfirst.1, hsecond.2.trans hfirst.2⟩

/-- `Update()` is local. -/
theorem local_setEvent (s : Session) (event : Events) : Local s (s.setEvent event) where
  fd := s.setEvent_fd event
  address := by
    obtain ⟨state, hstate, -⟩ := s.epoller.update_channel { s.channel with event }
    rw [setEvent, hstate]
  elsewhere fd hne := by
    have hother : fd ≠ ({ s.channel with event } : Channel).fd := hne
    exact s.epoller.sameAt_update hother

/-- Setting the interest in output is local. -/
theorem SetsOutput.local {s s' : Session} (h : SetsOutput s s') : Local s s' := by
  rcases h with hview | ⟨epollout, hview⟩
  · exact hview.local
  · exact (s.local_setEvent _).trans hview.local

/-- The calls of a callback are local. -/
theorem local_callAll (s : Session) (calls : List UserCall) : Local s (s.callAll calls) := by
  induction calls generalizing s with
  | nil => exact SameView.local ⟨rfl, rfl⟩
  | cons first rest ih => exact (s.call_setsOutput first).local.trans (ih (s.call first))

/-- `ConnectionEstablished` is local. -/
theorem local_establish (s : Session) (calls : List UserCall) : Local s (s.establish calls) := by
  have hstate : Local s { s with state := .kConnected } := SameView.local ⟨rfl, rfl⟩
  exact (hstate.trans (local_setEvent _ _)).trans (local_callAll _ calls)

/-- `HandleMessage` is local. -/
theorem local_handleMessage (s : Session) (calls : List UserCall) (data : Option Bytes) :
    Local s (s.handleMessage calls data) := by
  cases data with
  | none => exact SameView.local ⟨rfl, rfl⟩
  | some bytes =>
    cases bytes with
    | nil =>
      have hstate : Local s { s with state := .kDisconnected } := SameView.local ⟨rfl, rfl⟩
      exact (hstate.trans (local_setEvent _ .none)).trans (SameView.local ⟨rfl, rfl⟩)
    | cons first rest =>
      have hread : Local s { s with inputBuffer := s.inputBuffer.readFd (first :: rest) } :=
        SameView.local ⟨rfl, rfl⟩
      exact hread.trans (local_callAll _ calls)

/-- `ConnectionDestructor` behind the test of the state. -/
theorem connectionDestructor_eq (s : Session) : ∃ t : Session,
    (SameView s t ∨ SameView (s.setEvent .none) t) ∧
    s.connectionDestructor.epoller = (t.epoller.remove t.channel).1 ∧
    s.connectionDestructor.channel = (t.epoller.remove t.channel).2 := by
  rw [connectionDestructor]
  split
  · exact ⟨disableAll { s with state := .kDisconnected }, Or.inr ⟨rfl, rfl⟩, rfl, rfl⟩
  · exact ⟨s, Or.inl ⟨rfl, rfl⟩, rfl, rfl⟩

/-- `ConnectionDestructor` is local. -/
theorem local_connectionDestructor (s : Session) : Local s s.connectionDestructor := by
  obtain ⟨t, hview, hepoller, hchannel⟩ := s.connectionDestructor_eq
  have ht : Local s t := hview.elim SameView.local fun h => (s.local_setEvent .none).trans h.local
  apply ht.trans
  refine ⟨by rw [hchannel]; rfl, by rw [hchannel]; rfl, fun fd hne => ?_⟩
  rw [hepoller]
  exact t.epoller.sameAt_remove hne

/-- Setting the interest in output keeps a connection watched for input. -/
theorem Reading.setsOutput {s s' : Session} (h : s.Reading) (hset : SetsOutput s s') : s'.Reading := by
  rcases hset with ⟨hchannel, hepoller⟩ | ⟨epollout, hchannel, hepoller⟩
  · exact ⟨by rw [hchannel, hepoller]; exact h.inStep, by rw [hchannel]; exact h.added,
      by rw [hchannel]; exact h.epollin⟩
  · have hevent : ({ s.channel.event with epollout } : Events) ≠ .none := by
      intro hnone
      have hin : s.channel.event.epollin = false := congrArg Events.epollin hnone
      exact absurd (h.epollin.symm.trans hin) Bool.noConfusion
    refine ⟨?_, ?_, ?_⟩
    · rw [hchannel, hepoller]
      exact setEvent_inStep s h.inStep _
    · rw [hchannel]
      exact setEvent_added h.added hevent
    · rw [hchannel, setEvent_event]
      exact h.epollin

/-- The calls of a callback keep a connection watched for input. -/
theorem Reading.callAll {s : Session} (h : s.Reading) (calls : List UserCall) : (s.callAll calls).Reading := by
  induction calls generalizing s with
  | nil => exact h
  | cons first rest ih => exact ih (h.setsOutput (s.call_setsOutput first))

/-- `ConnectionEstablished` begins to watch a connection for input. -/
theorem Unregistered.establish {s : Session} (h : s.Unregistered) (calls : List UserCall) :
    (s.establish calls).Reading := by
  have hset : s.connectionEstablished.Reading := by
    refine ⟨setEvent_inStep { s with state := .kConnected } h.inStep _, ?_, ?_⟩
    · simp [connectionEstablished, enableRead, setEvent, Epoller.update, h.new]
    · simp [connectionEstablished, enableRead]
  exact hset.callAll calls

/-- Unless it reads the end of the stream, `HandleMessage` keeps a connection watched for input. -/
theorem Reading.handleMessage {s : Session} (h : s.Reading) (calls : List UserCall) {data : Option Bytes}
    (hdata : data ≠ some []) : (s.handleMessage calls data).Reading := by
  cases data with
  | none => exact h
  | some bytes =>
    cases bytes with
    | nil => exact absurd rfl hdata
    | cons first rest =>
      have hread : Reading { s with inputBuffer := s.inputBuffer.readFd (first :: rest) } :=
        ⟨h.inStep, h.added, h.epollin⟩
      exact hread.callAll calls

/-- `HandleClose` silences a connection. -/
theorem Reading.handleClose {s : Session} (h : s.Reading) : s.handleClose.Silent where
  inStep := setEvent_inStep { s with state := .kDisconnected } h.inStep .none
  deleted := (disableAll_unregistered { s with state := .kDisconnected } h.added).2
  event := setEvent_event { s with state := .kDisconnected } .none

/-- `HandleWrite` does nothing to a silent connection. -/
theorem Silent.handleWrite_eq {s : Session} (h : s.Silent) (result : SendResult) : s.handleWrite result = s := by
  rw [handleWrite, if_neg]
  simp [Channel.isWriting, h.event, Events.none]

/-- `ConnectionDestructor` takes a silent connection out of its epoller. -/
theorem Silent.connectionDestructor {s : Session} (h : s.Silent) : s.connectionDestructor.Unregistered := by
  obtain ⟨t, hview, hepoller, hchannel⟩ := s.connectionDestructor_eq
  have hknown : t.epoller.InStep t.channel ∧ t.channel.state ≠ .kNew := by
    rcases hview with ⟨htchannel, htepoller⟩ | ⟨htchannel, htepoller⟩
    · rw [htchannel, htepoller, h.deleted]
      exact ⟨h.inStep, by decide⟩
    · obtain ⟨state, hstate, hne⟩ := s.epoller.update_channel { s.channel with event := .none }
      rw [htchannel, htepoller]
      refine ⟨setEvent_inStep s h.inStep .none, ?_⟩
      rw [setEvent, hstate]
      exact hne
  refine ⟨?_, ?_⟩
  · rw [hepoller, hchannel]
    exact hknown.1.remove hknown.2
  · rw [hchannel]
    rfl

end Session

end WebServer.Util
