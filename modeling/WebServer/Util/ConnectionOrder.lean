import WebServer.Util.TcpConnection

/-!
# The order of sending, shutting down and closing

`Session.Open` is the invariant of a connection before `HandleClose`: its channel is
registered for input, and the calls made so far stand in an order in which nothing is handed
to `Send` behind `Shutdown` and nothing is sent behind `::shutdown`. `Session.Closed` is what
remains afterwards. The functions of `TcpConnection` preserve them.

`Session.Drains` concerns the output: writing is enabled exactly while output is buffered, and
`::shutdown` finds nothing buffered. A `Send` preserves it if it keeps the indices of the output
buffer in the range of `int`, which is what `SendFits` says.
-/

namespace WebServer.Util

open WebServer.Http (HttpContent)

/-- The second call may be made at some time after the first one. -/
def Call.MayFollow : Call → Call → Prop
  | .shutdown, .send _ => False
  | .kernelShutdown _, .kernelSend _ => False
  | _, _ => True

/-- The calls made before the connection was closed. -/
def beforeClose (calls : List Call) : List Call := calls.takeWhile (· ≠ .close)

/-- The close itself does not belong to the calls before it. -/
theorem beforeClose_close {calls : List Call} (h : .close ∉ calls) : beforeClose (calls ++ [.close]) = calls := by
  have hall : ∀ call ∈ calls, decide (call ≠ .close) = true := by
    intro call hmem
    exact decide_eq_true fun heq => h (heq ▸ hmem)
  rw [beforeClose, List.takeWhile_append_of_pos hall]
  simp

/-- What is called after the close does not count. -/
theorem beforeClose_append {calls : List Call} (h : .close ∈ calls) (more : List Call) :
    beforeClose (calls ++ more) = beforeClose calls := by
  induction calls with
  | nil => cases h
  | cons call rest ih =>
    by_cases hclose : call = .close
    · simp [beforeClose, hclose]
    · have hrest : .close ∈ rest := (List.mem_cons.mp h).resolve_left fun heq => hclose heq.symm
      simp only [beforeClose] at ih ⊢
      rw [List.cons_append, List.takeWhile_cons_of_pos (by simpa using hclose),
        List.takeWhile_cons_of_pos (by simpa using hclose), ih hrest]

namespace Session

/-- The invariant of an established connection before `HandleClose`. -/
structure Open (s : Session) : Prop where
  notClosed : .close ∉ s.calls
  inStep : s.epoller.InStep s.channel
  added : s.channel.state = .kAdded
  reading : s.channel.event.epollin = true
  ordered : s.calls.Pairwise Call.MayFollow
  disconnecting : .shutdown ∈ s.calls → s.state = .kDisconnecting
  requested : ∀ buffered, .kernelShutdown buffered ∈ s.calls → .shutdown ∈ s.calls
  finished : ∀ buffered, .kernelShutdown buffered ∈ s.calls → s.channel.isWriting = false

/-- The invariant of a connection after `HandleClose`. -/
structure Closed (s : Session) : Prop where
  closed : .close ∈ s.calls
  inStep : s.epoller.InStep s.channel
  deleted : s.channel.state = .kDeleted
  unregistered : s.epoller.interest s.channel.fd = none
  notWriting : s.channel.isWriting = false
  ordered : s.calls.Pairwise Call.MayFollow

/-- The output buffer is in range, writing is enabled exactly while output is buffered, and every `::shutdown`
found the output buffer empty. -/
structure Drains (s : Session) : Prop where
  inRange : s.outputBuffer.Exact
  writing : s.channel.isWriting = true ↔ s.outputBuffer.bytes ≠ []
  drained : ∀ buffered, .kernelShutdown buffered ∈ s.calls → buffered = []

/-- Changing the events of a registered channel to a nonempty set keeps it registered. -/
theorem setEvent_added {s : Session} {event : Events} (hadded : s.channel.state = .kAdded)
    (hevent : event ≠ .none) : (s.setEvent event).channel.state = .kAdded := by
  have hupdate : s.epoller.update { s.channel with event } =
      (s.epoller.updateChannel { s.channel with event } .mod, { s.channel with event }) := by
    simp only [Epoller.update, hadded, if_neg hevent]
  rw [setEvent, hupdate]
  exact hadded

/-- Disabling a registered channel takes its descriptor out of the kernel's list. -/
theorem disableAll_unregistered (s : Session) (hadded : s.channel.state = .kAdded) :
    s.disableAll.epoller.interest s.channel.fd = none ∧ s.disableAll.channel.state = .kDeleted := by
  have hupdate : s.epoller.update { s.channel with event := .none } =
      (s.epoller.updateChannel { s.channel with event := .none } .del,
        { s.channel with event := .none, state := .kDeleted }) := by
    simp only [Epoller.update, hadded, if_true]
  rw [disableAll, setEvent, hupdate]
  exact ⟨Epoller.epollCtl_del _ _ _, rfl⟩

/-- Changing the events of a channel keeps it in step with the epoller. -/
theorem setEvent_inStep (s : Session) (h : s.epoller.InStep s.channel) (event : Events) :
    (s.setEvent event).epoller.InStep (s.setEvent event).channel := h.update event

/-- Establishing a connection on a descriptor unknown to the epoller opens it. -/
theorem open_started {address fd : ℕ} {now : ℤ} {content : HttpContent} {epoller : Epoller}
    (hmap : epoller.channelmap fd = none) (hinterest : epoller.interest fd = none) :
    (started address fd now content epoller).Open where
  notClosed := List.not_mem_nil
  inStep := setEvent_inStep _ (Epoller.inStep_new hmap hinterest) _
  added := by simp [started, connectionEstablished, enableRead, setEvent, new, Channel.new, Epoller.update]
  reading := by simp [started, connectionEstablished, enableRead]
  ordered := List.Pairwise.nil
  disconnecting h := by cases h
  requested _ h := by cases h
  finished _ h := by cases h

/-- Only the channel, the epoller, the state, the output buffer and the calls matter. -/
theorem Open.withInput {s : Session} (h : s.Open) (timestamp : ℤ) (inputBuffer : Buffer) (content : HttpContent) :
    Open { s with timestamp, inputBuffer, content } where
  notClosed := h.notClosed
  inStep := h.inStep
  added := h.added
  reading := h.reading
  ordered := h.ordered
  disconnecting := h.disconnecting
  requested := h.requested
  finished := h.finished

/-- A call may be recorded when it may follow the earlier ones and keeps what they promise. -/
theorem Open.record {s : Session} (h : s.Open) {call : Call} (hclose : call ≠ .close)
    (hfollow : ∀ earlier ∈ s.calls, earlier.MayFollow call)
    (hshutdown : call = .shutdown → s.state = .kDisconnecting)
    (hkernel : ∀ buffered, call = .kernelShutdown buffered → .shutdown ∈ s.calls ∧ s.channel.isWriting = false) :
    (s.record call).Open where
  notClosed hmem := (List.mem_append.mp hmem).elim h.notClosed fun hlast =>
    hclose (List.mem_singleton.mp hlast).symm
  inStep := h.inStep
  added := h.added
  reading := h.reading
  ordered := List.pairwise_append.mpr ⟨h.ordered, List.pairwise_singleton _ _, fun earlier hmem _ hlast =>
    List.mem_singleton.mp hlast ▸ hfollow earlier hmem⟩
  disconnecting hmem := (List.mem_append.mp hmem).elim h.disconnecting fun hlast =>
    hshutdown (List.mem_singleton.mp hlast).symm
  requested buffered hmem := List.mem_append_left _ ((List.mem_append.mp hmem).elim (h.requested buffered)
    fun hlast => (hkernel buffered (List.mem_singleton.mp hlast).symm).1)
  finished buffered hmem := (List.mem_append.mp hmem).elim (h.finished buffered) fun hlast =>
    (hkernel buffered (List.mem_singleton.mp hlast).symm).2

/-- Before a shutdown a message may be handed to `Send`. -/
theorem Open.recordSend {s : Session} (h : s.Open) (hquiet : .shutdown ∉ s.calls) (message : Bytes) :
    (s.record (.send message)).Open := by
  apply h.record (by simp) _ (by simp) (by simp)
  intro earlier hmem
  cases earlier with
  | shutdown => exact hquiet hmem
  | _ => trivial

/-- Before the `::shutdown` bytes may be sent. -/
theorem Open.recordKernelSend {s : Session} (h : s.Open)
    (hsending : ∀ buffered, .kernelShutdown buffered ∉ s.calls) (accepted : Bytes) :
    (s.record (.kernelSend accepted)).Open := by
  apply h.record (by simp) _ (by simp) (by simp)
  intro earlier hmem
  cases earlier with
  | kernelShutdown buffered => exact hsending buffered hmem
  | _ => trivial

/-- A shutdown may be requested, which changes the state of the connection. -/
theorem Open.recordShutdown {s : Session} (h : s.Open) :
    ({ s with state := .kDisconnecting }.record .shutdown).Open := by
  have hdisconnecting : Open { s with state := .kDisconnecting } := { h with disconnecting := fun _ => rfl }
  apply hdisconnecting.record (by simp) _ (fun _ => rfl) (by simp)
  intro earlier _
  cases earlier <;> trivial

/-- `Shutdown` keeps the connection open. -/
theorem Open.shutdown {s : Session} (h : s.Open) : s.shutdown.Open := by
  rw [Session.shutdown]
  split
  · exact h.recordShutdown
  · next hidle =>
    have hidle' : s.channel.isWriting = false := by simpa using hidle
    apply h.recordShutdown.record (by simp) _ (by simp)
    · rintro buffered ⟨rfl⟩
      exact ⟨by simp, hidle'⟩
    · intro earlier _
      cases earlier <;> trivial

/-- The interest in writing may change while bytes may be sent. -/
theorem Open.setWriting {s : Session} (h : s.Open) (epollout : Bool)
    (hsending : ∀ buffered, .kernelShutdown buffered ∉ s.calls) :
    Open (s.setEvent { s.channel.event with epollout }) where
  notClosed := h.notClosed
  inStep := setEvent_inStep _ h.inStep _
  added := by
    apply setEvent_added h.added
    intro hnone
    have hin : s.channel.event.epollin = false := congrArg Events.epollin hnone
    exact absurd (h.reading.symm.trans hin) Bool.noConfusion
  reading := by simpa using h.reading
  ordered := h.ordered
  disconnecting := h.disconnecting
  requested := h.requested
  finished buffered hmem := absurd hmem (hsending buffered)

/-- The output buffer may be any. -/
theorem Open.setOutput {s : Session} (h : s.Open) (outputBuffer : IntBuffer) : (s.setOutput outputBuffer).Open :=
    { h with }

/-- Before a shutdown nothing was shut down in the kernel. -/
theorem Open.sending {s : Session} (h : s.Open) (hquiet : .shutdown ∉ s.calls) :
    ∀ buffered, .kernelShutdown buffered ∉ s.calls := fun buffered hmem => hquiet (h.requested buffered hmem)

/-- Buffering the unsent bytes keeps the connection open. -/
theorem Open.bufferUnsent {s : Session} (h : s.Open) (hquiet : .shutdown ∉ s.calls) (unsent : Bytes) :
    (s.bufferUnsent unsent).Open ∧ (s.bufferUnsent unsent).calls = s.calls := by
  have hbuffered (outputBuffer : IntBuffer) :
      (s.bufferOutput outputBuffer).Open ∧ (s.bufferOutput outputBuffer).calls = s.calls := by
    rw [bufferOutput]
    split
    · exact ⟨h.setOutput outputBuffer, rfl⟩
    · exact ⟨(h.setOutput outputBuffer).setWriting true (h.sending hquiet), rfl⟩
  rw [Session.bufferUnsent]
  split
  · exact hbuffered _
  · exact ⟨h, rfl⟩

/-- `Send` before a shutdown keeps the connection open and requests no shutdown. -/
theorem Open.send {s : Session} (h : s.Open) (hquiet : .shutdown ∉ s.calls) (message : Bytes)
    (result : SendResult) : (s.send message result).Open ∧ .shutdown ∉ (s.send message result).calls := by
  have hrecorded := h.recordSend hquiet message
  have hquiet' : .shutdown ∉ (s.record (.send message)).calls := by simpa using hquiet
  have hsent (accepted : Bytes) := hrecorded.recordKernelSend (hrecorded.sending hquiet') accepted
  have hquiet'' (accepted : Bytes) : .shutdown ∉ ((s.record (.send message)).record
    (.kernelSend accepted)).calls := by
    simpa using hquiet
  rw [Session.send, sendOrBuffer]
  split
  · cases result with
    | accepted count =>
      obtain ⟨hopen, hcalls⟩ := (hsent _).bufferUnsent (hquiet'' _) (remaining message (wrap message.length)
        ((offered message (wrap message.length)).take count).length)
      exact ⟨hopen, by rw [sendDirectly, hcalls]; exact hquiet'' _⟩
    | wouldBlock => exact ⟨hsent [], hquiet'' []⟩
    | failed => exact ⟨hsent [], hquiet'' []⟩
  · obtain ⟨hopen, hcalls⟩ := hrecorded.bufferUnsent hquiet' (remaining message (wrap message.length) 0)
    exact ⟨hopen, by rw [hcalls]; exact hquiet'⟩

/-- The end of a write event keeps the connection open. -/
theorem Open.finishWrite {s : Session} (h : s.Open) (hsending : ∀ buffered, .kernelShutdown buffered ∉ s.calls) :
    s.finishWrite.Open := by
  have hdisabled : s.disableWrite.Open := h.setWriting false hsending
  rw [Session.finishWrite]
  split
  · split
    · exact hdisabled.shutdown
    · exact hdisabled
  · exact h

/-- `HandleWrite` keeps the connection open. -/
theorem Open.handleWrite {s : Session} (h : s.Open) (result : SendResult) : (s.handleWrite result).Open := by
  rw [Session.handleWrite]
  split
  · next hwriting =>
    have hsending : ∀ buffered, .kernelShutdown buffered ∉ s.calls := fun buffered hmem =>
      absurd hwriting (by simp [h.finished buffered hmem])
    have hsent (accepted : Bytes) := h.recordKernelSend hsending accepted
    cases result with
    | accepted count =>
      have hsending' (accepted buffered : Bytes) : .kernelShutdown buffered ∉
        (s.record (.kernelSend accepted)).calls := by
        simpa using hsending buffered
      exact ((hsent _).setOutput _).finishWrite (hsending' _)
    | wouldBlock => exact hsent []
    | failed => exact hsent []
  · exact h

/-- `HandleClose` closes the connection. -/
theorem Open.handleClose {s : Session} (h : s.Open) : s.handleClose.Closed where
  closed := List.mem_append_right _ List.mem_cons_self
  inStep := setEvent_inStep { s with state := .kDisconnected } h.inStep .none
  deleted := (disableAll_unregistered { s with state := .kDisconnected } h.added).2
  unregistered := by
    have hnone := (disableAll_unregistered { s with state := .kDisconnected } h.added).1
    rw [Session.handleClose, record_epoller, record_toTcpConnection, disableAll, setEvent_fd]
    exact hnone
  notWriting := by simp [Session.handleClose, disableAll, Channel.isWriting, Events.none]
  ordered := by
    apply List.pairwise_append.mpr ⟨h.ordered, List.pairwise_singleton _ _, ?_⟩
    intro earlier _ later hlast
    rw [List.mem_singleton.mp hlast]
    cases earlier <;> trivial

/-- A shutdown call may follow every call. -/
theorem Closed.record {s : Session} (h : s.Closed) {call : Call}
    (hfollow : ∀ earlier : Call, earlier.MayFollow call) :
    (s.record call).Closed where
  closed := List.mem_append_left _ h.closed
  inStep := h.inStep
  deleted := h.deleted
  unregistered := h.unregistered
  notWriting := h.notWriting
  ordered := List.pairwise_append.mpr ⟨h.ordered, List.pairwise_singleton _ _, fun earlier _ _ hlast =>
    List.mem_singleton.mp hlast ▸ hfollow earlier⟩

/-- After the close only another shutdown is possible, and it sends nothing. -/
theorem Closed.shutdown {s : Session} (h : s.Closed) : s.shutdown.Closed := by
  have hdisconnecting : Closed { s with state := .kDisconnecting } :=
    ⟨h.closed, h.inStep, h.deleted, h.unregistered, h.notWriting, h.ordered⟩
  have hrequested : ({ s with state := .kDisconnecting }.record .shutdown).Closed :=
    hdisconnecting.record fun earlier => by cases earlier <;> trivial
  rw [Session.shutdown]
  split
  · exact hrequested
  · exact hrequested.record fun earlier => by cases earlier <;> trivial

/-- After the close `HandleWrite` does nothing. -/
theorem Closed.handleWrite {s : Session} (h : s.Closed) (result : SendResult) : (s.handleWrite result).Closed := by
  rw [Session.handleWrite, if_neg (by simp [h.notWriting])]
  exact h

namespace Drains

/-- An established connection has no output yet. -/
theorem started {address fd : ℕ} {now : ℤ} {content : HttpContent} {epoller : Epoller} :
    (Session.started address fd now content epoller).Drains where
  inRange := IntBuffer.exact_new.1
  writing := by
    have hempty : (Session.started address fd now content epoller).outputBuffer.bytes = [] := IntBuffer.exact_new.2
    rw [hempty]
    simp [Session.started, connectionEstablished, enableRead, Channel.isWriting, new, Channel.new, Events.none]
  drained _ h := by cases h

variable {s : Session}

/-- Only the channel, the output buffer and the calls matter. -/
theorem withInput (h : s.Drains) (timestamp : ℤ) (inputBuffer : Buffer) (content : HttpContent) :
    Drains { s with timestamp, inputBuffer, content } := ⟨h.inRange, h.writing, h.drained⟩

/-- A call may be recorded if it is no `::shutdown` with output buffered. -/
theorem record (h : s.Drains) {call : Call} (hkernel : ∀ buffered, call = .kernelShutdown buffered →
    buffered = []) :
    (s.record call).Drains where
  inRange := h.inRange
  writing := h.writing
  drained buffered hmem := (List.mem_append.mp hmem).elim (h.drained buffered) fun hlast =>
    hkernel buffered (List.mem_singleton.mp hlast).symm

/-- `Shutdown` calls `::shutdown` only with nothing buffered. -/
theorem shutdown (h : s.Drains) : s.shutdown.Drains := by
  have hdisconnecting : Drains { s with state := .kDisconnecting } := ⟨h.inRange, h.writing, h.drained⟩
  have hrequested : ({ s with state := .kDisconnecting }.record .shutdown).Drains := hdisconnecting.record (by simp)
  rw [Session.shutdown]
  split
  · exact hrequested
  · next hidle =>
    apply hrequested.record
    rintro buffered ⟨rfl⟩
    exact not_not.mp fun hne => hidle (h.writing.mpr hne)

/-- The interest in writing follows the output buffer. -/
theorem setWriting (hrange : s.outputBuffer.Exact) {epollout : Bool}
    (hwriting : epollout = true ↔ s.outputBuffer.bytes ≠ [])
    (hdrained : ∀ buffered, .kernelShutdown buffered ∈ s.calls → buffered = []) :
    (s.setEvent { s.channel.event with epollout }).Drains where
  inRange := hrange
  writing := by simpa [Channel.isWriting] using hwriting
  drained := hdrained

/-- Output waits in the buffer, and writing is enabled. -/
theorem bufferOutput (h : s.Drains) {outputBuffer : IntBuffer} (hrange : outputBuffer.Exact)
    (hne : outputBuffer.bytes ≠ []) : (s.bufferOutput outputBuffer).Drains := by
  rw [Session.bufferOutput]
  split
  · next hwriting => exact ⟨hrange, iff_of_true hwriting hne, h.drained⟩
  · exact setWriting hrange (iff_of_true rfl hne) h.drained

/-- What was not sent is buffered, if the output buffer stays in range. -/
theorem bufferUnsent (h : s.Drains) {unsent : Bytes} (hfits : unsent ≠ [] →
    s.outputBuffer.AppendFits unsent.length) :
    (s.bufferUnsent unsent).Drains := by
  rw [Session.bufferUnsent]
  split
  · next hsome =>
    have hunsent : unsent ≠ [] := List.ne_nil_of_length_pos hsome
    obtain ⟨hrange, hbytes⟩ := h.inRange.append (hfits hunsent)
    exact h.bufferOutput hrange (by simp [hbytes, hunsent])
  · exact h

/-- A `Send` that stays in range. -/
theorem send (h : s.Drains) {message : Bytes} {result : SendResult} (hfits : s.SendFits message result) :
    (s.send message result).Drains := by
  have hrecorded : (s.record (.send message)).Drains := h.record (by simp)
  have hsent (accepted : Bytes) : ((s.record (.send message)).record (.kernelSend accepted)).Drains :=
    hrecorded.record (by simp)
  obtain ⟨hlength, hunsent⟩ := hfits
  rw [send_eq hlength]
  split
  · next hdirect =>
    cases result with
    | accepted count => exact (hsent _).bufferUnsent (unsent_accepted hdirect message count ▸ hunsent)
    | wouldBlock => exact hsent []
    | failed => exact hsent []
  · next hdirect => exact hrecorded.bufferUnsent (unsent_buffered hdirect message result ▸ hunsent)

/-- The end of a write event disables writing once nothing is buffered any more. -/
theorem finishWrite (hrange : s.outputBuffer.Exact) (hwriting : s.channel.isWriting = true)
    (hdrained : ∀ buffered, .kernelShutdown buffered ∈ s.calls → buffered = []) : s.finishWrite.Drains := by
  rw [Session.finishWrite]
  split
  · next hdone =>
    have hempty := hrange.readable_eq_zero.mp hdone
    have hdisabled : s.disableWrite.Drains :=
      setWriting hrange (iff_of_false Bool.false_ne_true (not_not.mpr hempty)) hdrained
    split
    · exact hdisabled.shutdown
    · exact hdisabled
  · next hmore => exact ⟨hrange, iff_of_true hwriting (mt hrange.readable_eq_zero.mpr hmore), hdrained⟩

/-- `HandleWrite` takes out of the output buffer what the kernel accepts. -/
theorem handleWrite (h : s.Drains) (result : SendResult) : (s.handleWrite result).Drains := by
  have hsent (accepted : Bytes) : (s.record (.kernelSend accepted)).Drains := h.record (by simp)
  rw [Session.handleWrite]
  split
  · next hwriting =>
    cases result with
    | accepted count =>
      have htake : (s.outputBuffer.bytes.take count).length ≤ s.outputBuffer.bytes.length :=
        (List.take_sublist _ _).length_le
      rw [writeOutput]
      apply finishWrite
      · exact (h.inRange.retrieve htake).1
      · exact hwriting
      · rw [setOutput_calls]
        exact (hsent _).drained
    | wouldBlock => exact hsent []
    | failed => exact hsent []
  · exact h

end Drains

end Session

end WebServer.Util
