import WebServer.Http.Exchange

/-!
# The half-close follows

`Shutdown` does not shut the connection down while output is buffered; it leaves that to the write event which
empties the buffer. From then on nothing is added to the buffer, so the half-close comes exactly when the
kernel has accepted as many bytes as were buffered, whatever else happens to the connection in between. Until
then the kernel watches the descriptor for output, so the write events keep coming. The output buffer has to be
in the range of `int` when `Shutdown` is called; it is if every reply before was.
-/

namespace WebServer.Http

open WebServer.Foundation
open WebServer.Util (Bytes Buffer IntBuffer Session SendResult Call Epoller)

/-- The bytes which the kernel is ready to accept in a write event. -/
def ConnectionEvent.accepts : ConnectionEvent → ℕ
  | writable (.accepted count) => count
  | _ => 0

/-- The bytes which the kernel is ready to accept in all write events. -/
def accepted : List ConnectionEvent → ℕ
  | [] => 0
  | event :: events => event.accepts + accepted events

/-- `Shutdown` was called, and it was completed or the output is still watched. -/
structure Finishing (s : Session) : Prop where
  isOpen : s.Open
  drains : s.Drains
  requested : .shutdown ∈ s.calls
  settled : s.channel.isWriting = true ∨ .kernelShutdown [] ∈ s.calls

/-- The input side does not matter. -/
theorem Finishing.withInput {s : Session} (h : Finishing s) (timestamp : ℤ) (inputBuffer : Buffer)
    (content : HttpContent) : Finishing { s with timestamp, inputBuffer, content } where
  isOpen := h.isOpen.withInput timestamp inputBuffer content
  drains := h.drains.withInput timestamp inputBuffer content
  requested := h.requested
  settled := h.settled

/-- The half-close has come exactly when nothing is buffered. -/
theorem Finishing.kernelShutdown_iff {s : Session} (h : Finishing s) :
    .kernelShutdown [] ∈ s.calls ↔ s.outputBuffer.bytes = [] := by
  constructor
  · intro hmem
    by_contra hne
    exact absurd (h.drains.writing.mpr hne) (by simp [h.isOpen.finished [] hmem])
  · intro hempty
    exact h.settled.resolve_left fun hwriting => h.drains.writing.mp hwriting hempty

/-- While output is buffered, the kernel watches for room. -/
theorem Finishing.interest {s : Session} (h : Finishing s) (hbuffered : s.outputBuffer.bytes ≠ []) :
    ∃ event, s.epoller.interest s.channel.fd = some (event, s.channel.address) ∧ event.epollout = true := by
  have hinStep := h.isOpen.inStep
  rw [Epoller.InStep, h.isOpen.added] at hinStep
  exact ⟨s.channel.event, hinStep.2, h.drains.writing.mpr hbuffered⟩

/-- `Shutdown` begins to finish an open connection. -/
theorem finishing_shutdown {s : Session} (h : s.Open) (hdrains : s.Drains) : Finishing s.shutdown := by
  refine ⟨h.shutdown, hdrains.shutdown, ?_, ?_⟩
  · rw [Session.shutdown]
    split <;> simp
  · rw [Session.shutdown]
    split
    · next hwriting => exact Or.inl hwriting
    · next hidle =>
      have hempty : s.outputBuffer.bytes = [] := not_not.mp fun hne => hidle (hdrains.writing.mpr hne)
      rw [hempty]
      exact Or.inr (by simp)

/-- `Shutdown` of a connection that does not write calls `::shutdown`. -/
theorem calls_shutdown_of_idle {s : Session} (h : s.channel.isWriting = false) :
    s.shutdown.calls = s.calls ++ [.shutdown, .kernelShutdown s.outputBuffer.bytes] := by
  simp [Session.shutdown, h]

/-- What was called stays called. -/
theorem mem_calls_finishWrite {s : Session} {call : Call} (h : call ∈ s.calls) : call ∈ s.finishWrite.calls := by
  rw [Session.finishWrite]
  split
  · split
    · rw [Session.shutdown]
      split
      · exact List.mem_append_left _ h
      · exact List.mem_append_left _ (List.mem_append_left _ h)
    · exact h
  · exact h

/-- The end of a write event completes the shutdown if nothing is buffered any more. -/
theorem finishing_finishWrite {s : Session} (hopen : s.finishWrite.Open) (hdrains : s.finishWrite.Drains)
    (hrequested : .shutdown ∈ s.finishWrite.calls) (hwriting : s.channel.isWriting = true) :
    Finishing s.finishWrite := by
  have hrange : s.outputBuffer.Exact := Session.outputBuffer_finishWrite s ▸ hdrains.inRange
  refine ⟨hopen, hdrains, hrequested, ?_⟩
  rw [Session.finishWrite] at hopen hrequested ⊢
  by_cases hdone : s.outputBuffer.readable = 0
  · rw [if_pos hdone] at hopen hrequested ⊢
    by_cases hstate : s.state = .kDisconnecting
    · have hidle : s.disableWrite.channel.isWriting = false := by
        simp [Session.disableWrite, Util.Channel.isWriting]
      have hempty : s.disableWrite.outputBuffer.bytes = [] := hrange.readable_eq_zero.mp hdone
      rw [if_pos hstate, calls_shutdown_of_idle hidle, hempty]
      exact Or.inr (by simp)
    · rw [if_neg hstate] at hopen hrequested
      exact absurd (hopen.disconnecting hrequested) hstate
  · rw [if_neg hdone]
    exact Or.inl hwriting

/-- A write event completes the shutdown or leaves the output watched. -/
theorem finishing_handleWrite {s : Session} {result : SendResult} (h : s.Open) (hdrains : s.Drains)
    (hwriting : s.channel.isWriting = true) (hrequested : .shutdown ∈ (s.handleWrite result).calls) :
    Finishing (s.handleWrite result) := by
  have hopen := h.handleWrite result
  have hdrains' := hdrains.handleWrite result
  rw [Session.handleWrite, if_pos hwriting] at hopen hdrains' hrequested ⊢
  cases result with
  | accepted count =>
    rw [Session.writeOutput] at hopen hdrains' hrequested ⊢
    exact finishing_finishWrite hopen hdrains' hrequested hwriting
  | wouldBlock => exact ⟨hopen, hdrains', hrequested, Or.inl hwriting⟩
  | failed => exact ⟨hopen, hdrains', hrequested, Or.inl hwriting⟩

/-- A write event takes what the kernel accepts out of the buffer. -/
theorem outputBuffer_handleWrite {s : Session} (h : s.Drains) (result : SendResult) :
    (s.handleWrite result).outputBuffer.bytes =
      s.outputBuffer.bytes.drop (ConnectionEvent.writable result).accepts := by
  rw [Session.handleWrite]
  split
  · cases result with
    | accepted count =>
      have htake : (s.outputBuffer.bytes.take count).length ≤ s.outputBuffer.bytes.length :=
        (List.take_sublist _ _).length_le
      rw [Session.writeOutput, Session.outputBuffer_finishWrite, Session.setOutput_outputBuffer,
        (h.inRange.retrieve htake).2,
        ConnectionEvent.accepts, List.length_take]
      rcases Nat.le_total count s.outputBuffer.bytes.length with hsome | hall
      · rw [Nat.min_eq_left hsome]
      · rw [Nat.min_eq_right hall, List.drop_length, List.drop_eq_nil_of_le hall]
    | wouldBlock => rfl
    | failed => rfl
  · next hidle =>
    have hempty : s.outputBuffer.bytes = [] := not_not.mp fun hne => hidle (h.writing.mpr hne)
    rw [hempty, List.drop_nil]

/-- What was called stays called in a write event. -/
theorem mem_calls_handleWrite {s : Session} {call : Call} (h : call ∈ s.calls) (result : SendResult) :
    call ∈ (s.handleWrite result).calls := by
  rw [Session.handleWrite]
  split
  · cases result with
    | accepted count => exact mem_calls_finishWrite (List.mem_append_left _ h)
    | wouldBlock => exact List.mem_append_left _ h
    | failed => exact List.mem_append_left _ h
  · exact h

namespace HttpServer

/-- A reply finishes the connection or does not request a shutdown. -/
theorem finishing_replied {s : Session} (h : s.Open) (hdrains : s.Drains) (hquiet : .shutdown ∉ s.calls)
    {reply : Reply}
    {result : SendResult} (hfits : ReplyFits s reply result)
    (hrequested : .shutdown ∈ (replied s reply result).calls) :
    Finishing (replied s reply result) := by
  have hsent := h.send hquiet reply.text result
  rw [replied] at hrequested ⊢
  split at hrequested
  · next hcloses =>
    rw [if_pos hcloses]
    exact finishing_shutdown hsent.1 (hdrains.send hfits.2)
  · exact absurd hrequested hsent.2

/-- Parsing and answering finishes the connection or does not request a shutdown. -/
theorem finishing_parseInput {server : HttpServer} {inputs : CallbackInputs} {s s' : Session} (h : s.Open)
    (hdrains : s.Drains) (hquiet : .shutdown ∉ s.calls)
    (hfits : ∀ reply ∈ server.reply inputs s, ReplyFits s reply (reply.result inputs))
    (hcall : server.parseInput inputs s = some s') (hrequested : .shutdown ∈ s'.calls) : Finishing s' := by
  cases parsesInput_of_parseInput hcall with
  | ignores => exact absurd hrequested hquiet
  | waits content inputBuffer => exact absurd hrequested hquiet
  | replies content inputBuffer reply content' _ hreply =>
    have hparsed := h.withInput s.timestamp inputBuffer content
    have hfinishing : Finishing (replied { s with content, inputBuffer } reply (reply.result inputs)) :=
      finishing_replied hparsed (hdrains.withInput s.timestamp inputBuffer content) hquiet
        (hfits reply hreply) hrequested
    exact hfinishing.withInput _ _ content'

/-- After `Shutdown`, an event that does not close the connection takes out of the buffer what the kernel
accepts. -/
theorem finishing_step {server : HttpServer} {s s' : Session} {event : ConnectionEvent} (h : Finishing s)
    (hstep : server.connectionStep s event = some s') (hclose : .close ∉ s'.calls) :
    Finishing s' ∧ s'.outputBuffer.bytes = s.outputBuffer.bytes.drop event.accepts := by
  have hshutdown : s.isShutdown = true := by simp [Session.isShutdown, h.isOpen.disconnecting h.requested]
  cases event with
  | readable data inputs =>
    rw [connectionStep] at hstep
    split at hstep
    · cases data with
      | none =>
        obtain rfl := Option.some.inj hstep
        exact ⟨h, rfl⟩
      | some bytes =>
        cases bytes with
        | nil =>
          obtain rfl := Option.some.inj hstep
          exact absurd (List.mem_append_right _ List.mem_cons_self) hclose
        | cons first rest =>
          obtain ⟨timestamp, hparses⟩ := handleMessage_parses server inputs s first rest
          rw [hparses, parseInput, if_pos (by exact hshutdown)] at hstep
          obtain rfl := Option.some.inj hstep
          exact ⟨h.withInput timestamp _ s.content, rfl⟩
    · cases hstep
  | writable result =>
    obtain rfl := Option.some.inj hstep
    refine ⟨?_, outputBuffer_handleWrite h.drains result⟩
    by_cases hwriting : s.channel.isWriting = true
    · exact finishing_handleWrite h.isOpen h.drains hwriting (mem_calls_handleWrite h.requested result)
    · rw [Session.handleWrite, if_neg hwriting]
      exact h
  | idleShutdown =>
    obtain rfl := Option.some.inj hstep
    exact ⟨finishing_shutdown h.isOpen h.drains, congrArg IntBuffer.bytes (Session.outputBuffer_shutdown s)⟩

/-- A graceful connection finishes when it is asked to while it is open. -/
def Finishes (s : Session) : Prop := Graceful s ∧ (s.Open → .shutdown ∈ s.calls → Finishing s)

/-- A closed connection stays closed. -/
theorem closed_step {server : HttpServer} (s : Session) (event : ConnectionEvent) (s' : Session) (h : s.Closed)
    (hstep : server.connectionStep s event = some s') : s'.Closed := by
  cases event with
  | readable data inputs => simp [connectionStep, watchesInput, h.unregistered] at hstep
  | writable result => exact Option.some.inj hstep ▸ h.handleWrite result
  | idleShutdown => exact Option.some.inj hstep ▸ h.shutdown

/-- Every event in range keeps this. -/
theorem finishes_step {server : HttpServer} (s : Session) (event : ConnectionEvent) (s' : Session) (h : Finishes s)
    (hfits : server.OutputFits s event) (hstep : server.connectionStep s event = some s') : Finishes s' := by
  refine ⟨graceful_step s event s' h.1 hfits hstep, fun hopen' hrequested => ?_⟩
  obtain ⟨hopen, hdrains⟩ : s.Open ∧ s.Drains := by
    rcases h.1 with hopen | ⟨hclosed, -⟩
    · exact hopen
    · exact absurd (closed_step s event s' hclosed hstep).closed hopen'.notClosed
  by_cases hbefore : .shutdown ∈ s.calls
  · exact (finishing_step (h.2 hopen hbefore) hstep hopen'.notClosed).1
  cases event with
  | readable data inputs =>
    rw [connectionStep] at hstep
    split at hstep
    · cases data with
      | none =>
        obtain rfl := Option.some.inj hstep
        exact absurd hrequested hbefore
      | some bytes =>
        cases bytes with
        | nil =>
          obtain rfl := Option.some.inj hstep
          exact absurd (List.mem_append_right _ List.mem_cons_self) hopen'.notClosed
        | cons first rest =>
          obtain ⟨timestamp, hparses⟩ := handleMessage_parses server inputs s first rest
          rw [hparses] at hstep
          exact finishing_parseInput (hopen.withInput timestamp _ s.content)
            (hdrains.withInput timestamp _ s.content)
            hbefore hfits hstep hrequested
    · cases hstep
  | writable result =>
    obtain rfl := Option.some.inj hstep
    by_cases hwriting : s.channel.isWriting = true
    · exact finishing_handleWrite hopen hdrains hwriting hrequested
    · rw [Session.handleWrite, if_neg hwriting] at hrequested
      exact absurd hrequested hbefore
  | idleShutdown =>
    obtain rfl := Option.some.inj hstep
    exact finishing_shutdown hopen hdrains

/-- After `Shutdown` nothing is replied. -/
theorem outputFits_of_shutdown {server : HttpServer} {s : Session} (h : s.isShutdown = true)
    (event : ConnectionEvent) :
    server.OutputFits s event := by
  have hnone (inputs : CallbackInputs) (inputBuffer : Buffer) : server.reply inputs { s with inputBuffer } = none :=
    if_pos h
  cases event with
  | readable data inputs =>
    cases data with
    | none => trivial
    | some bytes =>
      cases bytes with
      | nil => trivial
      | cons first rest =>
        intro reply hreply
        rw [hnone] at hreply
        cases hreply
  | writable result => trivial
  | idleShutdown => trivial

/-- After `Shutdown` and before the close, a run takes out of the buffer what the kernel accepts, and adds
nothing. -/
theorem finishing_run {server : HttpServer} {s t : Session} {events : List ConnectionEvent} (h : Finishing s)
    (hrun : run server.connectionStep s events = some t) (hclose : .close ∉ t.calls) :
    Finishing t ∧ t.outputBuffer.bytes = s.outputBuffer.bytes.drop (accepted events) ∧ t.output = s.output := by
  induction events generalizing s with
  | nil =>
    obtain rfl := Option.some.inj hrun
    exact ⟨h, rfl, rfl⟩
  | cons event rest ih =>
    obtain ⟨m, hfirst, hrest⟩ := run_cons_eq_some.mp hrun
    have hshutdown : s.isShutdown = true := by simp [Session.isShutdown, h.isOpen.disconnecting h.requested]
    have hstill : .close ∉ m.calls := by
      rcases orderly_step s event m (Or.inl h.isOpen) hfirst with hopen | hclosed
      · exact hopen.notClosed
      · exact absurd (run_invariant closed_step hclosed hrest).closed hclose
    obtain ⟨hfinishing, hbuffer⟩ := finishing_step h hfirst hstill
    obtain ⟨hfinishing', hbuffer', houtput'⟩ := ih hfinishing hrest
    have hquiet := (finished_step s event m (Or.inl ⟨h.isOpen, hshutdown⟩) hfirst).2
    have houtput := output_step (Or.inl ⟨h.isOpen, h.drains⟩) (outputFits_of_shutdown hshutdown event) hfirst
    rw [hquiet, List.flatMap_nil, List.append_nil] at houtput
    refine ⟨hfinishing', ?_, houtput'.trans houtput⟩
    rw [hbuffer', hbuffer, List.drop_drop, accepted]

/-- In every run of a connection in which the `int` results of every reply are in range and `Shutdown` was
called, and in every continuation of it that does not close the connection: the half-close has come exactly
when the kernel has accepted as many bytes as were buffered. By then it has got all bytes that were accepted
or buffered, and nothing else; before, it watches the descriptor for output. -/
theorem halfClose_run {server : HttpServer} {address fd : ℕ} {now : ℤ} {content : HttpContent} {epoller : Epoller}
    {events more : List ConnectionEvent} {s t : Session}
    (hmap : epoller.channelmap fd = none) (hinterest : epoller.interest fd = none)
    (hfits : Meets server.connectionStep server.OutputFits (.started address fd now content epoller) events)
    (hrun : run server.connectionStep (.started address fd now content epoller) events = some s)
    (hrequested : .shutdown ∈ s.calls) (hmore : run server.connectionStep s more = some t)
    (hclose : .close ∉ t.calls) :
    (.kernelShutdown [] ∈ t.calls ↔ s.outputBuffer.bytes.length ≤ accepted more) ∧
    (.kernelShutdown [] ∈ t.calls → t.calls.flatMap Call.kernelBytes = s.output) ∧
    (.kernelShutdown [] ∉ t.calls → ∃ event,
      t.epoller.interest t.channel.fd = some (event, t.channel.address) ∧ event.epollout = true) := by
  have hstart : Finishes (.started address fd now content epoller) :=
    ⟨Or.inl ⟨Session.open_started hmap hinterest, .started⟩, fun _ hmem => by cases hmem⟩
  have hfinishes := run_invariant_of_meets finishes_step hstart hfits hrun
  have hopen : s.Open := by
    rcases hfinishes.1 with ⟨hopen, -⟩ | ⟨hclosed, -⟩
    · exact hopen
    · exact absurd (run_invariant closed_step hclosed hmore).closed hclose
  obtain ⟨hfinishing, hbuffer, houtput⟩ := finishing_run (hfinishes.2 hopen hrequested) hmore hclose
  rw [hfinishing.kernelShutdown_iff]
  refine ⟨?_, fun hempty => ?_, hfinishing.interest⟩
  · rw [hbuffer, List.drop_eq_nil_iff]
  · rw [← houtput, Session.output, hempty, List.append_nil]

/-- The first read brings a request whose response closes the connection. -/
def requestEvents : List ConnectionEvent := [.readable (some shortRequest) acceptingInputs]

/-- The idle timer runs off, and the peer takes the rest of the response in two parts. -/
def takingEvents : List ConnectionEvent := [.idleShutdown, .writable (.accepted 5), .writable (.accepted 1000)]

/-- A peer that takes the response in parts gets all of it before the half-close. -/
theorem halfClose_run_slowPeer : ∃ s t,
    run (defaultServer false).connectionStep (.started 0 5 0 (.new .kGet .kUnknown) .new) requestEvents = some s ∧
      run (defaultServer false).connectionStep s takingEvents = some t ∧ .kernelShutdown [] ∈ t.calls := by
  have hfirst : (run (defaultServer false).connectionStep (.started 0 5 0
    (.new .kGet .kUnknown) .new) requestEvents).map
      (fun s => decide (.shutdown ∈ s.calls) && decide (s.outputBuffer.bytes.length ≤ accepted takingEvents)) =
        some true := by
    decide +kernel
  have hboth : (run (defaultServer false).connectionStep (.started 0 5 0 (.new .kGet .kUnknown) .new)
      (requestEvents ++ takingEvents)).map (fun t => decide (.close ∉ t.calls)) = some true := by
    decide +kernel
  obtain ⟨s, hrun, hs⟩ := Option.map_eq_some_iff.mp hfirst
  obtain ⟨t, hall, ht⟩ := Option.map_eq_some_iff.mp hboth
  obtain ⟨m, hm, hmore⟩ := run_append_eq_some.mp hall
  obtain rfl := Option.some.inj (hm.symm.trans hrun)
  rw [Bool.and_eq_true, decide_eq_true_eq, decide_eq_true_eq] at hs
  exact ⟨m, t, hrun, hmore, (halfClose_run rfl rfl (by decide +kernel) hrun hs.1 hmore
    (of_decide_eq_true ht)).1.mpr hs.2⟩

end HttpServer

end WebServer.Http
