import WebServer.Foundation.Run
import WebServer.Http.Server
import WebServer.Util.ConnectionOrder

/-!
# Graceful shutdown of a connection

A connection is driven by readable events, writable events and the `Shutdown` call of the
idle timer, in any order and with any results of the kernel. Readable events are reported
only while the kernel watches the descriptor for input. No message follows a call of `Shutdown`,
and no bytes follow a `::shutdown`. As long as every reply keeps the indices of the output buffer
in the range of `int`, writing is enabled before the close exactly while output is buffered, and
`::shutdown` is called only with an empty output buffer.
-/

namespace WebServer.Http

open WebServer.Foundation
open WebServer.Util (Bytes Buffer RawBuffer IntBuffer Session SendResult Call Epoller beforeClose beforeClose_append
  beforeClose_close ascii initialSize preIndex)

/-- What happens to a connection: input, its end or a read error, room for output, and the
idle timer. -/
inductive ConnectionEvent where
  | readable (data : Option Bytes) (inputs : CallbackInputs)
  | writable (result : SendResult)
  | idleShutdown

namespace HttpServer

/-- The kernel reports input for a descriptor that is registered for it. -/
def watchesInput (s : Session) : Bool :=
  match s.epoller.interest s.channel.fd with
  | some (event, _) => event.epollin
  | none => false

/-- Handle one event. -/
def connectionStep (server : HttpServer) (s : Session) : ConnectionEvent → Option Session
  | .readable data inputs => if watchesInput s then server.handleMessage inputs s data else none
  | .writable result => some (s.handleWrite result)
  | .idleShutdown => some s.shutdown

/-- The connection is open, or it is closed. -/
def Orderly (s : Session) : Prop := s.Open ∨ s.Closed

/-- A reply before a shutdown keeps the connection open. -/
theorem open_replied {s : Session} (h : s.Open) (hquiet : .shutdown ∉ s.calls) (reply : Reply)
    (result : SendResult) :
    (replied s reply result).Open := by
  have hsent := (h.send hquiet reply.text result).1
  rw [replied]
  split
  · exact hsent.shutdown
  · exact hsent

/-- An open connection that was not shut down was not asked to. -/
theorem quiet_of_active {s : Session} (h : s.Open) (hactive : s.isShutdown = false) : .shutdown ∉ s.calls := by
  intro hmem
  simp [Session.isShutdown, h.disconnecting hmem] at hactive

/-- Parsing and answering keeps the connection open. -/
theorem open_parseInput {server : HttpServer} {inputs : CallbackInputs} {s s' : Session} (h : s.Open)
    (hcall : server.parseInput inputs s = some s') : s'.Open := by
  cases parsesInput_of_parseInput hcall with
  | ignores => exact h
  | waits content inputBuffer => exact h.withInput s.timestamp inputBuffer content
  | replies content inputBuffer reply content' hactive =>
    have hquiet : .shutdown ∉ s.calls := quiet_of_active h hactive
    have hparsed := h.withInput s.timestamp inputBuffer content
    exact (open_replied hparsed hquiet reply (reply.result inputs)).withInput _ _ content'

/-- `MessageCallback` keeps the connection open. -/
theorem open_messageCallback {server : HttpServer} {inputs : CallbackInputs} {s s' : Session} (h : s.Open)
    (hcall : server.messageCallback inputs s = some s') : s'.Open := by
  apply open_parseInput _ hcall
  split
  · exact h.withInput _ _ _
  · exact h

/-- `HandleMessage` keeps the connection open or closes it. -/
theorem orderly_handleMessage {server : HttpServer} {inputs : CallbackInputs} {s s' : Session} {data : Option Bytes}
    (h : s.Open) (hcall : server.handleMessage inputs s data = some s') : Orderly s' := by
  cases data with
  | none => exact Or.inl (Option.some.inj hcall ▸ h)
  | some bytes =>
    cases bytes with
    | nil => exact Or.inr (Option.some.inj hcall ▸ h.handleClose)
    | cons first rest => exact Or.inl (open_messageCallback (h.withInput _ _ _) hcall)

/-- Every event keeps the connection orderly. -/
theorem orderly_step {server : HttpServer} (s : Session) (event : ConnectionEvent) (s' : Session) (h : Orderly s)
    (hstep : server.connectionStep s event = some s') : Orderly s' := by
  cases event with
  | readable data inputs =>
    rw [connectionStep] at hstep
    split at hstep
    · next hwatched =>
      rcases h with hopen | hclosed
      · exact orderly_handleMessage hopen hstep
      · simp [watchesInput, hclosed.unregistered] at hwatched
    · cases hstep
  | writable result =>
    obtain rfl := Option.some.inj hstep
    exact h.imp (fun hopen => hopen.handleWrite result) fun hclosed => hclosed.handleWrite result
  | idleShutdown =>
    obtain rfl := Option.some.inj hstep
    exact h.imp Session.Open.shutdown Session.Closed.shutdown

/-- The `int` results of a reply are in range: the response is written to a buffer of its own, and handed to
`Send`. -/
def ReplyFits (s : Session) (reply : Reply) (result : SendResult) : Prop :=
  initialSize + reply.text.length < 2147483648 ∧ s.SendFits reply.text result

instance (s : Session) (reply : Reply) (result : SendResult) : Decidable (ReplyFits s reply result) :=
  inferInstanceAs (Decidable (_ ∧ _))

/-- The `int` results of the reply to an event are in range. -/
def OutputFits (server : HttpServer) (s : Session) : ConnectionEvent → Prop
  | .readable (some (first :: rest)) inputs =>
    ∀ reply ∈ server.reply inputs { s with inputBuffer := s.inputBuffer.readFd (first :: rest) },
      ReplyFits s reply (reply.result inputs)
  | _ => True

instance (server : HttpServer) (s : Session) : (event : ConnectionEvent) → Decidable (server.OutputFits s event)
  | .readable (some (first :: rest)) inputs =>
    inferInstanceAs (Decidable (∀ reply ∈ server.reply inputs
      { s with inputBuffer := s.inputBuffer.readFd (first :: rest) },
      ReplyFits s reply (reply.result inputs)))
  | .readable (some []) _ => isTrue trivial
  | .readable none _ => isTrue trivial
  | .writable _ => isTrue trivial
  | .idleShutdown => isTrue trivial

/-- Every `::shutdown` before the close found the output buffer empty. -/
def Drained (s : Session) : Prop := ∀ buffered, .kernelShutdown buffered ∈ beforeClose s.calls → buffered = []

/-- The connection is open and drains its output buffer, or it did so until it was closed. -/
def Graceful (s : Session) : Prop := s.Open ∧ s.Drains ∨ s.Closed ∧ Drained s

/-- A reply in range keeps writing enabled exactly while output is buffered. -/
theorem drains_replied {s : Session} (h : s.Drains) {reply : Reply} {result : SendResult}
    (hfits : ReplyFits s reply result) : (replied s reply result).Drains := by
  have hsent := h.send hfits.2
  rw [replied]
  split
  · exact hsent.shutdown
  · exact hsent

/-- So does parsing and answering. -/
theorem drains_parseInput {server : HttpServer} {inputs : CallbackInputs} {s s' : Session} (h : s.Drains)
    (hfits : ∀ reply ∈ server.reply inputs s, ReplyFits s reply (reply.result inputs))
    (hcall : server.parseInput inputs s = some s') : s'.Drains := by
  cases parsesInput_of_parseInput hcall with
  | ignores => exact h
  | waits content inputBuffer => exact h.withInput s.timestamp inputBuffer content
  | replies content inputBuffer reply content' _ hreply =>
    have hparsed := h.withInput s.timestamp inputBuffer content
    have hreplied : (replied { s with content, inputBuffer } reply (reply.result inputs)).Drains :=
      drains_replied hparsed (hfits reply hreply)
    exact hreplied.withInput _ _ content'

/-- The close does not come with a `::shutdown`. -/
theorem drained_handleClose {s : Session} (h : s.Open) (hdrains : s.Drains) : Drained s.handleClose := by
  intro buffered hmem
  have hbefore : beforeClose s.handleClose.calls = s.calls := beforeClose_close h.notClosed
  exact hdrains.drained buffered (hbefore ▸ hmem)

/-- A shutdown after the close does not count. -/
theorem drained_shutdown {s : Session} (h : s.Closed) (hdrained : Drained s) : Drained s.shutdown := by
  have hbefore (more : List Call) : beforeClose (s.calls ++ more) = beforeClose s.calls :=
    beforeClose_append h.closed more
  have hcalls : s.shutdown.calls = s.calls ++ [.shutdown] ++ [.kernelShutdown s.outputBuffer.bytes] := by
    simp [Session.shutdown, h.notWriting]
  intro buffered hmem
  rw [hcalls, List.append_assoc, hbefore] at hmem
  exact hdrained buffered hmem

/-- Every event in range keeps the connection graceful. -/
theorem graceful_step {server : HttpServer} (s : Session) (event : ConnectionEvent) (s' : Session) (h : Graceful s)
    (hfits : server.OutputFits s event) (hstep : server.connectionStep s event = some s') : Graceful s' := by
  cases event with
  | readable data inputs =>
    rw [connectionStep] at hstep
    split at hstep
    · next hwatched =>
      rcases h with ⟨hopen, hdrains⟩ | ⟨hclosed, -⟩
      · cases data with
        | none => exact Or.inl (Option.some.inj hstep ▸ ⟨hopen, hdrains⟩)
        | some bytes =>
          cases bytes with
          | nil =>
            obtain rfl := Option.some.inj hstep
            exact Or.inr ⟨hopen.handleClose, drained_handleClose hopen hdrains⟩
          | cons first rest =>
            obtain ⟨timestamp, hparses⟩ := handleMessage_parses server inputs s first rest
            rw [hparses] at hstep
            exact Or.inl ⟨open_parseInput (hopen.withInput timestamp _ s.content) hstep,
              drains_parseInput (hdrains.withInput timestamp _ s.content) hfits hstep⟩
      · simp [watchesInput, hclosed.unregistered] at hwatched
    · cases hstep
  | writable result =>
    obtain rfl := Option.some.inj hstep
    rcases h with ⟨hopen, hdrains⟩ | ⟨hclosed, hdrained⟩
    · exact Or.inl ⟨hopen.handleWrite result, hdrains.handleWrite result⟩
    · rw [Session.handleWrite, if_neg (by simp [hclosed.notWriting])]
      exact Or.inr ⟨hclosed, hdrained⟩
  | idleShutdown =>
    obtain rfl := Option.some.inj hstep
    rcases h with ⟨hopen, hdrains⟩ | ⟨hclosed, hdrained⟩
    · exact Or.inl ⟨hopen.shutdown, hdrains.shutdown⟩
    · exact Or.inr ⟨hclosed.shutdown, drained_shutdown hclosed hdrained⟩

/-- In every run of a connection no message is handed to `Send` after a call of `Shutdown`, and no `send()` is
called after a `::shutdown`. Where the results of every reply are in range, writing is enabled before the close
exactly while output is buffered, and every `::shutdown` before the close finds the output buffer empty. -/
theorem graceful_run {server : HttpServer} {address fd : ℕ} {now : ℤ} {content : HttpContent} {epoller : Epoller}
    {events : List ConnectionEvent} {s : Session}
    (hmap : epoller.channelmap fd = none) (hinterest : epoller.interest fd = none)
    (hrun : run server.connectionStep (.started address fd now content epoller) events = some s) :
    s.calls.Pairwise Call.MayFollow ∧
    (Meets server.connectionStep server.OutputFits (.started address fd now content epoller) events →
      (.close ∉ s.calls → (s.channel.isWriting = true ↔ s.outputBuffer.bytes ≠ [])) ∧
      ∀ buffered, .kernelShutdown buffered ∈ beforeClose s.calls → buffered = []) := by
  have hopen : (Session.started address fd now content epoller).Open := Session.open_started hmap hinterest
  refine ⟨?_, fun hfits => ?_⟩
  · rcases run_invariant orderly_step (Or.inl hopen) hrun with hopen' | hclosed
    · exact hopen'.ordered
    · exact hclosed.ordered
  · rcases run_invariant_of_meets graceful_step (Or.inl ⟨hopen, .started⟩) hfits hrun with
      ⟨-, hdrains⟩ | ⟨hclosed, hdrained⟩
    · exact ⟨fun _ => hdrains.writing, fun buffered hmem => hdrains.drained buffered (List.takeWhile_subset _ hmem)⟩
    · exact ⟨fun hnot => absurd hclosed.closed hnot, hdrained⟩

/-- A server with the default callback. -/
def defaultServer (autoCloseIdleconnection : Bool) : HttpServer := ⟨autoCloseIdleconnection, httpDefaultCallback⟩

/-- The peer takes a part of the response, the idle timer shuts the connection down, the peer takes the rest and
closes, and the idle timer runs off again. -/
def slowPeerEvents : List ConnectionEvent :=
  [.readable (some (ascii "GET / HTTP/1.1\r\n\r\n")) ⟨1, .wouldBlock, .accepted 5, 0, .kGet, .kUnknown⟩,
    .idleShutdown,
    .writable (.accepted 1000), .readable (some []) ⟨2, .wouldBlock, .wouldBlock, 0, .kGet, .kUnknown⟩,
      .idleShutdown]

/-- The output buffer is empty when `::shutdown` is called for the slow peer. -/
theorem graceful_slowPeer : ∃ s, run (defaultServer true).connectionStep
    (.started 0 5 0 (.new .kGet .kUnknown) .new) slowPeerEvents = some s ∧
    ∀ buffered, .kernelShutdown buffered ∈ beforeClose s.calls → buffered = [] := by
  have hruns : (run (defaultServer true).connectionStep (.started 0 5 0 (.new .kGet .kUnknown) .new)
      slowPeerEvents).isSome := by decide +kernel
  obtain ⟨s, hrun⟩ := Option.isSome_iff_exists.mp hruns
  exact ⟨s, hrun, ((graceful_run rfl rfl hrun).2 (by decide +kernel)).2⟩

/-- A server whose responses have the given body. -/
def bodyServer (body : Bytes) : HttpServer := ⟨false, fun _ response => response.setBody body⟩

/-- The response of this server to a request that keeps the connection. -/
def bodyResponse (body : Bytes) : HttpResponse := (HttpResponse.new false 200).setBody body

/-- A request that keeps the connection. -/
def bodyRequest : Bytes := ascii "GET / HTTP/1.1\r\n\r\n"

/-- The peer takes nothing. -/
def refusingInputs : CallbackInputs := ⟨0, .accepted 0, .accepted 0, 200, .kGet, .kUnknown⟩

/-- The request behind what is left in the first buffer is complete, and leaves the second buffer. -/
def ParsesBodyRequest (inputBuffer left : Buffer) : Prop :=
  ∃ content, (HttpContent.new .kGet .kUnknown).parseContent (inputBuffer.readFd bodyRequest) =
    some (.returned true content left) ∧ content.getCompleteRequest = true ∧ content.request.closeFlag = false

/-- The buffer which the parser leaves behind a complete request that keeps the connection. -/
def leftByRequest : Option (ParseOutcome Buffer) → Option Buffer
  | some (.returned true content left) =>
    if content.getCompleteRequest = true ∧ content.request.closeFlag = false then some left else none
  | _ => none

/-- Only what is complete and keeps the connection leaves a buffer. -/
theorem eq_of_leftByRequest {outcome : Option (ParseOutcome Buffer)} {left : Buffer}
    (h : leftByRequest outcome = some left) : ∃ content, outcome = some (.returned true content left) ∧
      content.getCompleteRequest = true ∧ content.request.closeFlag = false := by
  cases outcome with
  | none => cases h
  | some outcome =>
    cases outcome with
    | threw => cases h
    | returned parseok content inputBuffer =>
      cases parseok with
      | false => cases h
      | true =>
        obtain ⟨hcomplete, hleft⟩ := Option.ite_none_right_eq_some.mp h
        obtain rfl := Option.some.inj hleft
        exact ⟨content, rfl, hcomplete⟩

/-- The buffer which the request leaves behind what was in the buffer before. -/
def leftByBodyRequest (inputBuffer : Buffer) : Option Buffer :=
  leftByRequest ((HttpContent.new .kGet .kUnknown).parseContent (inputBuffer.readFd bodyRequest))

/-- Two of these requests in a row are parsed. -/
theorem parsesBodyRequest_twice : ∃ between last, ParsesBodyRequest .new between ∧
    ParsesBodyRequest between last := by
  have htwice : ((leftByBodyRequest .new).bind leftByBodyRequest).isSome := by decide +kernel
  obtain ⟨last, hlast⟩ := Option.isSome_iff_exists.mp htwice
  obtain ⟨between, hfirst, hsecond⟩ := Option.bind_eq_some_iff.mp hlast
  exact ⟨between, last, eq_of_leftByRequest hfirst, eq_of_leftByRequest hsecond⟩

/-- What a peer that takes nothing leaves of a connection between two requests. -/
structure Piling (s : Session) (inputBuffer : Buffer) (outputBuffer : IntBuffer) : Prop where
  isOpen : s.Open
  active : s.isShutdown = false
  content : s.content = .new .kGet .kUnknown
  inputBuffer : s.inputBuffer = inputBuffer
  outputBuffer : s.outputBuffer = outputBuffer

/-- The kernel reports input for an open connection. -/
theorem watchesInput_of_open {s : Session} (h : s.Open) : watchesInput s = true := by
  have hinStep := h.inStep
  rw [Epoller.InStep, h.added] at hinStep
  rw [watchesInput, hinStep.2]
  exact h.reading

/-- A message of which the kernel takes nothing piles up. -/
theorem piling_send {s : Session} (h : s.Open) (hactive : s.isShutdown = false) {message : Bytes}
    (hlength : message.length < 2147483648) (hne : message ≠ []) :
    Piling { s.send message (.accepted 0) with content := .new .kGet .kUnknown } s.inputBuffer
        (s.outputBuffer.append message) ∧
      (s.send message (.accepted 0)).channel.isWriting = true := by
  have hsame := Session.sameInput_send s message (.accepted 0)
  have hsent := (h.send (quiet_of_active h hactive) message (.accepted 0)).1
  obtain ⟨houtput, hwriting⟩ := Session.send_refused hlength hne
  refine ⟨⟨hsent.withInput _ _ _, ?_, rfl, hsame.inputBuffer, houtput⟩, hwriting⟩
  rw [← hactive, Session.isShutdown, Session.isShutdown, hsame.state]

/-- The response to another request is appended to the output buffer. -/
theorem piling_step {s : Session} {body : Bytes} {inputBuffer left : Buffer} {outputBuffer : IntBuffer}
    (h : Piling s inputBuffer outputBuffer) (hparse : ParsesBodyRequest inputBuffer left)
    (hlength : (bodyResponse body).text.length < 2147483648) (hne : (bodyResponse body).text ≠ []) :
    ∃ s', (bodyServer body).connectionStep s (.readable (some bodyRequest) refusingInputs) = some s' ∧
      Piling s' left (outputBuffer.append (bodyResponse body).text) ∧ s'.channel.isWriting = true := by
  obtain ⟨content, hcontent, hcomplete, hclose⟩ := hparse
  have hresponse : (bodyServer body).response content.request refusingInputs.statusCode = bodyResponse body := by
    rw [response, hclose]
    rfl
  have hkeeps : (Reply.response content.request (bodyResponse body)).closes = false := rfl
  obtain ⟨first, rest, hdata⟩ : ∃ first rest, bodyRequest = first :: rest := ⟨_, _, rfl⟩
  obtain ⟨timestamp, hparses⟩ := handleMessage_parses (bodyServer body) refusingInputs s first rest
  have hparsed : s.content.parseContent (s.inputBuffer.readFd bodyRequest) =
    some (.returned true content left) := by
    rw [h.content, h.inputBuffer, hcontent]
  have hcall : (bodyServer body).parseInput refusingInputs
      { s with timestamp, inputBuffer := s.inputBuffer.readFd bodyRequest } = _ :=
    parseInput_replied h.active hparsed hcomplete
  rw [hresponse, replied_of_keeps hkeeps] at hcall
  have hpiles := piling_send (s := { s with timestamp, inputBuffer := left, content })
    (h.isOpen.withInput timestamp left content) h.active hlength hne
  rw [← h.outputBuffer]
  refine ⟨_, ?_, hpiles⟩
  rw [connectionStep, if_pos (watchesInput_of_open h.isOpen), hdata, hparses, ← hdata]
  exact hcall

/-- Two responses of `2^30` bytes which the peer does not take wrap the write index of the output buffer: writing is
enabled, and nothing is readable in the output buffer. -/
theorem not_graceful_longBody : ∃ s, run (bodyServer (List.replicate 1073741824 0)).connectionStep
      (.started 0 5 0 (.new .kGet .kUnknown) .new)
      [.readable (some bodyRequest) refusingInputs, .readable (some bodyRequest) refusingInputs] = some s ∧
    .close ∉ s.calls ∧ s.channel.isWriting = true ∧ s.outputBuffer.bytes = [] := by
  have hbody : (List.replicate 1073741824 (0 : UInt8)).length = 1073741824 := List.length_replicate
  generalize List.replicate 1073741824 (0 : UInt8) = body at hbody ⊢
  have hlow := HttpResponse.length_body_le (bodyResponse body)
  have hhigh := HttpResponse.length_text_le_parts (bodyResponse body)
  have hbody' : (bodyResponse body).body.length = 1073741824 := hbody
  have hstatus : (bodyResponse body).statusMessage = [] := rfl
  have htype : (bodyResponse body).type = ascii "text/plain" := rfl
  have hletters : (ascii "text/plain").length = 10 := by decide
  rw [hbody'] at hlow
  rw [hbody', hstatus, htype, hletters, List.length_nil] at hhigh
  have hinitial : initialSize = 1024 := rfl
  have hne : (bodyResponse body).text ≠ [] := List.ne_nil_of_length_pos (by omega)
  obtain ⟨between, last, hfirst, hsecond⟩ := parsesBodyRequest_twice
  have hstart : Piling (.started 0 5 0 (.new .kGet .kUnknown) .new) .new .new :=
    ⟨Session.open_started rfl rfl, rfl, rfl, rfl, rfl⟩
  obtain ⟨m, hm, hpiling, -⟩ := piling_step hstart hfirst (by omega) hne
  obtain ⟨s, hs, hpiling', hwriting⟩ := piling_step hpiling hsecond (by omega) hne
  refine ⟨s, ?_, hpiling'.isOpen.notClosed, hwriting, ?_⟩
  · rw [run_cons, hm, Option.bind_some, run_cons, hs]
    rfl
  · rw [hpiling'.outputBuffer]
    exact IntBuffer.append_twice_wraps (by omega) (by omega)

end HttpServer

end WebServer.Http
