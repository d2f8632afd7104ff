import WebServer.Foundation.Trace
import WebServer.Http.Framing
import WebServer.Http.Isolation
import WebServer.Http.RoundTrip
import WebServer.Util.Output

/-!
# The exchange of heads and responses on a connection

Each call of `MessageCallback` replies at most once: with the response to the request which it
completes, or with the 400 response to what it rejects. `exchanges` lists the replies of a run
and whether `Send` kept each of them. The messages handed to `Send` and the bytes on their way
to the peer are determined by this list, and a reply that closes the connection is the last one.
-/

namespace WebServer.Util.Session

/-- `HandleWrite` hands nothing to `Send`. -/
theorem messages_handleWrite (s : Session) (result : SendResult) :
    (s.handleWrite result).messages = s.messages := by
  have hrecord (t : Session) (accepted : Bytes) : (t.record (.kernelSend accepted)).messages = t.messages :=
    (messages_record _ _).trans (List.append_nil _)
  have hfinish (t : Session) : t.finishWrite.messages = t.messages := by
    rw [finishWrite]
    split
    · split
      · exact messages_shutdown _
      · rfl
    · rfl
  rw [handleWrite]
  split
  · cases result with
    | accepted count => exact (hfinish _).trans (hrecord s _)
    | wouldBlock => exact hrecord s []
    | failed => exact hrecord s []
  · rfl

/-- Closing hands nothing to `Send`. -/
theorem messages_handleClose (s : Session) : s.handleClose.messages = s.messages :=
  (messages_record _ _).trans (List.append_nil _)

/-- Closing does not change the output. -/
theorem output_handleClose (s : Session) : s.handleClose.output = s.output := output_record_nil _ rfl

end WebServer.Util.Session

namespace WebServer.Http

open WebServer.Foundation
open WebServer.Util (Bytes Buffer Session SendResult Epoller ascii crlf initialSize preIndex)

/-- A reply, and whether `Send` sent or buffered all of it. -/
structure Exchange where
  reply : Reply
  kept : Bool

/-- The bytes of the reply that are on their way to the peer. -/
def Exchange.delivered (exchange : Exchange) : Bytes := if exchange.kept then exchange.reply.text else []

namespace HttpServer

/-- The exchange in a call of `MessageCallback`. -/
def callExchange (server : HttpServer) (inputs : CallbackInputs) (s : Session) : Option Exchange :=
  (server.reply inputs s).map fun reply => ⟨reply, s.KeepsMessage (.send reply.text (reply.result inputs))⟩

/-- The exchange while an event is handled. -/
def eventExchange (server : HttpServer) (s : Session) : ConnectionEvent → Option Exchange
  | .readable (some (first :: rest)) inputs =>
    server.callExchange inputs { s with inputBuffer := s.inputBuffer.readFd (first :: rest) }
  | _ => none

/-- The exchanges while events are handled. -/
def exchanges (server : HttpServer) : Session → List ConnectionEvent → List Exchange :=
  trace server.connectionStep fun s event => (server.eventExchange s event).toList

/-- What an exchange does to the connection, whatever the output buffer does. -/
structure Exchanged (s : Session) (exchange : Option Exchange) (s' : Session) : Prop where
  messages : s'.messages = s.messages ++ (exchange.map (·.reply.text)).toList
  shutdown : s'.isShutdown = (s.isShutdown || exchange.any (·.reply.closes))

/-- Nothing is exchanged. -/
theorem Exchanged.none {s s' : Session} (hmessages : s'.messages = s.messages)
    (hshutdown : s'.isShutdown = s.isShutdown) : Exchanged s none s' where
  messages := hmessages.trans (List.append_nil _).symm
  shutdown := hshutdown.trans (Bool.or_false _).symm

/-- A reply is handed to `Send`, and followed by `Shutdown` if it closes the connection. -/
theorem exchanged_replied (s : Session) (reply : Reply) (result : SendResult) (kept : Bool) :
    Exchanged s (some ⟨reply, kept⟩) (replied s reply result) := by
  have hmessages := Session.messages_send s reply.text result
  rw [replied]
  split
  · next hcloses =>
    refine ⟨(Session.messages_shutdown _).trans hmessages, ?_⟩
    rw [Session.isShutdown, (Session.sameInput_shutdown _).state, Option.any_some, hcloses, Bool.or_true]
    rfl
  · next hopen =>
    refine ⟨hmessages, ?_⟩
    rw [Session.isShutdown, (Session.sameInput_send _ _ _).state, Option.any_some,
      Bool.eq_false_of_not_eq_true hopen,
      Bool.or_false]
    rfl

/-- `MessageCallback` behind the update of the timestamp makes the exchange. -/
theorem exchanged_parseInput {server : HttpServer} {inputs : CallbackInputs} {s s' : Session}
    (hcall : server.parseInput inputs s = some s') : Exchanged s (server.callExchange inputs s) s' := by
  cases parsesInput_of_parseInput hcall with
  | ignores _ hreply =>
    rw [callExchange, hreply]
    exact .none rfl rfl
  | waits content inputBuffer hreply =>
    rw [callExchange, hreply]
    exact .none rfl rfl
  | replies content inputBuffer reply content' _ hreply =>
    rw [callExchange, hreply]
    have hexchanged := exchanged_replied { s with content, inputBuffer } reply (reply.result inputs)
      (s.KeepsMessage (.send reply.text (reply.result inputs)))
    exact ⟨hexchanged.messages, hexchanged.shutdown⟩

/-- Every event makes its exchange. The end of the stream and the idle timer change the state of the
connection besides, and exchange nothing. -/
theorem exchanged_step {server : HttpServer} {s s' : Session} {event : ConnectionEvent}
    (hstep : server.connectionStep s event = some s') :
    Exchanged s (server.eventExchange s event) s' ∨
      event.keepsOpen = false ∧ server.eventExchange s event = none ∧ s'.messages = s.messages := by
  cases event with
  | readable data inputs =>
    rw [connectionStep] at hstep
    split at hstep
    · cases data with
      | none =>
        obtain rfl := Option.some.inj hstep
        exact Or.inl (.none rfl rfl)
      | some bytes =>
        cases bytes with
        | nil =>
          obtain rfl := Option.some.inj hstep
          exact Or.inr ⟨rfl, rfl, Session.messages_handleClose s⟩
        | cons first rest =>
          have hparse := exchanged_parseInput hstep
          rw [eventExchange]
          split at hparse
          · exact Or.inl ⟨hparse.messages, hparse.shutdown⟩
          · exact Or.inl ⟨hparse.messages, hparse.shutdown⟩
    · cases hstep
  | writable result =>
    obtain rfl := Option.some.inj hstep
    refine Or.inl (.none (Session.messages_handleWrite s result) ?_)
    rw [Session.isShutdown, (Session.sameInput_handleWrite s result).state, Session.isShutdown]
  | idleShutdown =>
    obtain rfl := Option.some.inj hstep
    exact Or.inr ⟨rfl, rfl, Session.messages_shutdown s⟩

/-- A step hands the text of its reply to `Send`. -/
theorem messages_step {server : HttpServer} {s s' : Session} {event : ConnectionEvent}
    (hstep : server.connectionStep s event = some s') :
    s'.messages = s.messages ++ (server.eventExchange s event).toList.flatMap fun exchange =>
      [exchange.reply.text] := by
  rcases exchanged_step hstep with hexchanged | ⟨-, hnone, hmessages⟩
  · rw [hexchanged.messages]
    cases server.eventExchange s event <;> rfl
  · rw [hmessages, hnone]
    exact (List.append_nil _).symm

/-- `Send` adds what it keeps of its message to the output. -/
theorem output_send_eq {s : Session} (h : s.Drains) {message : Bytes} {result : SendResult}
    (hfits : s.SendFits message result) :
    (s.send message result).output = s.output ++ if s.KeepsMessage (.send message result) then message else [] := by
  split
  · next hkeeps => exact Session.output_send h.inRange hfits hkeeps
  · next hdrops => rw [(Session.output_send_lost hdrops).1, List.append_nil]

/-- A reply in range adds what is delivered of it to the output. -/
theorem output_replied {s : Session} (h : s.Drains) {reply : Reply} {result : SendResult}
    (hfits : ReplyFits s reply result) :
    (replied s reply result).output =
      s.output ++ Exchange.delivered ⟨reply, s.KeepsMessage (.send reply.text result)⟩ := by
  have hsent : (s.send reply.text result).output =
      s.output ++ Exchange.delivered ⟨reply, s.KeepsMessage (.send reply.text result)⟩ := by
    rw [output_send_eq h hfits.2]
    simp [Exchange.delivered]
  rw [replied]
  split
  · rw [Session.output_shutdown, hsent]
  · exact hsent

/-- So does parsing and answering. -/
theorem output_parseInput {server : HttpServer} {inputs : CallbackInputs} {s s' : Session} (h : s.Drains)
    (hfits : ∀ reply ∈ server.reply inputs s, ReplyFits s reply (reply.result inputs))
    (hcall : server.parseInput inputs s = some s') :
    s'.output = s.output ++ (server.callExchange inputs s).toList.flatMap Exchange.delivered := by
  cases parsesInput_of_parseInput hcall with
  | ignores _ hreply =>
    rw [callExchange, hreply]
    exact (List.append_nil _).symm
  | waits content inputBuffer hreply =>
    rw [callExchange, hreply]
    exact (List.append_nil _).symm
  | replies content inputBuffer reply content' _ hreply =>
    have houtput : (replied { s with content, inputBuffer } reply (reply.result inputs)).output = _ :=
      output_replied (h.withInput s.timestamp inputBuffer content) (hfits reply hreply)
    rw [callExchange, hreply, Option.map_some, Option.toList_some, List.flatMap_singleton]
    exact houtput

/-- A step in range adds what is delivered of its reply to the output. -/
theorem output_step {server : HttpServer} {s s' : Session} {event : ConnectionEvent} (h : Graceful s)
    (hfits : server.OutputFits s event) (hstep : server.connectionStep s event = some s') :
    s'.output = s.output ++ (server.eventExchange s event).toList.flatMap Exchange.delivered := by
  cases event with
  | readable data inputs =>
    rw [connectionStep] at hstep
    split at hstep
    · next hwatched =>
      rcases h with ⟨-, hdrains⟩ | ⟨hclosed, -⟩
      · cases data with
        | none =>
          obtain rfl := Option.some.inj hstep
          exact (List.append_nil _).symm
        | some bytes =>
          cases bytes with
          | nil =>
            obtain rfl := Option.some.inj hstep
            exact (Session.output_handleClose s).trans (List.append_nil _).symm
          | cons first rest =>
            obtain ⟨timestamp, hparses⟩ := handleMessage_parses server inputs s first rest
            rw [hparses] at hstep
            exact output_parseInput (hdrains.withInput timestamp _ s.content) hfits hstep
      · simp [watchesInput, hclosed.unregistered] at hwatched
    · cases hstep
  | writable result =>
    obtain rfl := Option.some.inj hstep
    have hsame : (s.handleWrite result).output = s.output := by
      rcases h with ⟨-, hdrains⟩ | ⟨hclosed, -⟩
      · exact Session.output_handleWrite hdrains.inRange result
      · rw [Session.handleWrite, if_neg (by simp [hclosed.notWriting])]
    exact hsame.trans (List.append_nil _).symm
  | idleShutdown =>
    obtain rfl := Option.some.inj hstep
    exact (Session.output_shutdown s).trans (List.append_nil _).symm

/-- A run in range adds what is delivered of its replies to the output. -/
theorem output_run {server : HttpServer} {s t : Session} {events : List ConnectionEvent} (h : Graceful s)
    (hfits : Meets server.connectionStep server.OutputFits s events)
    (hrun : run server.connectionStep s events = some t) :
    t.output = s.output ++ (server.exchanges s events).flatMap Exchange.delivered := by
  have hstart : Graceful s ∧ s.output = s.output ++ ([] : List Exchange).flatMap Exchange.delivered :=
    ⟨h, (List.append_nil _).symm⟩
  have houtput := run_invariant_trace_of_meets
    (I := fun (exchanged : List Exchange) m => Graceful m ∧ m.output = s.output ++
      exchanged.flatMap Exchange.delivered)
    (fun exchanged m event m' hm hfit hstep => ⟨graceful_step m event m' hm.1 hfit hstep, by
      rw [output_step hm.1 hfit hstep, hm.2, List.flatMap_append, List.append_assoc]⟩)
    hstart hfits hrun
  exact houtput.2

/-- A run hands the texts of its replies to `Send`. -/
theorem messages_run {server : HttpServer} {s t : Session} {events : List ConnectionEvent}
    (hrun : run server.connectionStep s events = some t) :
    t.messages = s.messages ++ (server.exchanges s events).map (·.reply.text) := by
  rw [run_extends_trace (fun _ _ _ hstep => messages_step hstep) hrun, trace_flatMap]
  exact congrArg (s.messages ++ ·) (List.flatMap_pure_eq_map _ _)

/-- The output buffer holds at most what was handed to `Send`, besides its initial size. -/
def Roomy (s : Session) : Prop := s.outputBuffer.Within (initialSize + s.messages.flatten.length)

/-- A reply adds its text to the messages. -/
theorem messages_replied (s : Session) (reply : Reply) (result : SendResult) :
    (replied s reply result).messages = s.messages ++ [reply.text] := by
  rw [replied]
  split
  · rw [Session.messages_shutdown, Session.messages_send]
  · rw [Session.messages_send]

/-- A reply is in range if it keeps the messages below `2^31` bytes. -/
theorem roomy_replied {s : Session} (h : Roomy s) (reply : Reply) (result : SendResult)
    (hsize : initialSize + (replied s reply result).messages.flatten.length < 2147483648) :
    ReplyFits s reply result ∧ Roomy (replied s reply result) := by
  have hpre : preIndex ≤ initialSize := by decide
  rw [messages_replied, List.flatten_append, List.flatten_singleton, List.length_append, ← Nat.add_assoc] at hsize
  obtain ⟨hfits, hsent⟩ := Session.within_send h reply.text result (hpre.trans (Nat.le_add_right _ _)) hsize
  refine ⟨⟨by omega, hfits⟩, ?_⟩
  rw [Roomy, messages_replied, List.flatten_append, List.flatten_singleton, List.length_append, ← Nat.add_assoc,
    replied]
  split
  · rw [Session.outputBuffer_shutdown]
    exact hsent
  · exact hsent

/-- An event is in range if it keeps the messages below `2^31` bytes. -/
theorem roomy_step {server : HttpServer} {s s' : Session} {event : ConnectionEvent} (h : Roomy s)
    (hstep : server.connectionStep s event = some s')
    (hsize : initialSize + s'.messages.flatten.length < 2147483648) : server.OutputFits s event ∧ Roomy s' := by
  cases event with
  | readable data inputs =>
    rw [connectionStep] at hstep
    split at hstep
    · cases data with
      | none =>
        obtain rfl := Option.some.inj hstep
        exact ⟨trivial, h⟩
      | some bytes =>
        cases bytes with
        | nil =>
          obtain rfl := Option.some.inj hstep
          refine ⟨trivial, ?_⟩
          rw [Roomy, Session.messages_handleClose]
          exact h
        | cons first rest =>
          obtain ⟨timestamp, hparses⟩ := handleMessage_parses server inputs s first rest
          rw [hparses] at hstep
          have hnone
            (hreply : server.reply inputs { s with inputBuffer := s.inputBuffer.readFd (first :: rest) } = none) :
              server.OutputFits s (.readable (some (first :: rest)) inputs) := by
            intro reply hmem
            rw [hreply] at hmem
            cases hmem
          cases parsesInput_of_parseInput hstep with
          | ignores _ hreply => exact ⟨hnone hreply, h⟩
          | waits content inputBuffer hreply => exact ⟨hnone hreply, h⟩
          | replies content inputBuffer reply content' _ hreply =>
            have hroomy : Roomy { s with timestamp, inputBuffer, content } := h
            obtain ⟨hfits, hroomy'⟩ := roomy_replied hroomy reply (reply.result inputs) hsize
            refine ⟨fun other hmem => ?_, hroomy'⟩
            obtain rfl := Option.some.inj (Option.mem_def.mp hmem |>.symm.trans hreply)
            exact hfits
    · cases hstep
  | writable result =>
    obtain rfl := Option.some.inj hstep
    rw [Session.messages_handleWrite] at hsize
    refine ⟨trivial, ?_⟩
    rw [Roomy, Session.messages_handleWrite]
    exact Session.within_handleWrite h result hsize
  | idleShutdown =>
    obtain rfl := Option.some.inj hstep
    refine ⟨trivial, ?_⟩
    rw [Roomy, Session.messages_shutdown, Session.outputBuffer_shutdown]
    exact h

/-- A run in which the messages stay below `2^31` bytes is in range. -/
theorem outputFits_of_messages {server : HttpServer} {s t : Session} {events : List ConnectionEvent} (h : Roomy s)
    (hrun : run server.connectionStep s events = some t)
    (hsize : initialSize + t.messages.flatten.length < 2147483648) :
    Meets server.connectionStep server.OutputFits s events := by
  induction events generalizing s with
  | nil => trivial
  | cons event events ih =>
    obtain ⟨m, hfirst, hrest⟩ := run_cons_eq_some.mp hrun
    have hgrows : m.messages.flatten.length ≤ t.messages.flatten.length := by
      rw [messages_run hrest, List.flatten_append, List.length_append]
      exact Nat.le_add_right _ _
    obtain ⟨hfits, hroomy⟩ := roomy_step h hfirst (by omega)
    exact (meets_cons_of_step hfirst).mpr ⟨hfits, ih hroomy hrest⟩

/-- An established connection has the output buffer it was constructed with. -/
theorem roomy_started (address fd : ℕ) (now : ℤ) (content : HttpContent) (epoller : Epoller) :
    Roomy (.started address fd now content epoller) := WebServer.Util.IntBuffer.within_new

/-- A reply that closes the connection shuts it down. -/
theorem isShutdown_of_closes {server : HttpServer} {s s' : Session} {event : ConnectionEvent} {exchange : Exchange}
    (hstep : server.connectionStep s event = some s') (hexchange : server.eventExchange s event = some exchange)
    (hcloses : exchange.reply.closes = true) : s'.isShutdown = true := by
  rcases exchanged_step hstep with hexchanged | ⟨-, hnone, -⟩
  · rw [hexchanged.shutdown, hexchange, Option.any_some, hcloses, Bool.or_true]
  · rw [hexchange] at hnone
    cases hnone

/-- Only a reply that closes the connection shuts it down, unless the stream ends or the idle timer
runs off. -/
theorem isShutdown_step {server : HttpServer} {s s' : Session} {event : ConnectionEvent}
    (hkeeps : event.keepsOpen = true) (hstep : server.connectionStep s event = some s') :
    s'.isShutdown = (s.isShutdown || (server.eventExchange s event).any (·.reply.closes)) := by
  rcases exchanged_step hstep with hexchanged | ⟨hends, -⟩
  · exact hexchanged.shutdown
  · rw [hkeeps] at hends
    cases hends

/-- The connection was shut down or closed. -/
def Finished (s : Session) : Prop := s.Open ∧ s.isShutdown = true ∨ s.Closed

/-- A finished connection stays finished, and replies to nothing. -/
theorem finished_step {server : HttpServer} (s : Session) (event : ConnectionEvent) (s' : Session) (h : Finished s)
    (hstep : server.connectionStep s event = some s') :
    Finished s' ∧ (server.eventExchange s event).toList = [] := by
  have horderly := orderly_step s event s' (h.imp And.left id) hstep
  cases event with
  | readable data inputs =>
    rw [connectionStep] at hstep
    split at hstep
    · next hwatched =>
      rcases h with ⟨hopen, hshutdown⟩ | hclosed
      · cases data with
        | none =>
          obtain rfl := Option.some.inj hstep
          exact ⟨Or.inl ⟨hopen, hshutdown⟩, rfl⟩
        | some bytes =>
          cases bytes with
          | nil =>
            obtain rfl := Option.some.inj hstep
            exact ⟨Or.inr hopen.handleClose, rfl⟩
          | cons first rest =>
            have hquiet : server.eventExchange s (.readable (some (first :: rest)) inputs) = none := by
              rw [eventExchange, callExchange, reply, if_pos (by exact hshutdown)]
              rfl
            obtain ⟨t, hcall, hsilent⟩ :=
              handleMessage_silent server inputs ⟨hshutdown, rfl⟩ (List.cons_ne_nil first rest)
            obtain rfl := Option.some.inj (hstep.symm.trans hcall)
            exact ⟨horderly.imp_left fun hopen' => ⟨hopen', hsilent.shutdown⟩, congrArg Option.toList hquiet⟩
      · simp [watchesInput, hclosed.unregistered] at hwatched
    · cases hstep
  | writable result =>
    obtain rfl := Option.some.inj hstep
    refine ⟨h.imp (fun hopen => ⟨hopen.1.handleWrite result, ?_⟩) fun hclosed => hclosed.handleWrite result, rfl⟩
    rw [Session.isShutdown, (Session.sameInput_handleWrite s result).state]
    exact hopen.2
  | idleShutdown =>
    obtain rfl := Option.some.inj hstep
    refine ⟨h.imp (fun hopen => ⟨hopen.1.shutdown, ?_⟩) Session.Closed.shutdown, rfl⟩
    rw [Session.isShutdown, (Session.sameInput_shutdown s).state]
    rfl

/-- The requests passed to the response callback are the ones that are answered. -/
theorem request_eventExchange (server : HttpServer) (s : Session) (event : ConnectionEvent) :
    (server.eventExchange s event).bind (·.reply.request) = eventRequest s event := by
  have hcall (inputs : CallbackInputs) (t : Session) :
      (server.callExchange inputs t).bind (·.reply.request) = passedRequest t := by
    rw [callExchange, reply, passedRequest]
    split
    · rfl
    · cases hparse : t.content.parseContent t.inputBuffer with
      | none => rfl
      | some outcome =>
        cases outcome with
        | threw => rfl
        | returned parseok content buffer =>
          cases parseok with
          | false =>
            simp only [HttpContent.parseContent_rejected hparse]
            rfl
          | true =>
            by_cases hcomplete : content.getCompleteRequest
            · simp only [if_pos hcomplete]
              rfl
            · simp only [if_neg hcomplete]
              rfl
  cases event with
  | readable data inputs =>
    cases data with
    | none => rfl
    | some bytes =>
      cases bytes with
      | nil => rfl
      | cons first rest => exact hcall inputs _
  | writable result => rfl
  | idleShutdown => rfl

/-- The requests of a run are those of its exchanges. -/
theorem requests_eq_exchanges (server : HttpServer) (s : Session) (events : List ConnectionEvent) :
    server.requests s events = (server.exchanges s events).filterMap (·.reply.request) := by
  induction events generalizing s with
  | nil => rfl
  | cons event events ih =>
    cases hstep : server.connectionStep s event with
    | none => rw [requests, exchanges, trace, hstep]; rfl
    | some s' =>
      have hrequest := request_eventExchange server s event
      rw [requests_cons hstep, ih, exchanges, trace_cons hstep, List.filterMap_append, ← hrequest]
      cases server.eventExchange s event with
      | none => rfl
      | some exchange => cases hreply : exchange.reply.request <;> simp [hreply]

/-- Nothing is exchanged behind a reply that closes an orderly connection. -/
theorem pairwise_exchanges {server : HttpServer} {s : Session} (h : Orderly s) (events : List ConnectionEvent) :
    (server.exchanges s events).Pairwise fun exchange _ => ¬ exchange.reply.closes = true := by
  apply pairwise_not_ends orderly_step finished_step (fun s event s' horderly hstep => ?_) h
  have horderly' := orderly_step s event s' horderly hstep
  cases hexchange : server.eventExchange s event with
  | none => exact Or.inl rfl
  | some exchange =>
    refine Or.inr ⟨exchange, rfl, fun hends => horderly'.imp_left fun hopen => ⟨hopen, ?_⟩⟩
    exact isShutdown_of_closes hstep hexchange hends

/-- In every run of a connection, the messages handed to `Send` are the texts of its replies, one for
each request passed to the response callback and one for a rejected head, in their order; nothing
follows a reply that closes the connection; and the bytes accepted by the kernel, with the output buffer
behind them, are the texts of the replies which `Send` kept. This is so where the `int` results of every reply
are in range. -/
theorem exchanges_run {server : HttpServer} {address fd : ℕ} {now : ℤ} {content : HttpContent} {epoller : Epoller}
    {events : List ConnectionEvent} {s : Session}
    (hmap : epoller.channelmap fd = none) (hinterest : epoller.interest fd = none)
    (hfits : Meets server.connectionStep server.OutputFits (.started address fd now content epoller) events)
    (hrun : run server.connectionStep (.started address fd now content epoller) events = some s) :
    let exchanges := server.exchanges (.started address fd now content epoller) events
    s.messages = exchanges.map (·.reply.text) ∧
    exchanges.filterMap (·.reply.request) = server.requests (.started address fd now content epoller) events ∧
    (exchanges.Pairwise fun exchange _ => exchange.reply.closes = false) ∧
    s.output = exchanges.flatMap Exchange.delivered := by
  have hopen : (Session.started address fd now content epoller).Open := Session.open_started hmap hinterest
  refine ⟨messages_run hrun, (requests_eq_exchanges _ _ _).symm, ?_, ?_⟩
  · exact (pairwise_exchanges (Or.inl hopen) events).imp Bool.eq_false_of_not_eq_true
  · rw [output_run (Or.inl ⟨hopen, .started⟩) hfits hrun, Session.output_started, List.nil_append]

/-- Every `send()` accepts at most ten bytes. -/
def acceptingInputs : CallbackInputs := ⟨0, .accepted 10, .accepted 10, 0, .kGet, .kUnknown⟩

/-- A response of which the kernel accepts a part, and a rejected head behind it. -/
theorem exchanges_run_rejected : ∃ s, run emptyPageServer.connectionStep
    (.started 0 5 0 (.new .kGet .kUnknown) .new)
      [.readable (some shortRequest) acceptingInputs, .readable (some (ascii "GET\r\n")) acceptingInputs] = some s ∧
    s.messages = [(HttpResponse.mk 200 [] [] (ascii "text/plain") false).text, badRequest] := by
  have hruns : (run emptyPageServer.connectionStep (.started 0 5 0 (.new .kGet .kUnknown) .new)
      [.readable (some shortRequest) acceptingInputs, .readable
        (some (ascii "GET\r\n")) acceptingInputs]).isSome := by
    decide +kernel
  obtain ⟨s, hrun⟩ := Option.isSome_iff_exists.mp hruns
  refine ⟨s, hrun, (exchanges_run rfl rfl (by decide +kernel) hrun).1.trans ?_⟩
  decide +kernel

end HttpServer

end WebServer.Http
