import WebServer.Http.GracefulShutdown
import WebServer.Http.Segmentation

/-!
# Requests on one connection do not influence each other

`requests` lists the requests that are passed to the response callback while a connection
handles its events. When each head arrives after the answer to the previous one, the request
of a head is the one a new connection gets from the bytes of this head alone.
-/

namespace WebServer.Util.Session

/-- Changing the events of the channel does not touch the input side. -/
theorem sameInput_setEvent (s : Session) (event : Events) : SameInput s (s.setEvent event) := ⟨rfl, rfl, rfl⟩

/-- Completing the output does not touch the input side. -/
theorem sameInput_finishWrite (s : Session) : SameInput s s.finishWrite := by
  rw [finishWrite]
  split
  · split
    · next hstate =>
      have hshutdown := sameInput_shutdown s.disableWrite
      exact ⟨hshutdown.state.trans hstate.symm, hshutdown.inputBuffer, hshutdown.content⟩
    · exact sameInput_setEvent s _
  · exact ⟨rfl, rfl, rfl⟩

/-- `HandleWrite` does not touch the input side. -/
theorem sameInput_handleWrite (s : Session) (result : SendResult) : SameInput s (s.handleWrite result) := by
  rw [handleWrite]
  split
  · cases result with
    | accepted count =>
      have hfinish := sameInput_finishWrite ((s.record (.kernelSend (s.outputBuffer.bytes.take count))).setOutput
        (s.outputBuffer.retrieve (s.outputBuffer.bytes.take count).length))
      exact ⟨hfinish.state, hfinish.inputBuffer, hfinish.content⟩
    | wouldBlock => exact ⟨rfl, rfl, rfl⟩
    | failed => exact ⟨rfl, rfl, rfl⟩
  · exact ⟨rfl, rfl, rfl⟩

end WebServer.Util.Session

namespace WebServer.Http

open WebServer.Foundation
open WebServer.Util (Bytes Buffer Session SendResult Epoller ascii crlf)

namespace ConnectionEvent

/-- The bytes an event brings. -/
def data : ConnectionEvent → Bytes
  | readable data _ => data.getD []
  | writable _ => []
  | idleShutdown => []

/-- An event other than the end of the stream and the idle timer. -/
def keepsOpen : ConnectionEvent → Bool
  | readable data _ => data ≠ some []
  | writable _ => true
  | idleShutdown => false

end ConnectionEvent

/-- The bytes that arrive with some events. -/
def arrived (events : List ConnectionEvent) : Bytes := (events.map ConnectionEvent.data).flatten

namespace HttpContent

/-- The request which the content completes exactly at the last of these bytes. -/
def completedRequest (content : HttpContent) (head : Bytes) : Option HttpRequest :=
  match content.parseBytes head with
  | some (.returned true content' []) => if content'.getCompleteRequest then some content'.request else none
  | _ => none

/-- The call of the parser in which a request is completed at the last byte. -/
theorem completedRequest_eq_some {content : HttpContent} {head : Bytes} {request : HttpRequest}
    (h : content.completedRequest head = some request) : ∃ content',
      content.parseBytes head = some (.returned true content' []) ∧ content'.getCompleteRequest = true ∧
        content'.request = request := by
  rw [completedRequest] at h
  split at h
  · next content' hcall =>
    obtain ⟨hcomplete, hrequest⟩ := Option.ite_none_right_eq_some.mp h
    exact ⟨content', hcall, hcomplete, Option.some.inj hrequest⟩
  · cases h

end HttpContent

namespace HttpServer

/-- The request which `MessageCallback` passes to the response callback, if it gets there. -/
def passedRequest (s : Session) : Option HttpRequest :=
  if s.isShutdown then none
  else match s.content.parseContent s.inputBuffer with
    | some (.returned _ content _) => if content.getCompleteRequest then some content.request else none
    | _ => none

/-- The request which is passed to the response callback when an event is handled. -/
def eventRequest (s : Session) : ConnectionEvent → Option HttpRequest
  | .readable (some (first :: rest)) _ => passedRequest
      { s with inputBuffer := s.inputBuffer.readFd (first :: rest) }
  | _ => none

/-- The requests which are passed to the response callback while events are handled. -/
def requests (server : HttpServer) : Session → List ConnectionEvent → List HttpRequest
  | _, [] => []
  | s, event :: events =>
    match server.connectionStep s event with
    | some s' => (eventRequest s event).toList ++ server.requests s' events
    | none => []

/-- The requests of a handled event stand in front of those of the later ones. -/
theorem requests_cons {server : HttpServer} {s s' : Session} {event : ConnectionEvent}
    (hstep : server.connectionStep s event = some s') (events : List ConnectionEvent) :
    server.requests s (event :: events) = (eventRequest s event).toList ++ server.requests s' events := by
  rw [requests, hstep]

/-- The requests of two parts of a run stand one after the other. -/
theorem requests_append {server : HttpServer} {s s' : Session} {first : List ConnectionEvent}
    (hrun : run server.connectionStep s first = some s') (second : List ConnectionEvent) :
    server.requests s (first ++ second) = server.requests s first ++ server.requests s' second := by
  induction first generalizing s with
  | nil =>
    obtain rfl := Option.some.inj hrun
    rfl
  | cons event events ih =>
    obtain ⟨m, hfirst, hrest⟩ := run_cons_eq_some.mp hrun
    rw [List.cons_append, requests_cons hfirst, requests_cons hfirst, ih hrest, List.append_assoc]

/-- A 400 response leaves the content alone. -/
theorem content_rejected (s : Session) (result : SendResult) (parseok : Bool) :
    (if parseok then s else (s.send badRequest result).shutdown).content = s.content := by
  split
  · rfl
  · exact (Session.sameInput_shutdown _).content.trans (Session.sameInput_send _ _ _).content

/-- `MessageCallback` calls `DealWithRequest` on the request it passes. -/
theorem parseInput_passed {server : HttpServer} {inputs : CallbackInputs} {s : Session} {request : HttpRequest}
    (h : passedRequest s = some request) : ∃ t : Session, server.parseInput inputs s =
      some { server.dealWithRequest request inputs t with content := .new inputs.method inputs.version } := by
  rw [passedRequest] at h
  split at h
  · cases h
  · next hactive =>
    split at h
    · next parseok content inputBuffer hparse =>
      obtain ⟨hcomplete, hrequest⟩ := Option.ite_none_right_eq_some.mp h
      obtain rfl := Option.some.inj hrequest
      have hanswer (t : Session) (ht : t.content = content) : server.answerComplete inputs t =
          { server.dealWithRequest content.request inputs t with
            content := .new inputs.method inputs.version } := by
        rw [answerComplete, ht, if_pos hcomplete]
        rfl
      simp only [parseInput, if_neg hactive, hparse, answer]
      exact ⟨_, congrArg some (hanswer _ (content_rejected _ _ parseok))⟩
    · cases h

/-- When no request is passed, the response callback is not called. -/
theorem parseInput_not_passed {server : HttpServer} {inputs : CallbackInputs} {s : Session}
    (h : passedRequest s = none) (responseCallback : HttpRequest → HttpResponse → HttpResponse) :
    { server with responseCallback }.parseInput inputs s = server.parseInput inputs s := by
  rw [passedRequest] at h
  rw [parseInput, parseInput]
  split at h
  · next hshutdown => rw [if_pos hshutdown, if_pos hshutdown]
  · next hactive =>
    rw [if_neg hactive, if_neg hactive]
    cases hparse : s.content.parseContent s.inputBuffer with
    | none => rfl
    | some outcome =>
      cases outcome with
      | threw => rfl
      | returned parseok content inputBuffer =>
        simp only [hparse, ite_eq_right_iff, reduceCtorEq, imp_false, Bool.not_eq_true] at h
        have hanswer (server : HttpServer) (t : Session) (ht : t.content = content) :
            server.answerComplete inputs t = t := answerComplete_of_incomplete (ht.symm ▸ h)
        have hrejected := content_rejected { s with content, inputBuffer } inputs.badRequestSend parseok
        simp only [answer]
        rw [hanswer _ _ hrejected, hanswer _ _ hrejected]

/-- The connection is not shut down and has parsed these bytes of a head, without completing it. -/
def Partway (s : Session) (content : HttpContent) (text : Bytes) : Prop :=
  ∃ content' rest, content.parseBytes text = some (.returned true content' rest) ∧
    content'.getCompleteRequest = false ∧ Facing s content' rest s.messages

/-- Unless the connection was shut down, it stands before the first byte of a head. -/
def Between (s : Session) : Prop :=
  s.isShutdown = false → ∃ method version, Facing s (.new method version) [] s.messages

/-- A connection before the first byte of a head. -/
theorem partway_new {s : Session} {method : Method} {version : Version}
    (h : Facing s (.new method version) [] s.messages) : Partway s (.new method version) [] :=
  ⟨_, _, by rw [HttpContent.parseBytes_eq (Or.inl (Or.inl rfl))]; rfl, rfl, h⟩

/-- An event that does not touch the input side keeps what stands before the parser. -/
theorem facing_sameInput {s s' : Session} (hinput : Session.SameInput s s') {content : HttpContent} {text : Bytes}
    (h : Facing s content text s.messages) : Facing s' content text s'.messages where
  active := by rw [← h.active, Session.isShutdown, Session.isShutdown, hinput.state]
  content := hinput.content.trans h.content
  bytes := by rw [hinput.inputBuffer, h.bytes]
  messages := rfl

/-- An event that does not touch the input side leaves the connection between two heads. -/
theorem between_sameInput {s s' : Session} (hinput : Session.SameInput s s') (h : Between s) : Between s' := by
  intro hactive
  rw [Session.isShutdown, hinput.state] at hactive
  obtain ⟨method, version, hfacing⟩ := h hactive
  exact ⟨method, version, facing_sameInput hinput hfacing⟩

/-- An event that brings no bytes does not touch the input side, and passes no request. -/
theorem sameInput_quiet {server : HttpServer} {s s' : Session} {event : ConnectionEvent}
    (hkeeps : event.keepsOpen = true) (hquiet : event.data = [])
    (hstep : server.connectionStep s event = some s') : Session.SameInput s s' ∧ eventRequest s event = none := by
  cases event with
  | readable data inputs =>
    rw [connectionStep] at hstep
    split at hstep
    · cases data with
      | none =>
        obtain rfl := Option.some.inj hstep
        exact ⟨⟨rfl, rfl, rfl⟩, rfl⟩
      | some bytes =>
        obtain rfl : bytes = [] := hquiet
        cases hkeeps
    · cases hstep
  | writable result =>
    obtain rfl := Option.some.inj hstep
    exact ⟨Session.sameInput_handleWrite s result, rfl⟩
  | idleShutdown => cases hkeeps

/-- An event that brings bytes is a read of them, which `MessageCallback` handles. -/
theorem loud_step {server : HttpServer} {s s' : Session} {event : ConnectionEvent} {content : HttpContent}
    {text : Bytes} {messages : List Bytes} (hloud : event.data ≠ []) (hfacing : Facing s content text messages)
    (hstep : server.connectionStep s event = some s') :
    (∃ t inputs, server.parseInput inputs t = some s' ∧ Facing t content (text ++ event.data) messages) ∧
    ∃ t, eventRequest s event = passedRequest t ∧ Facing t content (text ++ event.data) messages := by
  cases event with
  | readable data inputs =>
    rw [connectionStep] at hstep
    split at hstep
    · obtain ⟨first, rest, rfl⟩ : ∃ first rest, data = some (first :: rest) := by
        cases data with
        | none => exact absurd rfl hloud
        | some bytes =>
          cases bytes with
          | nil => exact absurd rfl hloud
          | cons first rest => exact ⟨first, rest, rfl⟩
      obtain ⟨t, hhandle, hnow⟩ := handleMessage_nonempty server inputs hfacing (List.cons_ne_nil first rest)
      refine ⟨⟨t, inputs, hhandle ▸ hstep, hnow⟩, _, rfl, hfacing.active, hfacing.content, ?_, hfacing.messages⟩
      exact (Buffer.bytes_readFd _ _).trans (congrArg (· ++ first :: rest) hfacing.bytes)
    · cases hstep
  | writable result => exact absurd rfl hloud
  | idleShutdown => exact absurd rfl hloud

/-- What stands before the parser decides which request is passed. -/
theorem passedRequest_facing {s : Session} {content content' : HttpContent} {text rest : Bytes} {parseok : Bool}
    {messages : List Bytes} (h : Facing s content text messages)
    (hcall : content.parseBytes text = some (.returned parseok content' rest)) :
    passedRequest s = if content'.getCompleteRequest then some content'.request else none := by
  rw [← h.content, ← h.bytes] at hcall
  obtain ⟨buffer, hparse, -⟩ := HttpContent.parseContent_of_parseBytes hcall
  simp only [passedRequest, h.active, Bool.false_eq_true, if_false, hparse]

/-- What completes a request at the last of some more bytes waited for them, or had completed
the request without any. -/
theorem waits_or_completed {more : Bytes} {outcome : ParseOutcome Bytes} {content : HttpContent}
    (h : outcome.continueBytes more = some (.returned true content [])) :
    (∃ content' rest, outcome = .returned true content' rest ∧ content'.getCompleteRequest = false) ∨
    (outcome = .returned true content [] ∧ more = []) := by
  cases outcome with
  | threw => cases h
  | returned parseok content' rest =>
    rw [ParseOutcome.continueBytes] at h
    split at h
    · next hwaits =>
      rw [Bool.and_eq_true, Bool.not_eq_true'] at hwaits
      obtain ⟨rfl, hopen⟩ := hwaits
      exact Or.inl ⟨content', rest, rfl, hopen⟩
    · simp only [Option.some.injEq, ParseOutcome.returned.injEq, List.append_eq_nil_iff] at h
      obtain ⟨rfl, rfl, rfl, rfl⟩ := h
      exact Or.inr ⟨rfl, rfl⟩

/-- An event during a head either leaves the head incomplete or brings its last byte; then its
request is passed. -/
theorem partway_step {server : HttpServer} {s s' : Session} {event : ConnectionEvent}
    {content content' : HttpContent}
    {text more : Bytes} (hkeeps : event.keepsOpen = true) (hpartway : Partway s content text)
    (hstep : server.connectionStep s event = some s')
    (hhead : content.parseBytes (text ++ event.data ++ more) = some (.returned true content' []))
    (hcomplete : content'.getCompleteRequest = true) :
    (eventRequest s event = none ∧ Partway s' content (text ++ event.data)) ∨
    (eventRequest s event = some content'.request ∧ more = [] ∧ Between s') := by
  obtain ⟨begun, rest, hparsed, hopen, hfacing⟩ := hpartway
  by_cases hquiet : event.data = []
  · obtain ⟨hinput, hnone⟩ := sameInput_quiet hkeeps hquiet hstep
    refine Or.inl ⟨hnone, begun, rest, ?_, hopen, facing_sameInput hinput hfacing⟩
    rw [hquiet, List.append_nil, hparsed]
  · obtain ⟨⟨t, inputs, hparse, hnow⟩, u, hpassed, hu⟩ := loud_step hquiet hfacing hstep
    have hcontinue : content.parseBytes (text ++ event.data) = begun.parseBytes (rest ++ event.data) := by
      rw [HttpContent.parseBytes_append, hparsed]
      simp [ParseOutcome.continueBytes, hopen]
    rw [HttpContent.parseBytes_append, Option.bind_eq_some_iff] at hhead
    obtain ⟨outcome, hcall, houtcome⟩ := hhead
    have hbegun := hcontinue.symm.trans hcall
    rcases waits_or_completed houtcome with ⟨now, left, rfl, hwaits⟩ | ⟨rfl, hmore⟩
    · obtain ⟨t', hparse', hfacing'⟩ := parseInput_waits server inputs hnow hbegun hwaits
      obtain rfl := Option.some.inj (hparse.symm.trans hparse')
      refine Or.inl ⟨?_, now, left, hcall, hwaits, hfacing'.active, hfacing'.content, hfacing'.bytes, rfl⟩
      rw [hpassed, passedRequest_facing hu hbegun, hwaits]
      rfl
    · obtain ⟨t', hparse', hanswered⟩ := parseInput_complete server inputs hnow hbegun hcomplete
      obtain rfl := Option.some.inj (hparse.symm.trans hparse')
      refine Or.inr ⟨?_, hmore, fun hactive => ?_⟩
      · rw [hpassed, passedRequest_facing hu hbegun, if_pos hcomplete]
      · split at hanswered
        · exact absurd (hactive.symm.trans hanswered.shutdown) Bool.false_ne_true
        · exact ⟨_, _, hanswered.active, hanswered.content, hanswered.bytes, rfl⟩

/-- Events that bring no bytes pass no request, and leave the connection between two heads. -/
theorem requests_quiet {server : HttpServer} {s s' : Session} {events : List ConnectionEvent}
    (hkeeps : ∀ event ∈ events, event.keepsOpen = true) (hquiet : arrived events = []) (hbetween : Between s)
    (hrun : run server.connectionStep s events = some s') : server.requests s events = [] ∧ Between s' := by
  induction events generalizing s with
  | nil => exact ⟨rfl, Option.some.inj hrun ▸ hbetween⟩
  | cons event events ih =>
    obtain ⟨hkeep, hkeeps⟩ := List.forall_mem_cons.mp hkeeps
    obtain ⟨hnow, hlater⟩ := List.append_eq_nil_iff.mp hquiet
    obtain ⟨m, hfirst, hrest⟩ := run_cons_eq_some.mp hrun
    obtain ⟨hinput, hnone⟩ := sameInput_quiet hkeep hnow hfirst
    obtain ⟨hrequests, hbetween'⟩ := ih hkeeps hlater (between_sameInput hinput hbetween) hrest
    exact ⟨by rw [requests_cons hfirst, hnone, hrequests]; rfl, hbetween'⟩

/-- The events that bring the rest of a head pass its request and no other one. -/
theorem requests_head {server : HttpServer} {s s' : Session} {events : List ConnectionEvent}
    {content content' : HttpContent} {text : Bytes} (hkeeps : ∀ event ∈ events, event.keepsOpen = true)
    (hpartway : Partway s content text)
    (hhead : content.parseBytes (text ++ arrived events) = some (.returned true content' []))
    (hcomplete : content'.getCompleteRequest = true) (hrun : run server.connectionStep s events = some s') :
    server.requests s events = [content'.request] ∧ Between s' := by
  induction events generalizing s text with
  | nil =>
    obtain ⟨begun, rest, hparsed, hopen, -⟩ := hpartway
    rw [arrived, List.map_nil, List.flatten_nil, List.append_nil, hparsed] at hhead
    simp only [Option.some.injEq, ParseOutcome.returned.injEq] at hhead
    rw [hhead.2.1, hcomplete] at hopen
    cases hopen
  | cons event events ih =>
    obtain ⟨hkeep, hkeeps⟩ := List.forall_mem_cons.mp hkeeps
    obtain ⟨m, hfirst, hrest⟩ := run_cons_eq_some.mp hrun
    have harrived : arrived (event :: events) = event.data ++ arrived events := rfl
    rw [harrived, ← List.append_assoc] at hhead
    rw [requests_cons hfirst]
    rcases partway_step hkeep hpartway hfirst hhead hcomplete with ⟨hnone, hpartway'⟩ | ⟨hsome, hquiet, hbetween⟩
    · obtain ⟨hrequests, hbetween⟩ := ih hkeeps hpartway' hhead hrest
      exact ⟨by rw [hnone, hrequests]; rfl, hbetween⟩
    · obtain ⟨hrequests, hbetween'⟩ := requests_quiet hkeeps hquiet hbetween hrest
      exact ⟨by rw [hsome, hrequests]; rfl, hbetween'⟩

/-- The kernel watches a connection which its loop has just established for input. -/
theorem watchesInput_started {address fd : ℕ} {now : ℤ} {content : HttpContent} {epoller : Epoller}
    (hmap : epoller.channelmap fd = none) (hinterest : epoller.interest fd = none) :
    watchesInput (.started address fd now content epoller) = true := by
  have hopen : (Session.started address fd now content epoller).Open := Session.open_started hmap hinterest
  have hinStep := hopen.inStep
  rw [Epoller.InStep, hopen.added] at hinStep
  rw [watchesInput, hinStep.2]
  exact hopen.reading

/-- A new connection stands before the first byte of a head. -/
theorem facing_started (address fd : ℕ) (now : ℤ) (method : Method) (version : Version) (epoller : Epoller) :
    Facing (.started address fd now (.new method version) epoller) (.new method version) [] [] :=
  ⟨rfl, rfl, rfl, rfl⟩

/-- The values of the indeterminate members do not influence which request a head completes. -/
theorem completes_new {method : Method} {version : Version} {head : Bytes} {content : HttpContent}
    (hhead : (HttpContent.new method version).parseBytes head = some (.returned true content []))
    (hcomplete : content.getCompleteRequest = true) (method' : Method) (version' : Version) :
    (HttpContent.new method' version').parseBytes head = some (.returned true content []) := by
  rcases HttpContent.parseBytes_new method method' version version' head with
    hsame | hsearch | ⟨rejected, rejected', rest, hfirst, -⟩
  · exact hsame ▸ hhead
  · have hreads : (HttpContent.new method version).ReadsLines := Or.inl rfl
    rw [HttpContent.parseBytes_eq (Or.inl hreads), HttpContent.bytesIteration_unterminated hreads hsearch] at hhead
    simp only [Option.some.injEq, ParseOutcome.returned.injEq] at hhead
    rw [← hhead.2.1, hreads.not_complete] at hcomplete
    cases hcomplete
  · simp [hhead] at hfirst

/-- A head that completes a request of a new content is not empty. -/
theorem ne_nil_of_completes {method : Method} {version : Version} {head : Bytes} {content : HttpContent}
    (hhead : (HttpContent.new method version).parseBytes head = some (.returned true content []))
    (hcomplete : content.getCompleteRequest = true) : head ≠ [] := by
  rintro rfl
  obtain rfl : HttpContent.new method version = content := by
    have hempty : (HttpContent.new method version).parseBytes
      [] = some (.returned true (.new method version) []) := rfl
    rw [hempty] at hhead
    simpa using hhead
  cases hcomplete

/-- A new connection that gets a complete head in one read passes its request. -/
theorem requests_alone (server : HttpServer) {address fd : ℕ} {now : ℤ} {epoller : Epoller} {method : Method}
    {version : Version} {head : Bytes} {content : HttpContent} (hmap : epoller.channelmap fd = none)
    (hinterest : epoller.interest fd = none)
    (hhead : (HttpContent.new method version).parseBytes head = some (.returned true content []))
    (hcomplete : content.getCompleteRequest = true) (inputs : CallbackInputs) :
    server.requests (.started address fd now (.new method version) epoller) [.readable (some head) inputs] =
      [content.request] := by
  have hfacing := facing_started address fd now method version epoller
  have hnonempty := ne_nil_of_completes hhead hcomplete
  obtain ⟨t, hhandle, hnow⟩ := handleMessage_nonempty server inputs hfacing hnonempty
  obtain ⟨s', hparse, -⟩ := parseInput_complete server inputs hnow hhead hcomplete
  have hstep : server.connectionStep (.started address fd now (.new method version) epoller)
      (.readable (some head) inputs) = some s' := by
    rw [connectionStep, if_pos (watchesInput_started hmap hinterest), hhandle, hparse]
  refine (requests_head ?_ (partway_new hfacing) ?_ hcomplete (run_cons_eq_some.mpr ⟨s', hstep, rfl⟩)).1
  · simpa [ConnectionEvent.keepsOpen] using hnonempty
  · simpa [arrived, ConnectionEvent.data] using hhead

/-- While heads arrive one after the other on a connection that is kept open, each passes the
request which a new content completes at its last byte. -/
theorem requests_heads {server : HttpServer} {s t : Session} {heads : List (List ConnectionEvent)} {method : Method}
    {version : Version} (hkeeps : ∀ head ∈ heads, ∀ event ∈ head, event.keepsOpen = true)
    (hcompleted : ∀ head ∈ heads, ((HttpContent.new method version).completedRequest (arrived head)).isSome)
    (hbetween : Between s) (hopen : Meets (run server.connectionStep) (fun s _ => s.isShutdown = false) s heads)
    (hrun : run (run server.connectionStep) s heads = some t) :
    heads.map (fun head => (HttpContent.new method version).completedRequest (arrived head)) =
      (server.requests s heads.flatten).map some := by
  induction heads generalizing s with
  | nil => rfl
  | cons head heads ih =>
    obtain ⟨hkeep, hkeeps⟩ := List.forall_mem_cons.mp hkeeps
    obtain ⟨hnow, hlater⟩ := List.forall_mem_cons.mp hcompleted
    obtain ⟨request, hrequest⟩ := Option.isSome_iff_exists.mp hnow
    obtain ⟨content, hhead, hcomplete, rfl⟩ := HttpContent.completedRequest_eq_some hrequest
    obtain ⟨m, hfirst, hrest⟩ := run_cons_eq_some.mp hrun
    obtain ⟨method', version', hfacing⟩ := hbetween hopen.head
    have hhead' := completes_new hhead hcomplete method' version'
    obtain ⟨hpassed, hbetween'⟩ := requests_head hkeep (partway_new hfacing) hhead' hcomplete hfirst
    rw [List.map_cons, hrequest, ih hkeeps hlater hbetween' (hopen.tail hfirst) hrest, List.flatten_cons,
      requests_append hfirst, hpassed]
    rfl

/-- In every run of a connection in which each head arrives, in any number of reads, while the
connection is kept open, and is one that a new content completes exactly at its last byte, the
requests passed to the response callback are, one for each head, those which new connections
get from the bytes of the heads alone. -/
theorem requests_isolated {server : HttpServer} {address fd : ℕ} {now : ℤ} {epoller : Epoller}
    {method method' : Method} {version version' : Version} {heads : List (List ConnectionEvent)} {t : Session}
    (hmap : epoller.channelmap fd = none) (hinterest : epoller.interest fd = none)
    (hkeeps : ∀ head ∈ heads, ∀ event ∈ head, event.keepsOpen = true)
    (hcompleted : ∀ head ∈ heads, ((HttpContent.new method version).completedRequest (arrived head)).isSome)
    (hopen : Meets (run server.connectionStep) (fun s _ => s.isShutdown = false)
      (.started address fd now (.new method version) epoller) heads)
    (hrun : run (run server.connectionStep) (.started address fd now (.new method version) epoller) heads = some t)
    (inputs : CallbackInputs) :
    heads.map (fun head => server.requests (.started address fd now (.new method' version') epoller)
        [.readable (some (arrived head)) inputs]) =
      (server.requests (.started address fd now (.new method version) epoller) heads.flatten).map fun request =>
        [request] := by
  have hbetween : Between (.started address fd now (.new method version) epoller) := fun _ =>
    ⟨method, version, facing_started address fd now method version epoller⟩
  have halone : ∀ head ∈ heads, server.requests (.started address fd now (.new method' version') epoller)
      [.readable (some (arrived head)) inputs] =
        ((HttpContent.new method version).completedRequest (arrived head)).toList := by
    intro head hmem
    obtain ⟨request, hrequest⟩ := Option.isSome_iff_exists.mp (hcompleted head hmem)
    obtain ⟨content, hhead, hcomplete, rfl⟩ := HttpContent.completedRequest_eq_some hrequest
    rw [hrequest]
    exact requests_alone server hmap hinterest (completes_new hhead hcomplete method' version') hcomplete inputs
  calc heads.map (fun head => server.requests (.started address fd now (.new method' version') epoller)
          [.readable (some (arrived head)) inputs])
      = (heads.map fun head => (HttpContent.new method version).completedRequest
        (arrived head)).map Option.toList := by
        rw [List.map_map]
        exact List.map_congr_left halone
    _ = ((server.requests (.started address fd now (.new method version) epoller) heads.flatten).map some).map
          Option.toList := by rw [requests_heads hkeeps hcompleted hbetween hopen hrun]
    _ = _ := by rw [List.map_map]; rfl

/-- A request with a query and a header in two reads, and a request without them. -/
def twoHeads : List (List ConnectionEvent) :=
  [[.readable (some (ascii "GET /a?b HTTP/1.1\r\nHo")) blockedInputs, .writable .wouldBlock,
      .readable (some (ascii "st: c\r\n\r\n")) { blockedInputs with method := .kPatch, version := .kHttp10 }],
    [.readable none blockedInputs, .readable (some shortRequest) blockedInputs]]

/-- The query and the header of the first request do not reach the second one. -/
theorem requests_twoHeads : twoHeads.map (fun head => emptyPageServer.requests
      (.started 0 5 0 (.new .kPut .kHttp11) .new) [.readable (some (arrived head)) blockedInputs]) =
    (emptyPageServer.requests (.started 0 5 0 (.new .kGet .kUnknown) .new) twoHeads.flatten).map fun request =>
      [request] := by
  have hruns : (run (run emptyPageServer.connectionStep) (.started 0 5 0
    (.new .kGet .kUnknown) .new) twoHeads).isSome := by
    decide +kernel
  obtain ⟨t, hrun⟩ := Option.isSome_iff_exists.mp hruns
  exact requests_isolated rfl rfl (by decide) (by decide +kernel) (by decide +kernel) hrun blockedInputs

end HttpServer

end WebServer.Http
