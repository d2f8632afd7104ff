import WebServer.Http.Exchange

/-!
# Conversations with a client

Where the response callback is a function of the request, the exchanges of a run are determined
by the requests that are passed to it. What the server sends is then a stream of responses which
a reader tells apart, and a client that sends well-formed heads one after the other reads one
response for each of them.
-/

namespace WebServer.Http

open WebServer.Foundation
open WebServer.Util (Bytes Session SendResult Epoller ascii crlf initialSize)

namespace HttpServer

/-- The reply to a request, where the response callback does not depend on the indeterminate status code. -/
def replyTo (server : HttpServer) (request : HttpRequest) : Reply := .response request (server.response request 0)

/-- A head that was rejected is among the exchanges. -/
def rejects (exchanges : List Exchange) : Bool := exchanges.any (·.reply.request.isNone)

/-- An exchange is the 400 response, or the reply to its request. -/
theorem reply_eventExchange {server : HttpServer} (hdetermined : server.Determined) {s : Session}
    {event : ConnectionEvent} {exchange : Exchange} (h : server.eventExchange s event = some exchange) :
    exchange.reply = .badRequest ∨ ∃ request, exchange.reply = server.replyTo request := by
  have hreply {inputs : CallbackInputs} {t : Session} {reply : Reply} (h : server.reply inputs t = some reply) :
      reply = .badRequest ∨ ∃ request, reply = server.replyTo request := by
    rw [HttpServer.reply] at h
    split at h
    · cases h
    · split at h
      · next content buffer hparse =>
        split at h
        · have hresponse : server.response content.request inputs.statusCode = server.response content.request 0 :=
            hdetermined _ _ _ _
          obtain rfl := Option.some.inj h
          exact Or.inr ⟨content.request, congrArg (Reply.response content.request) hresponse⟩
        · cases h
      · exact Or.inl (Option.some.inj h).symm
      · cases h
  unfold eventExchange at h
  split at h
  · obtain ⟨reply, hfound, rfl⟩ := Option.map_eq_some_iff.mp h
    exact hreply hfound
  · cases h

/-- A request that is passed is answered. -/
theorem eventExchange_of_request {server : HttpServer} (hdetermined : server.Determined) {s : Session}
    {event : ConnectionEvent} {request : HttpRequest} (h : eventRequest s event = some request) :
    ∃ kept, server.eventExchange s event = some ⟨server.replyTo request, kept⟩ := by
  rw [← request_eventExchange server] at h
  obtain ⟨⟨reply, kept⟩, hexchange, hrequest⟩ := Option.bind_eq_some_iff.mp h
  rcases reply_eventExchange hdetermined hexchange with rfl | ⟨answered, rfl⟩
  · cases hrequest
  · obtain rfl := Option.some.inj hrequest
    exact ⟨kept, hexchange⟩

/-- Without a request that is passed, a connection that stays open replies to nothing. -/
theorem eventExchange_of_none {server : HttpServer} {s s' : Session} {event : ConnectionEvent}
    (hstep : server.connectionStep s event = some s') (h : eventRequest s event = none)
    (hactive : s'.isShutdown = false) : server.eventExchange s event = none := by
  cases hexchange : server.eventExchange s event with
  | none => rfl
  | some exchange =>
    rw [← request_eventExchange server, hexchange, Option.bind_some] at h
    have hcloses : exchange.reply.closes = true := by
      cases hreply : exchange.reply with
      | response request page => simp [hreply, Reply.request] at h
      | badRequest => rfl
    rw [isShutdown_of_closes hstep hexchange hcloses] at hactive
    cases hactive

/-- Events that bring no bytes exchange nothing, and do not shut the connection down. -/
theorem exchanges_quiet {server : HttpServer} {s s' : Session} {events : List ConnectionEvent}
    (hkeeps : ∀ event ∈ events, event.keepsOpen = true) (hquiet : arrived events = [])
    (hrun : run server.connectionStep s events = some s') :
    server.exchanges s events = [] ∧ s'.isShutdown = s.isShutdown := by
  induction events generalizing s with
  | nil => exact ⟨rfl, congrArg Session.isShutdown (Option.some.inj hrun).symm⟩
  | cons event events ih =>
    obtain ⟨hkeep, hkeeps⟩ := List.forall_mem_cons.mp hkeeps
    obtain ⟨hnow, hlater⟩ := List.append_eq_nil_iff.mp hquiet
    obtain ⟨m, hfirst, hrest⟩ := run_cons_eq_some.mp hrun
    have hnone : server.eventExchange s event = none := by
      unfold eventExchange
      split
      · cases hnow
      · rfl
    obtain ⟨hexchanges, hshutdown⟩ := ih hkeeps hlater hrest
    constructor
    · rw [exchanges, trace_cons hfirst, hnone, ← exchanges, hexchanges]
      rfl
    · rw [hshutdown, isShutdown_step hkeep hfirst, hnone, Option.any_none, Bool.or_false]

/-- During a head the connection is not shut down. -/
theorem Partway.active {s : Session} {content : HttpContent} {text : Bytes} (h : Partway s content text) :
    s.isShutdown = false := by
  obtain ⟨_, _, _, _, hfacing⟩ := h
  exact hfacing.active

/-- The events that bring the rest of a head exchange its response and nothing else, and the
connection is shut down behind it exactly if the response says so. -/
theorem exchanges_head {server : HttpServer} (hdetermined : server.Determined) {s s' : Session}
    {events : List ConnectionEvent} {content content' : HttpContent} {text : Bytes}
    (hkeeps : ∀ event ∈ events, event.keepsOpen = true) (hpartway : Partway s content text)
    (hhead : content.parseBytes (text ++ arrived events) = some (.returned true content' []))
    (hcomplete : content'.getCompleteRequest = true) (hrun : run server.connectionStep s events = some s') :
    (∃ kept, server.exchanges s events = [⟨server.replyTo content'.request, kept⟩]) ∧
      s'.isShutdown = (server.response content'.request 0).closeConnection ∧ Between s' := by
  induction events generalizing s text with
  | nil => exact absurd (requests_head hkeeps hpartway hhead hcomplete hrun).1 (List.cons_ne_nil _ _).symm
  | cons event events ih =>
    obtain ⟨hkeep, hkeeps⟩ := List.forall_mem_cons.mp hkeeps
    obtain ⟨m, hfirst, hrest⟩ := run_cons_eq_some.mp hrun
    have harrived : arrived (event :: events) = event.data ++ arrived events := rfl
    rw [harrived, ← List.append_assoc] at hhead
    rw [exchanges, trace_cons hfirst, ← exchanges]
    rcases partway_step hkeep hpartway hfirst hhead hcomplete with ⟨hnone, hpartway'⟩ | ⟨hsome, hquiet, hbetween⟩
    · rw [eventExchange_of_none hfirst hnone hpartway'.active]
      exact ih hkeeps hpartway' hhead hrest
    · obtain ⟨kept, hexchange⟩ := eventExchange_of_request hdetermined hsome
      obtain ⟨hlater, hshutdown⟩ := exchanges_quiet hkeeps hquiet hrest
      rw [hexchange, hlater]
      refine ⟨⟨kept, rfl⟩, ?_, (requests_quiet hkeeps hquiet hbetween hrest).2⟩
      rw [hshutdown, isShutdown_step hkeep hfirst, hexchange, hpartway.active]
      rfl

/-- No direct `send()` of the reply to an event fails. -/
def KeepsReply (server : HttpServer) (s : Session) (event : ConnectionEvent) : Prop :=
  ∀ exchange ∈ server.eventExchange s event, exchange.kept = true

instance (server : HttpServer) (s : Session) (event : ConnectionEvent) : Decidable (server.KeepsReply s event) :=
  inferInstanceAs (Decidable (∀ exchange ∈ server.eventExchange s event, exchange.kept = true))

/-- When no direct `send()` fails, the output is made of the texts of all replies. -/
theorem output_of_keepsReply {server : HttpServer} {s t : Session} {events : List ConnectionEvent} (h : Graceful s)
    (hfits : Meets server.connectionStep server.OutputFits s events)
    (hkept : Meets server.connectionStep server.KeepsReply s events)
    (hrun : run server.connectionStep s events = some t) :
    t.output = s.output ++ ((server.exchanges s events).map Exchange.reply).flatMap Reply.text := by
  have hdelivered (s : Session) (event : ConnectionEvent) (hkeeps : server.KeepsReply s event) :
      (server.eventExchange s event).toList.flatMap Exchange.delivered =
        (server.eventExchange s event).toList.flatMap (Reply.text ∘ Exchange.reply) := by
    cases hexchange : server.eventExchange s event with
    | none => rfl
    | some exchange => simp [Exchange.delivered, hkeeps exchange hexchange]
  rw [output_run h hfits hrun, exchanges, ← trace_flatMap, trace_congr_of_meets hdelivered hkept, trace_flatMap,
    List.flatMap_map]
  rfl

/-- When nothing follows a reply that closes the connection, the replies are those to the requests, with a 400
response behind them if a head was rejected. -/
theorem replies_split {server : HttpServer} {exchanges : List Exchange}
    (hform : ∀ exchange ∈ exchanges, exchange.reply = .badRequest ∨ ∃ request,
      exchange.reply = server.replyTo request)
    (hlast : exchanges.Pairwise fun exchange _ => ¬ exchange.reply.closes = true) :
    exchanges.map Exchange.reply =
      (exchanges.filterMap (·.reply.request)).map server.replyTo ++
        if rejects exchanges then [.badRequest] else [] := by
  induction exchanges with
  | nil => rfl
  | cons exchange exchanges ih =>
    obtain ⟨hnow, hform⟩ := List.forall_mem_cons.mp hform
    obtain ⟨hopen, hlast⟩ := List.pairwise_cons.mp hlast
    rcases hnow with hrejected | ⟨request, hreply⟩
    · have hnil : exchanges = [] := List.eq_nil_iff_forall_not_mem.mpr fun later hmem =>
        hopen later hmem (by rw [hrejected]; rfl)
      rw [hnil, rejects]
      simp [hrejected, Reply.request]
    · have hrejects : rejects (exchange :: exchanges) = rejects exchanges := by
        rw [rejects, List.any_cons, hreply]
        rfl
      have hrequest : exchange.reply.request = some request := by
        rw [hreply]
        rfl
      have hrequests : (exchange :: exchanges).filterMap (·.reply.request) =
          request :: exchanges.filterMap (·.reply.request) := List.filterMap_cons_some hrequest
      rw [List.map_cons, ih hform hlast, hrejects, hrequests, List.map_cons, hreply, List.cons_append]

/-- The replies of a run are those to the requests passed to the response callback, with a 400 response
behind them if a head was rejected. -/
theorem replies_eq {server : HttpServer} (hdetermined : server.Determined) {s : Session} (horderly : Orderly s)
    (events : List ConnectionEvent) : (server.exchanges s events).map Exchange.reply =
      (server.requests s events).map server.replyTo ++
        if rejects (server.exchanges s events) then [.badRequest] else [] := by
  rw [requests_eq_exchanges]
  apply replies_split _ (pairwise_exchanges horderly events)
  exact forall_mem_trace (fun s event exchange hmem => reply_eventExchange hdetermined
    (Option.mem_toList.mp hmem)) s events

/-- No request is passed behind one whose response closes the connection. -/
theorem pairwise_requests {server : HttpServer} (hdetermined : server.Determined) {s : Session}
    (horderly : Orderly s)
    (events : List ConnectionEvent) : (server.requests s events).Pairwise fun request _ =>
      (server.response request 0).closeConnection = false := by
  have hpairwise : ((server.exchanges s events).map Exchange.reply).Pairwise fun reply _ => ¬ reply.closes = true :=
    List.pairwise_map.mpr (pairwise_exchanges horderly events)
  rw [replies_eq hdetermined horderly] at hpairwise
  exact (List.pairwise_map.mp (List.pairwise_append.mp hpairwise).1).imp Bool.eq_false_of_not_eq_true

/-- In every run in which no direct `send()` fails, and in which the messages stay below `2^31` bytes together with
the initial size of the output buffer, the output is a stream of responses that is read back as the responses to the
requests passed to the response callback, with the 400 response behind it if a head was rejected. -/
theorem output_readable {server : HttpServer} {s t : Session} {events : List ConnectionEvent}
    (hdetermined : server.Determined) (hframed : ∀ request, (server.response request 0).Framed) (h : Graceful s)
    (hroomy : Roomy s) (hempty : s.output = []) (hkept : Meets server.connectionStep server.KeepsReply s events)
    (hrun : run server.connectionStep s events = some t)
    (hsize : initialSize + t.messages.flatten.length < 2147483648) :
    ∃ stream, t.output = stream ++ (if rejects (server.exchanges s events) then badRequest else []) ∧
      readStream stream = some ((server.requests s events).map fun request =>
        (server.response request 0).fields) := by
  have horderly : Orderly s := h.imp And.left And.left
  have hlast := forall_mem_dropLast (pairwise_requests hdetermined horderly events)
  have hreplies := replies_eq hdetermined horderly events
  have hdelivered := output_of_keepsReply h (outputFits_of_messages hroomy hrun hsize) hkept hrun
  have hshort : t.output.length < 2147483648 := by
    rw [messages_run hrun, List.flatten_append, List.length_append, ← Function.comp_def, ← List.map_map,
      ← List.flatMap_def] at hsize
    rw [hdelivered, hempty, List.nil_append]
    omega
  generalize server.requests s events = requests at hlast hreplies ⊢
  have houtput : t.output = ((requests.map (server.response · 0)).map HttpResponse.text).flatten ++
      if rejects (server.exchanges s events) then badRequest else [] := by
    rw [hdelivered, hempty, hreplies, List.flatMap_append, List.nil_append, List.flatMap_def,
      List.map_map, List.map_map]
    congr 1
    split <;> rfl
  refine ⟨_, houtput, ?_⟩
  have hframes : ∀ response ∈ requests.map (server.response · 0), response.Framed :=
    List.forall_mem_map.mpr fun request _ => hframed request
  have hbodies : ∀ response ∈ requests.map (server.response · 0), response.body.length < 2147483648 := by
    intro response hmem
    have hle := response.length_body_le.trans (HttpResponse.length_text_le hmem)
    rw [houtput, List.length_append] at hshort
    omega
  have hopen : ∀ response ∈ (requests.map (server.response · 0)).dropLast, response.closeConnection = false := by
    rw [← List.map_dropLast]
    exact List.forall_mem_map.mpr hlast
  have hcount := HttpResponse.length_le_texts fun response hmem =>
    HttpResponse.text_ne_nil (hframes response hmem) (hbodies response hmem)
  rw [readStream, HttpResponse.readResponses_texts hframes hbodies hopen hcount, List.map_map]
  rfl

/-- A head, and the events in which it arrives while the connection stays open. -/
structure HeadArrival where
  head : RequestHead
  events : List ConnectionEvent
  keepsOpen : ∀ event ∈ events, event.keepsOpen = true
  arrives : arrived events = head.text

/-- Heads that arrive one after the other, none of them behind a response that closes the connection, are
all answered, and nothing else is. -/
theorem replies_heads {server : HttpServer} (hdetermined : server.Determined) {s t : Session}
    {arrivals : List HeadArrival} (hbetween : Between s) (hactive : s.isShutdown = false)
    (hopen : ∀ arrival ∈ arrivals.dropLast, (server.response arrival.head.request 0).closeConnection = false)
    (hrun : run server.connectionStep s (arrivals.flatMap HeadArrival.events) = some t) :
    (server.exchanges s (arrivals.flatMap HeadArrival.events)).map Exchange.reply =
      arrivals.map fun arrival => server.replyTo arrival.head.request := by
  induction arrivals generalizing s with
  | nil => rfl
  | cons arrival arrivals ih =>
    rw [List.flatMap_cons] at hrun ⊢
    obtain ⟨m, hfirst, hrest⟩ := run_append_eq_some.mp hrun
    obtain ⟨method, version, hfacing⟩ := hbetween hactive
    have hhead := HttpContent.parseBytes_text arrival.head method version []
    rw [List.append_nil, ← arrival.arrives] at hhead
    obtain ⟨⟨kept, hexchange⟩, hshutdown, hbetween'⟩ :=
      exchanges_head hdetermined arrival.keepsOpen (partway_new hfacing) hhead rfl hfirst
    rw [exchanges, trace_append hfirst, ← exchanges, hexchange, List.singleton_append, List.map_cons, List.map_cons]
    cases arrivals with
    | nil => rfl
    | cons next arrivals =>
      rw [List.dropLast_cons_cons, List.forall_mem_cons] at hopen
      exact congrArg _ (ih hbetween' (hshutdown.trans hopen.1) hopen.2 hrest)

/-- A client sends well-formed heads, in any number of reads each, and never behind a response that closes the
connection. When no direct `send()` fails and the responses stay below `2^31` bytes together with the initial
size of the output buffer, what the server has handed to the kernel, with the output buffer behind it, is read
back as one response for each head: the one which the response callback gives to the method, the path, the
query, the version and the headers that the client sent. -/
theorem readStream_exchanges {server : HttpServer} {address fd : ℕ} {now : ℤ} {epoller : Epoller} {method : Method}
    {version : Version} {arrivals : List HeadArrival} {t : Session}
    (hmap : epoller.channelmap fd = none) (hinterest : epoller.interest fd = none) (hdetermined : server.Determined)
    (hframed : ∀ request, (server.response request 0).Framed)
    (hopen : ∀ arrival ∈ arrivals.dropLast, (server.response arrival.head.request 0).closeConnection = false)
    (hkept : Meets server.connectionStep server.KeepsReply (.started address fd now (.new method version) epoller)
      (arrivals.flatMap HeadArrival.events))
    (hrun : run server.connectionStep (.started address fd now (.new method version) epoller)
      (arrivals.flatMap HeadArrival.events) = some t)
    (hsize : initialSize + t.messages.flatten.length < 2147483648) :
    readStream t.output =
      some (arrivals.map fun arrival => (server.response arrival.head.request 0).fields) := by
  have hfacing := facing_started address fd now method version epoller
  have hgraceful : Graceful (.started address fd now (.new method version) epoller) :=
    Or.inl ⟨Session.open_started hmap hinterest, .started⟩
  have hreplies := replies_heads hdetermined (fun _ => ⟨method, version, hfacing⟩) hfacing.active hopen hrun
  have hrejects : rejects (server.exchanges (.started address fd now (.new method version) epoller)
      (arrivals.flatMap HeadArrival.events)) = false := by
    have hany := congrArg (List.any · (·.request.isNone)) hreplies
    simp only [List.any_map] at hany
    exact hany.trans (List.any_eq_false.mpr fun _ _ => Bool.false_ne_true)
  have hrequests : server.requests (.started address fd now (.new method version) epoller)
      (arrivals.flatMap HeadArrival.events) = arrivals.map (·.head.request) := by
    have hfound := congrArg (List.filterMap Reply.request) hreplies
    rw [List.filterMap_map, List.filterMap_map] at hfound
    exact (requests_eq_exchanges ..).trans (hfound.trans (congrFun List.filterMap_eq_map' arrivals))
  obtain ⟨stream, houtput, hread⟩ :=
    output_readable hdetermined hframed hgraceful (roomy_started ..) (Session.output_started ..) hkept hrun hsize
  rw [hrejects, if_neg Bool.false_ne_true, List.append_nil] at houtput
  rw [houtput, hread, hrequests, List.map_map]
  rfl

/-- An empty page has no line end in its head. -/
theorem framed_emptyPageServer (request : HttpRequest) : (emptyPageServer.response request 0).Framed where
  statusCode := by
    change (-2147483648 : ℤ) ≤ 200 ∧ (200 : ℤ) < 2147483648
    decide
  statusMessage := by
    change ¬ crlf <:+: []
    decide
  type := by
    change ¬ crlf <:+: ascii "text/plain"
    decide

/-- The sample head in two reads, with the room for output that was reported between them. -/
def sampleArrival : HeadArrival where
  head := HttpContent.sampleHead
  events := [.readable (some (ascii "GET /a?b HTTP/1.1\r\nHo")) acceptingInputs, .writable .wouldBlock,
    .readable (some (ascii "st:  x\r\r\n\r\n")) acceptingInputs]
  keepsOpen := by decide
  arrives := by decide

/-- The kernel accepts at most ten bytes of each response at once. -/
theorem readStream_exchanges_twice : ∃ t, run emptyPageServer.connectionStep
    (.started 0 5 0 (.new .kGet .kUnknown) .new)
      ([sampleArrival, sampleArrival].flatMap HeadArrival.events) = some t ∧
    readStream t.output = some ([sampleArrival, sampleArrival].map fun arrival =>
      (emptyPageServer.response arrival.head.request 0).fields) := by
  have hshort : ((run emptyPageServer.connectionStep (.started 0 5 0 (.new .kGet .kUnknown) .new)
      ([sampleArrival, sampleArrival].flatMap HeadArrival.events)).any fun t =>
        initialSize + t.messages.flatten.length < 2147483648) = true := by
    decide +kernel
  obtain ⟨t, hrun, hsize⟩ := Option.any_eq_true _ _ |>.mp hshort
  refine ⟨t, hrun, readStream_exchanges rfl rfl determined_emptyPageServer framed_emptyPageServer ?_ ?_ hrun
    (by simpa using hsize)⟩
  · decide +kernel
  · decide +kernel

end HttpServer

end WebServer.Http
