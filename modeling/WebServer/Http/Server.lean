import WebServer.Http.ContentLines
import WebServer.Http.Response
import WebServer.Util.TcpConnection

/-!
# The HTTP server on one connection

`MessageCallback` parses the input buffer, answers at most one request per call, and ignores
input once `Shutdown` was called. What a call finds in indeterminate memory and how the
kernel answers its `send()` calls is collected in `CallbackInputs`. A call of `ParseContent`
that throws or never ends has no result, and neither has the handler around it.
-/

namespace WebServer.Http

open WebServer.Util (Bytes Buffer Session SendResult ascii)

/-- The data members of `HttpServer` that concern a connection. -/
structure HttpServer where
  autoCloseIdleconnection : Bool
  responseCallback : HttpRequest → HttpResponse → HttpResponse

/-- What a call of `MessageCallback` does not determine itself: the clock, the results of
`send()` for the 400 response and for the response to a request, and indeterminate members. -/
structure CallbackInputs where
  now : ℤ
  badRequestSend : SendResult
  responseSend : SendResult
  statusCode : ℤ
  method : Method
  version : Version

/-- The response to input that cannot be parsed. -/
def badRequest : Bytes := ascii "HTTP/1.1 400 Bad Request\r\n\r\n"

namespace HttpRequest

/-- The close flag which `DealWithRequest` computes from the request. -/
def closeFlag (request : HttpRequest) : Bool :=
  let connectionState := request.getHeader (ascii "Connection")
  connectionState = ascii "Close" ∨
    (request.version = .kHttp10 ∧ connectionState ≠ ascii "Keep-Alive")

end HttpRequest

/-- What is sent in answer to a head. -/
inductive Reply where
  | response (request : HttpRequest) (response : HttpResponse)
  | badRequest

namespace Reply

/-- The message handed to `Send`. -/
def text : Reply → Bytes
  | response _ page => page.text
  | badRequest => WebServer.Http.badRequest

/-- `Shutdown` is called behind the reply. -/
def closes : Reply → Bool
  | response _ page => page.closeConnection
  | badRequest => true

/-- The request that is answered. -/
def request : Reply → Option HttpRequest
  | response answered _ => some answered
  | badRequest => none

/-- What the kernel answers to the direct `send()` of the reply. -/
def result (inputs : CallbackInputs) : Reply → SendResult
  | response _ _ => inputs.responseSend
  | badRequest => inputs.badRequestSend

end Reply

namespace HttpServer

/-- `HttpDefaultCallback(request, response)`. -/
def httpDefaultCallback (_request : HttpRequest) (response : HttpResponse) : HttpResponse :=
  ((response.setStatusCode .k404NotFound).setStatusMessage (ascii "Not Found")).setCloseConnection true

/-- The response to a request: the callback completes the one constructed with the close flag. -/
def response (server : HttpServer) (request : HttpRequest) (statusCode : ℤ) : HttpResponse :=
  server.responseCallback request (.new request.closeFlag statusCode)

/-- `DealWithRequest(request, connection)`. -/
def dealWithRequest (server : HttpServer) (request : HttpRequest) (inputs : CallbackInputs) (s : Session) :
    Session :=
  let response := server.response request inputs.statusCode
  let answered := s.send response.text inputs.responseSend
  if response.closeConnection then answered.shutdown else answered

/-- The end of `MessageCallback`: answer a complete request and reset the content. -/
def answerComplete (server : HttpServer) (inputs : CallbackInputs) (s : Session) : Session :=
  if s.content.getCompleteRequest then
    let answered := server.dealWithRequest s.content.request inputs s
    { answered with content := answered.content.resetContentState inputs.method inputs.version }
  else s

/-- `MessageCallback` behind the call of the parser: what was rejected is answered with 400. -/
def answer (server : HttpServer) (inputs : CallbackInputs) (parseok : Bool) (s : Session) : Session :=
  server.answerComplete inputs (if parseok then s else (s.send badRequest inputs.badRequestSend).shutdown)

/-- `MessageCallback` behind the update of the timestamp. -/
def parseInput (server : HttpServer) (inputs : CallbackInputs) (s : Session) : Option Session :=
  if s.isShutdown then some s
  else match s.content.parseContent s.inputBuffer with
    | some (.returned parseok content inputBuffer) =>
      some (server.answer inputs parseok { s with content, inputBuffer })
    | _ => none

/-- `MessageCallback(connection, buffer)`. -/
def messageCallback (server : HttpServer) (inputs : CallbackInputs) (s : Session) : Option Session :=
  server.parseInput inputs (if server.autoCloseIdleconnection then { s with timestamp := inputs.now } else s)

/-- `HandleMessage()`: bytes read are handed to `MessageCallback`, the end of the stream
closes the connection, and an error of `readv` is ignored. -/
def handleMessage (server : HttpServer) (inputs : CallbackInputs) (s : Session) : Option Bytes → Option Session
  | none => some s
  | some [] => some s.handleClose
  | some (first :: rest) =>
    server.messageCallback inputs { s with inputBuffer := s.inputBuffer.readFd (first :: rest) }

/-- The reply of `MessageCallback`. -/
def reply (server : HttpServer) (inputs : CallbackInputs) (s : Session) : Option Reply :=
  if s.isShutdown then none
  else match s.content.parseContent s.inputBuffer with
    | some (.returned true content _) =>
      if content.getCompleteRequest then
        some (.response content.request (server.response content.request inputs.statusCode))
      else none
    | some (.returned false _ _) => some .badRequest
    | _ => none

/-- A reply is handed to `Send`, and followed by `Shutdown` if it closes the connection. -/
def replied (s : Session) (reply : Reply) (result : SendResult) : Session :=
  if reply.closes then (s.send reply.text result).shutdown else s.send reply.text result

/-- A reply that keeps the connection is handed to `Send`. -/
theorem replied_of_keeps {s : Session} {reply : Reply} {result : SendResult} (h : reply.closes = false) :
    replied s reply result = s.send reply.text result := by
  rw [replied, if_neg (by simp [h])]

/-- Without a complete request nothing is answered. -/
theorem answerComplete_of_incomplete {server : HttpServer} {inputs : CallbackInputs} {s : Session}
    (h : s.content.getCompleteRequest = false) : server.answerComplete inputs s = s := by
  rw [answerComplete, h]
  rfl

/-- After a rejection nothing but the 400 response is sent. -/
theorem answer_rejected {server : HttpServer} {inputs : CallbackInputs} {s : Session}
    (h : s.content.getCompleteRequest = false) :
    server.answer inputs false s = (s.send badRequest inputs.badRequestSend).shutdown := by
  apply answerComplete_of_incomplete
  exact ((Session.sameInput_shutdown _).content.trans (Session.sameInput_send s _ _).content).symm ▸ h

/-- What `MessageCallback` does behind the update of the timestamp: it ignores what it finds after a shutdown, it
parses what is not complete, or it parses and replies. -/
inductive ParsesInput (server : HttpServer) (inputs : CallbackInputs) (s : Session) : Session → Prop where
  | ignores (h : s.isShutdown = true) (hreply : server.reply inputs s = none) : ParsesInput server inputs s s
  | waits (content : HttpContent) (inputBuffer : Buffer) (hreply : server.reply inputs s = none) :
    ParsesInput server inputs s { s with content, inputBuffer }
  | replies (content : HttpContent) (inputBuffer : Buffer) (reply : Reply) (content' : HttpContent)
    (h : s.isShutdown = false) (hreply : server.reply inputs s = some reply) :
    ParsesInput server inputs s
      { replied { s with content, inputBuffer } reply (reply.result inputs) with content := content' }

/-- There are no other cases. -/
theorem parsesInput_of_parseInput {server : HttpServer} {inputs : CallbackInputs} {s s' : Session}
    (hcall : server.parseInput inputs s = some s') : server.ParsesInput inputs s s' := by
  rw [parseInput] at hcall
  split at hcall
  · next hshutdown =>
    obtain rfl := Option.some.inj hcall
    exact .ignores hshutdown (by rw [reply, if_pos hshutdown])
  · next hactive =>
    have hactive' : s.isShutdown = false := Bool.eq_false_of_not_eq_true hactive
    split at hcall
    · next parseok content inputBuffer hparse =>
      obtain rfl := Option.some.inj hcall
      cases parseok with
      | false =>
        have hreply : server.reply inputs s = some .badRequest := by rw [reply, if_neg hactive, hparse]
        rw [answer_rejected (HttpContent.parseContent_rejected hparse)]
        exact .replies content inputBuffer .badRequest _ hactive' hreply
      | true =>
        by_cases hcomplete : content.getCompleteRequest
        · have hreply : server.reply inputs s =
              some (.response content.request (server.response content.request inputs.statusCode)) := by
            simp only [reply, if_neg hactive, hparse, if_pos hcomplete]
          simp only [answer, answerComplete, if_true, if_pos hcomplete]
          exact .replies content inputBuffer _ _ hactive' hreply
        · have hreply : server.reply inputs s = none := by
            simp only [reply, if_neg hactive, hparse, if_neg hcomplete]
          simp only [answer, answerComplete, if_true, if_neg hcomplete]
          exact .waits content inputBuffer hreply
    · cases hcall

/-- A complete request is replied to, and the content is reset. -/
theorem parseInput_replied {server : HttpServer} {inputs : CallbackInputs} {s : Session} {content : HttpContent}
    {inputBuffer : Buffer} (hactive : s.isShutdown = false)
    (hparse : s.content.parseContent s.inputBuffer = some (.returned true content inputBuffer))
    (hcomplete : content.getCompleteRequest = true) :
    server.parseInput inputs s = some
      { replied { s with content, inputBuffer }
          (.response content.request (server.response content.request inputs.statusCode)) inputs.responseSend with
        content := .new inputs.method inputs.version } := by
  have hactive' : ¬ s.isShutdown = true := by simp [hactive]
  rw [parseInput, if_neg hactive', hparse]
  simp only [answer, answerComplete, if_true, if_pos hcomplete]
  rfl

/-- Bytes that arrive are handed to the parser with the others. -/
theorem handleMessage_parses (server : HttpServer) (inputs : CallbackInputs) (s : Session) (first : UInt8)
    (rest : Bytes) :
    ∃ timestamp, server.handleMessage inputs s (some (first :: rest)) =
      server.parseInput inputs { s with timestamp, inputBuffer := s.inputBuffer.readFd (first :: rest) } := by
  rw [handleMessage, messageCallback]
  split
  · exact ⟨inputs.now, rfl⟩
  · exact ⟨s.timestamp, rfl⟩

end HttpServer

end WebServer.Http
