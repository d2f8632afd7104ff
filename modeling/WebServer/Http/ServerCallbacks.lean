import WebServer.Http.Server
import WebServer.Util.ConnectionCallbacks

/-!
# The callbacks of the HTTP server

The HTTP server is one user of a TCP server. Its `MessageCallback` uses the connection it is
given only through `Send`, `Shutdown` and what it may change directly, so what holds of a
connection under any callbacks holds of it under this one.
-/

namespace WebServer.Http

open WebServer.Util (Bytes Session UserCall)

namespace HttpServer

/-- Calls of a callback lead from one state of the connection to the other. -/
def MadeOfCalls (s s' : Session) : Prop := ∃ calls : List UserCall, s' = s.callAll calls

/-- Making no calls. -/
theorem MadeOfCalls.refl (s : Session) : MadeOfCalls s s := ⟨[], rfl⟩

/-- Calls that follow calls. -/
theorem MadeOfCalls.trans {s t u : Session} (h : MadeOfCalls s t) (h' : MadeOfCalls t u) : MadeOfCalls s u := by
  obtain ⟨calls, rfl⟩ := h
  obtain ⟨more, rfl⟩ := h'
  exact ⟨calls ++ more, by rw [Session.callAll, Session.callAll, Session.callAll, List.foldl_append]⟩

/-- A single call. -/
theorem MadeOfCalls.single {s s' : Session} (call : UserCall) (h : s' = s.call call) : MadeOfCalls s s' :=
    ⟨[call], h⟩

/-- `DealWithRequest` sends, and shuts down if the response says so. -/
theorem dealWithRequest_calls (server : HttpServer) (request : HttpRequest) (inputs : CallbackInputs)
    (s : Session) :
    MadeOfCalls s (server.dealWithRequest request inputs s) := by
  have hsent : MadeOfCalls s (s.send (server.response request inputs.statusCode).text inputs.responseSend) :=
    .single (.send _ _) rfl
  rw [dealWithRequest]
  split
  · exact hsent.trans (.single .shutdown rfl)
  · exact hsent

/-- The end of `MessageCallback`. -/
theorem answerComplete_calls (server : HttpServer) (inputs : CallbackInputs) (s : Session) :
    MadeOfCalls s (server.answerComplete inputs s) := by
  rw [answerComplete]
  split
  · exact (server.dealWithRequest_calls s.content.request inputs s).trans (.single (.change _ _ _) rfl)
  · exact .refl s

/-- `MessageCallback` behind the parser. -/
theorem answer_calls (server : HttpServer) (inputs : CallbackInputs) (parseok : Bool) (s : Session) :
    MadeOfCalls s (server.answer inputs parseok s) := by
  rw [answer]
  cases parseok with
  | true => exact server.answerComplete_calls inputs s
  | false =>
    have hsent : MadeOfCalls s (s.send badRequest inputs.badRequestSend) := .single (.send _ _) rfl
    exact (hsent.trans (.single .shutdown rfl)).trans (server.answerComplete_calls inputs _)

/-- `MessageCallback` behind the update of the timestamp. -/
theorem parseInput_calls {server : HttpServer} {inputs : CallbackInputs} {s s' : Session}
    (hcall : server.parseInput inputs s = some s') : MadeOfCalls s s' := by
  rw [parseInput] at hcall
  split at hcall
  · obtain rfl := Option.some.inj hcall
    exact .refl s
  · split at hcall
    · next parseok content inputBuffer hparse =>
      obtain rfl := Option.some.inj hcall
      have hparsed : MadeOfCalls s { s with content, inputBuffer } := .single (.change s.timestamp _ _) rfl
      exact hparsed.trans (server.answer_calls inputs parseok _)
    · cases hcall

/-- `MessageCallback` is made of calls of the connection. -/
theorem messageCallback_calls {server : HttpServer} {inputs : CallbackInputs} {s s' : Session}
    (hcall : server.messageCallback inputs s = some s') : MadeOfCalls s s' := by
  have hstamped : MadeOfCalls s (if server.autoCloseIdleconnection
      then { s with timestamp := inputs.now } else s) := by
    split
    · exact .single (.change inputs.now s.inputBuffer s.content) rfl
    · exact .refl s
  exact hstamped.trans (parseInput_calls hcall)

/-- `HandleMessage` with this callback is `HandleMessage` with some calls. -/
theorem handleMessage_calls {server : HttpServer} {inputs : CallbackInputs} {s s' : Session} {data : Option Bytes}
    (hcall : server.handleMessage inputs s data = some s') : ∃ calls, s' = s.handleMessage calls data := by
  cases data with
  | none => exact ⟨[], (Option.some.inj hcall).symm⟩
  | some bytes =>
    cases bytes with
    | nil => exact ⟨[], (Option.some.inj hcall).symm⟩
    | cons first rest => exact messageCallback_calls hcall

end HttpServer

end WebServer.Http
