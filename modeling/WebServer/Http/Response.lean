import WebServer.Http.Request
import WebServer.Util.ByteQueue

/-!
# Responses and their text

A response is built by the response callback and written to a fresh buffer by
`AppendToBuffer`, through a local array of 32 characters for the formatted lines. The status
code is indeterminate until the callback sets it.
-/

namespace WebServer.Http

open WebServer.Util (Bytes Buffer ascii crlf)

/-- `HttpStatusCode`. -/
inductive HttpStatusCode where
  | k100Continue
  | k200OK
  | k400BadRequest
  | k403Forbidden
  | k404NotFound
  | k500InternalServerErrno
deriving DecidableEq

/-- The value of an enumerator. -/
def HttpStatusCode.value : HttpStatusCode → ℤ
  | k100Continue => 100
  | k200OK => 200
  | k400BadRequest => 400
  | k403Forbidden => 403
  | k404NotFound => 404
  | k500InternalServerErrno => 500

/-- The data members of `HttpResponse` that are ever used. -/
structure HttpResponse where
  statusCode : ℤ
  statusMessage : Bytes
  body : Bytes
  type : Bytes
  closeConnection : Bool
deriving DecidableEq

/-- `%d` and `%zd`. -/
def decimal (n : ℤ) : Bytes := ascii (toString n)

/-- `snprintf` into an array of 32 characters, read back up to the terminator. -/
def formatted (text : Bytes) : Bytes := text.take 31

namespace HttpResponse

/-- The constructor, over the indeterminate value of `status_code_`. -/
def new (closeConnection : Bool) (statusCode : ℤ) : HttpResponse :=
  ⟨statusCode, [], [], ascii "text/plain", closeConnection⟩

/-- `SetStatusCode(status_code)`. -/
def setStatusCode (response : HttpResponse) (status : HttpStatusCode) : HttpResponse :=
  { response with statusCode := status.value }

/-- `SetStatusMessage(status_message)`. -/
def setStatusMessage (response : HttpResponse) (statusMessage : Bytes) : HttpResponse :=
  { response with statusMessage }

/-- `SetCloseConnection(close_connection)`. -/
def setCloseConnection (response : HttpResponse) (closeConnection : Bool) : HttpResponse :=
  { response with closeConnection }

/-- `SetBodyType(type)`. -/
def setBodyType (response : HttpResponse) (type : Bytes) : HttpResponse := { response with type }

/-- `SetBody(body)`. -/
def setBody (response : HttpResponse) (body : Bytes) : HttpResponse := { response with body }

/-- `server_name_`. -/
def serverName : Bytes := ascii "Tiny_muduo"

/-- `AppendToBuffer(buffer)`. -/
def appendToBuffer (response : HttpResponse) (buffer : Buffer) : Buffer :=
  let buffer := buffer.append (formatted (ascii "HTTP/1.1 " ++ decimal response.statusCode ++ ascii " "))
  let buffer := buffer.append response.statusMessage
  let buffer := buffer.append crlf
  let buffer :=
    if response.closeConnection then buffer.append (ascii "Connection: close\r\n")
    else
      let buffer := buffer.append
        (formatted (ascii "Content-Length: " ++ decimal response.body.length ++ crlf))
      buffer.append (ascii "Connection: Keep-Alive\r\n")
  let buffer := buffer.append (ascii "Content-Type: ")
  let buffer := buffer.append response.type
  let buffer := buffer.append crlf
  let buffer := buffer.append (ascii "Server: ")
  let buffer := buffer.append serverName
  let buffer := buffer.append crlf
  let buffer := buffer.append crlf
  buffer.append response.body

/-- The text of a response: what `AppendToBuffer` writes to a fresh buffer. -/
def text (response : HttpResponse) : Bytes := (response.appendToBuffer .new).bytes

/-- The body is part of the text of a response. -/
theorem length_body_le (response : HttpResponse) : response.body.length ≤ response.text.length := by
  rw [text, appendToBuffer, Buffer.bytes_append, List.length_append]
  exact Nat.le_add_left _ _

/-- What `snprintf` wrote to the local buffer is short. -/
theorem length_formatted_le (text : Bytes) : (formatted text).length ≤ 31 := List.length_take_le _ _

/-- The text of a response is not much longer than its status message, its type and its body. -/
theorem length_text_le_parts (response : HttpResponse) :
    response.text.length ≤ response.statusMessage.length + response.type.length + response.body.length + 140 := by
  have hstatus := length_formatted_le (ascii "HTTP/1.1 " ++ decimal response.statusCode ++ ascii " ")
  have hlength := length_formatted_le (ascii "Content-Length: " ++ decimal response.body.length ++ crlf)
  have hclose : (ascii "Connection: close\r\n").length = 19 := by decide
  have hkeep : (ascii "Connection: Keep-Alive\r\n").length = 24 := by decide
  have htype : (ascii "Content-Type: ").length = 14 := by decide
  have hserver : (ascii "Server: ").length + serverName.length = 18 := by decide
  have hcrlf : crlf.length = 2 := by decide
  rw [text, appendToBuffer]
  split <;> simp only [Buffer.bytes_append, Buffer.bytes_new, List.length_append, List.length_nil] <;> omega

end HttpResponse

end WebServer.Http
