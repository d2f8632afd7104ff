import WebServer.Http.Request
import WebServer.Util.ByteQueue

/-!
# The parsing loop

`parseIteration` is the body of the loop of `HttpContent::ParseContent` and `parseLoop` runs
it until it clears `linemore`. The loop consumes one line in each iteration that continues,
except in `kParseBody` and `kParseErrno`, where the body does nothing and the loop never
ends. `ParseContent` is the loop with a bound that no run which consumes lines can reach, so
`none` stands for the endless loop.

`parseBytes` is the same loop on the readable bytes alone. The two agree: the parser sees
nothing of the buffer but its readable bytes.
-/

namespace WebServer.Http

open WebServer.Foundation
open WebServer.Util (Bytes Buffer crlf)

/-- `HttpRequestParseState`. -/
inductive HttpRequestParseState where
  | kParseRequestLine
  | kParseHeaders
  | kParseBody
  | kParseGotCompleteRequest
  | kParseErrno
deriving DecidableEq

/-- The data members of `HttpContent`. -/
structure HttpContent where
  request : HttpRequest
  parseState : HttpRequestParseState
deriving DecidableEq

/-- What one execution of the loop body leads to, `β` being the buffer. -/
inductive Iteration (β : Type) where
  | again (content : HttpContent) (buffer : β)
  | finished (parseok : Bool) (content : HttpContent) (buffer : β)
  | threw

/-- What a call of `ParseContent` leads to when it ends. -/
inductive ParseOutcome (β : Type) where
  | returned (parseok : Bool) (content : HttpContent) (buffer : β)
  | threw

namespace Iteration

/-- Replace the buffer of an iteration. -/
def map {β γ : Type} (f : β → γ) : Iteration β → Iteration γ
  | again content buffer => again content (f buffer)
  | finished parseok content buffer => finished parseok content (f buffer)
  | threw => threw

end Iteration

namespace ParseOutcome

/-- Replace the buffer of an outcome. -/
def map {β γ : Type} (f : β → γ) : ParseOutcome β → ParseOutcome γ
  | returned parseok content buffer => returned parseok content (f buffer)
  | threw => threw

end ParseOutcome

namespace HttpContent

/-- The constructor, over the indeterminate members of the request. -/
def new (method : Method) (version : Version) : HttpContent := ⟨.new method version, .kParseRequestLine⟩

/-- `GetCompleteRequest()`. -/
def getCompleteRequest (content : HttpContent) : Bool :=
  content.parseState = .kParseGotCompleteRequest

/-- `ResetContentState()`, over the indeterminate members of the temporary request. -/
def resetContentState (content : HttpContent) (method : Method) (version : Version) : HttpContent :=
  ⟨(content.request.swap (.new method version)).1, .kParseRequestLine⟩

/-- After a reset the content is a new one. -/
@[simp] theorem resetContentState_eq_new (content : HttpContent) (method : Method) (version : Version) :
    content.resetContentState method version = new method version := rfl

/-- The branch for the request line, applied to the line and to the buffer behind it. -/
def requestLineBranch {β : Type} (content : HttpContent) (line : Bytes) (rest : β) : Iteration β :=
  match content.request.parseRequestLine line with
  | .error _ => .threw
  | .ok (true, request) => .again ⟨request, .kParseHeaders⟩ rest
  | .ok (false, request) => .finished false { content with request } rest

/-- The branch for a header line that ends at `finish`: a line without a colon ends the head. -/
def headerBranch {β : Type} (content : HttpContent) (text : Bytes) (finish : ℕ) (rest : β) : Iteration β :=
  let colon := (text.take finish).idxOf colonMark
  if colon = finish then .finished true { content with parseState := .kParseGotCompleteRequest } rest
  else match content.request.parseHeaders text colon finish with
    | (true, request) => .again { content with request } rest
    | (false, request) => .finished false { content with request } rest

/-- The body of the loop in `ParseContent`. -/
def parseIteration (content : HttpContent) (buffer : Buffer) : Iteration Buffer :=
  match content.parseState with
  | .kParseRequestLine =>
    match buffer.findCRLF with
    | some ⟨finish, h⟩ =>
      content.requestLineBranch (buffer.bytes.take finish) (buffer.retrieveUntilIndex (finish + 2) h)
    | none => .finished true content buffer
  | .kParseHeaders =>
    match buffer.findCRLF with
    | some ⟨finish, h⟩ =>
      content.headerBranch buffer.bytes finish (buffer.retrieveUntilIndex (finish + 2) h)
    | none => .finished true content buffer
  | .kParseGotCompleteRequest => .finished true content buffer
  | .kParseBody => .again content buffer
  | .kParseErrno => .again content buffer

/-- At most `fuel` executions of the loop body; `none` when `linemore` is still set then. -/
def parseLoop : ℕ → HttpContent → Buffer → Option (ParseOutcome Buffer)
  | 0, _, _ => none
  | fuel + 1, content, buffer =>
    match content.parseIteration buffer with
    | .again content buffer => parseLoop fuel content buffer
    | .finished parseok content buffer => some (.returned parseok content buffer)
    | .threw => some .threw

/-- `ParseContent(buffer)`. -/
def parseContent (content : HttpContent) (buffer : Buffer) : Option (ParseOutcome Buffer) :=
  parseLoop (buffer.readable + 1) content buffer

/-- The loop body on the readable bytes. -/
def bytesIteration (content : HttpContent) (text : Bytes) : Iteration Bytes :=
  match content.parseState with
  | .kParseRequestLine =>
    match searchIdx crlf text with
    | some finish => content.requestLineBranch (text.take finish) (text.drop (finish + 2))
    | none => .finished true content text
  | .kParseHeaders =>
    match searchIdx crlf text with
    | some finish => content.headerBranch text finish (text.drop (finish + 2))
    | none => .finished true content text
  | .kParseGotCompleteRequest => .finished true content text
  | .kParseBody => .again content text
  | .kParseErrno => .again content text

/-- The loop on the readable bytes. -/
def bytesLoop : ℕ → HttpContent → Bytes → Option (ParseOutcome Bytes)
  | 0, _, _ => none
  | fuel + 1, content, text =>
    match content.bytesIteration text with
    | .again content text => bytesLoop fuel content text
    | .finished parseok content text => some (.returned parseok content text)
    | .threw => some .threw

/-- `ParseContent` on the readable bytes. -/
def parseBytes (content : HttpContent) (text : Bytes) : Option (ParseOutcome Bytes) :=
  bytesLoop (text.length + 1) content text

/-- The branch for the request line does not look at the rest. -/
theorem requestLineBranch_map {β γ : Type} (f : β → γ) (content : HttpContent) (line : Bytes) (rest : β) :
    (content.requestLineBranch line rest).map f = content.requestLineBranch line (f rest) := by
  rw [requestLineBranch, requestLineBranch]
  split <;> rfl

/-- The branch for a header line does not look at the rest. -/
theorem headerBranch_map {β γ : Type} (f : β → γ) (content : HttpContent) (text : Bytes) (finish : ℕ)
    (rest : β) : (content.headerBranch text finish rest).map f = content.headerBranch text finish (f rest) := by
  rw [headerBranch, headerBranch]
  split
  · rfl
  · split <;> rfl

/-- The loop body sees only the readable bytes. -/
theorem parseIteration_bytes (content : HttpContent) (buffer : Buffer) :
    (content.parseIteration buffer).map Buffer.bytes = content.bytesIteration buffer.bytes := by
  rw [parseIteration, bytesIteration]
  cases content.parseState with
  | kParseRequestLine =>
    cases hsearch : searchIdx crlf buffer.bytes with
    | none =>
      rw [Buffer.findCRLF_eq_none hsearch]
      rfl
    | some finish =>
      rw [Buffer.findCRLF_eq_some hsearch]
      exact (requestLineBranch_map _ _ _ _).trans (by rw [Buffer.bytes_retrieveUntilIndex])
  | kParseHeaders =>
    cases hsearch : searchIdx crlf buffer.bytes with
    | none =>
      rw [Buffer.findCRLF_eq_none hsearch]
      rfl
    | some finish =>
      rw [Buffer.findCRLF_eq_some hsearch]
      exact (headerBranch_map _ _ _ _ _).trans (by rw [Buffer.bytes_retrieveUntilIndex])
  | kParseBody => rfl
  | kParseGotCompleteRequest => rfl
  | kParseErrno => rfl

/-- The loop sees only the readable bytes. -/
theorem parseLoop_bytes (fuel : ℕ) (content : HttpContent) (buffer : Buffer) :
    (parseLoop fuel content buffer).map (ParseOutcome.map Buffer.bytes) =
      bytesLoop fuel content buffer.bytes := by
  induction fuel generalizing content buffer with
  | zero => rfl
  | succ fuel ih =>
    rw [parseLoop, bytesLoop, ← parseIteration_bytes]
    cases content.parseIteration buffer with
    | again content' buffer' => exact ih content' buffer'
    | finished parseok content' buffer' => rfl
    | threw => rfl

/-- `ParseContent` on the buffer is `ParseContent` on its readable bytes. -/
theorem parseContent_bytes (content : HttpContent) (buffer : Buffer) :
    (content.parseContent buffer).map (ParseOutcome.map Buffer.bytes) =
      content.parseBytes buffer.bytes := by
  rw [parseContent, parseBytes, Buffer.length_bytes, parseLoop_bytes]

/-- A call that returns on the readable bytes returns on the buffer, and leaves these bytes there. -/
theorem parseContent_of_parseBytes {content content' : HttpContent} {buffer : Buffer} {parseok : Bool}
    {rest : Bytes} (h : content.parseBytes buffer.bytes = some (.returned parseok content' rest)) :
    ∃ buffer', content.parseContent buffer = some (.returned parseok content' buffer') ∧
      buffer'.bytes = rest := by
  rw [← parseContent_bytes] at h
  cases hcall : content.parseContent buffer with
  | none => simp [hcall] at h
  | some outcome =>
    cases outcome with
    | threw => simp [hcall, ParseOutcome.map] at h
    | returned parseok'' content'' buffer'' =>
      simp only [hcall, Option.map_some, ParseOutcome.map, Option.some.injEq,
        ParseOutcome.returned.injEq] at h
      obtain ⟨rfl, rfl, hrest⟩ := h
      exact ⟨buffer'', rfl, hrest⟩

end HttpContent

end WebServer.Http
