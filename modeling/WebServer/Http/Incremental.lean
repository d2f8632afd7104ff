import WebServer.Http.ContentLines

/-!
# Incremental parsing is one-shot parsing

Cutting the input at any point changes nothing: a line that is complete in the first part is
found and consumed there as it is in the whole input, and a line that is not complete is left
in the buffer and scanned again with the second part behind it.
-/

namespace WebServer.Http

open WebServer.Foundation
open WebServer.Util (Bytes Buffer crlf)

namespace Iteration

/-- Put more bytes behind what an execution of the loop body leaves. -/
def append (iteration : Iteration Bytes) (more : Bytes) : Iteration Bytes := iteration.map (· ++ more)

end Iteration

namespace ParseOutcome

/-- What is done with an outcome when more input arrives: only a call that returned true
without completing a request is followed by another call. -/
def continueBytes (more : Bytes) : ParseOutcome Bytes → Option (ParseOutcome Bytes)
  | returned parseok content text =>
    if parseok && !content.getCompleteRequest then content.parseBytes (text ++ more)
    else some (.returned parseok content (text ++ more))
  | threw => some .threw

/-- The same on buffers: append what arrives and call `ParseContent` again. -/
def continueWith (more : Bytes) : ParseOutcome Buffer → Option (ParseOutcome Buffer)
  | returned parseok content buffer =>
    if parseok && !content.getCompleteRequest then content.parseContent (buffer.append more)
    else some (.returned parseok content (buffer.append more))
  | threw => some .threw

/-- Continuing on a buffer is continuing on its readable bytes. -/
theorem continueWith_bytes (more : Bytes) (outcome : ParseOutcome Buffer) :
    (outcome.continueWith more).map (ParseOutcome.map Buffer.bytes) =
      (outcome.map Buffer.bytes).continueBytes more := by
  cases outcome with
  | threw => rfl
  | returned parseok content buffer =>
    rw [continueWith, ParseOutcome.map, continueBytes]
    split
    · rw [HttpContent.parseContent_bytes, Buffer.bytes_append]
    · simp only [Option.map_some, ParseOutcome.map, Buffer.bytes_append]

end ParseOutcome

namespace HttpContent

/-- A completed request is not one of the states that wait for a line. -/
theorem ReadsLines.not_complete {content : HttpContent} (h : content.ReadsLines) :
    content.getCompleteRequest = false := by
  rcases h with hstate | hstate
  · simp [getCompleteRequest, hstate]
  · simp [getCompleteRequest, hstate]

/-- A line that is complete in the first part is consumed there as in the whole input. -/
theorem bytesIteration_append {content : HttpContent} {text : Bytes} {finish : ℕ}
    (hreads : content.ReadsLines) (hsearch : searchIdx crlf text = some finish) (more : Bytes) :
    content.bytesIteration (text ++ more) = (content.bytesIteration text).append more := by
  have hbound := searchIdx_bound hsearch
  have hinside : finish + 2 ≤ text.length := hbound.2
  rw [bytesIteration_line hreads hsearch, bytesIteration_line hreads (searchIdx_append hsearch more),
    Iteration.append, consumeLine_map, List.take_append_of_le_length hbound.1.le,
    List.drop_append_of_le_length hinside]

/-- Parsing on the readable bytes continues where it stopped. -/
theorem parseBytes_append (content : HttpContent) (text more : Bytes) :
    content.parseBytes (text ++ more) = (content.parseBytes text).bind (ParseOutcome.continueBytes more) := by
  by_cases hlive : content.Live
  · induction hlength : text.length using Nat.strongRecOn generalizing content text with
    | ind length ih =>
      rw [parseBytes_eq hlive, parseBytes_eq hlive text]
      rcases hlive with hreads | hcomplete
      · cases hsearch : searchIdx crlf text with
        | none =>
          rw [bytesIteration_unterminated hreads hsearch, ← parseBytes_eq (Or.inl hreads)]
          simp [ParseOutcome.continueBytes, hreads.not_complete]
        | some finish =>
          rw [bytesIteration_append hreads hsearch]
          cases hiteration : content.bytesIteration text with
          | again content' text' =>
            obtain ⟨hstate, hshorter⟩ := bytesIteration_again (Or.inl hreads) hiteration
            exact ih text'.length (by omega) content' text' (Or.inl (Or.inr hstate)) rfl
          | finished parseok content' text' =>
            rw [bytesIteration_line hreads hsearch] at hiteration
            have hcomplete := (consumeLine_finished hiteration).1
            simp [Iteration.append, Iteration.map, ParseOutcome.continueBytes, hcomplete]
          | threw => rfl
      · rw [bytesIteration_complete _ hcomplete, bytesIteration_complete _ hcomplete]
        simp [ParseOutcome.continueBytes, getCompleteRequest, hcomplete]
  · rw [parseBytes_stuck hlive, parseBytes_stuck hlive]
    rfl

/-- One call of `ParseContent` on two pieces of input gives the same return value, state,
request and remaining bytes as a call on the first piece, continued with the second one. -/
theorem parseContent_append (content : HttpContent) (buffer : Buffer) (more : Bytes) :
    (content.parseContent (buffer.append more)).map (ParseOutcome.map Buffer.bytes) =
      ((content.parseContent buffer).bind (ParseOutcome.continueWith more)).map
        (ParseOutcome.map Buffer.bytes) := by
  rw [parseContent_bytes, Buffer.bytes_append, parseBytes_append, ← parseContent_bytes]
  cases content.parseContent buffer with
  | none => rfl
  | some outcome => exact (ParseOutcome.continueWith_bytes more outcome).symm

end HttpContent

end WebServer.Http
