import WebServer.Http.Content

/-!
# The parser consumes whole lines

In the states for the request line and for the headers, one execution of the loop body either
finds no line end and stops, or consumes one line with its line end. What it does with the
line depends on the line alone: the scan over the spaces behind a colon, which the code does
not bound, stops at the line end at the latest.

Each line consumed makes the text shorter, so the bound of `parseBytes` is never reached and
the loop can be unfolded without counting.
-/

namespace WebServer.Http

open WebServer.Foundation
open WebServer.Util (Bytes Buffer crlf)

/-- The value of a header line whose first colon stands at the given position. -/
def headerValue (line : Bytes) (colon : ℕ) : Bytes := (line.drop (colon + 1)).dropWhile (· == space)

namespace HttpRequest

/-- Add the header of a line with a colon, as `ParseHeaders` does. -/
def addHeader (req : HttpRequest) (line : Bytes) : HttpRequest :=
  let colon := line.idxOf colonMark
  { req with headers := req.headers.insert (line.take colon) (headerValue line colon) }

/-- The scan over the spaces ends inside the line or at its end. -/
theorem takeWhile_space_line (tail rest : Bytes) :
    (tail ++ (crlf ++ rest)).takeWhile (· == space) = tail.takeWhile (· == space) := by
  have hstop : (crlf ++ rest).takeWhile (· == space) = [] := rfl
  rw [List.takeWhile_append]
  split
  · next hall => rw [hstop, List.append_nil, (List.takeWhile_prefix _).eq_of_length hall]
  · rfl

/-- Dropping as many elements as the scan passed over leaves what the scan stopped at. -/
theorem drop_length_takeWhile (p : UInt8 → Bool) (l : Bytes) : l.drop (l.takeWhile p).length = l.dropWhile p := by
  have hsplit : l.takeWhile p ++ l.dropWhile p = l := List.takeWhile_append_dropWhile
  calc
    l.drop (l.takeWhile p).length = (l.takeWhile p ++ l.dropWhile p).drop (l.takeWhile p).length := by rw [hsplit]
    _ = l.dropWhile p := List.drop_left

/-- `ParseHeaders` on a terminated line reads nothing behind the line. -/
theorem parseHeaders_line (req : HttpRequest) (line rest : Bytes) (h : colonMark ∈ line) :
    req.parseHeaders (line ++ (crlf ++ rest)) (line.idxOf colonMark) line.length =
      (true, req.addHeader line) := by
  have hcolon : line.idxOf colonMark < line.length := List.idxOf_lt_length_of_mem h
  have hname : window (line ++ (crlf ++ rest)) 0 (line.idxOf colonMark) = line.take (line.idxOf colonMark) := by
    rw [window_append _ 0 hcolon.le]
    rfl
  have hskip : (line ++ (crlf ++ rest)).drop (line.idxOf colonMark + 1) =
      line.drop (line.idxOf colonMark + 1) ++ (crlf ++ rest) := List.drop_append_of_le_length hcolon
  have hvalue : window (line ++ (crlf ++ rest)) (line.idxOf colonMark + 1 +
      ((line.drop (line.idxOf colonMark + 1)).takeWhile (· == space)).length) line.length =
        headerValue line (line.idxOf colonMark) := by
    rw [window_append _ _ le_rfl, window_advance, window, ← List.length_drop, List.take_length,
      drop_length_takeWhile]
    rfl
  rw [parseHeaders, hskip, takeWhile_space_line]
  simp only [hname, hvalue, addHeader]

end HttpRequest

namespace HttpContent

/-- The parser waits for a line. -/
def ReadsLines (content : HttpContent) : Prop :=
  content.parseState = .kParseRequestLine ∨ content.parseState = .kParseHeaders

/-- The parser is in one of the states in which `ParseContent` ends. -/
def Live (content : HttpContent) : Prop :=
  content.ReadsLines ∨ content.parseState = .kParseGotCompleteRequest

/-- Consume one line: the request line, or a header line, where a line without a colon ends
the head. -/
def consumeLine {β : Type} (content : HttpContent) (line : Bytes) (rest : β) : Iteration β :=
  if content.parseState = .kParseRequestLine then content.requestLineBranch line rest
  else if colonMark ∈ line then .again { content with request := content.request.addHeader line } rest
  else .finished true { content with parseState := .kParseGotCompleteRequest } rest

/-- The header branch on a terminated line. -/
theorem headerBranch_line {β : Type} (content : HttpContent) (line more : Bytes) (rest : β)
    (hstate : content.parseState = .kParseHeaders) :
    content.headerBranch (line ++ (crlf ++ more)) line.length rest = content.consumeLine line rest := by
  have hne : content.parseState ≠ .kParseRequestLine := by simp [hstate]
  rw [headerBranch, consumeLine, if_neg hne, List.take_left]
  by_cases hcolon : colonMark ∈ line
  · have hinside : ¬ line.idxOf colonMark = line.length := (List.idxOf_lt_length_of_mem hcolon).ne
    simp only [if_neg hinside, if_pos hcolon, HttpRequest.parseHeaders_line _ _ _ hcolon]
  · simp only [if_pos (List.idxOf_of_notMem hcolon), if_neg hcolon]

/-- With a line end in the text, the loop body consumes the first line. -/
theorem bytesIteration_line {content : HttpContent} {text : Bytes} {finish : ℕ}
    (hreads : content.ReadsLines) (hsearch : searchIdx crlf text = some finish) :
    content.bytesIteration text = content.consumeLine (text.take finish) (text.drop (finish + 2)) := by
  rcases hreads with hstate | hstate
  · simp only [bytesIteration, hstate, hsearch, consumeLine, if_true]
  · simp only [bytesIteration, hstate, hsearch]
    have hsplit : text.take finish ++ (crlf ++ text.drop (finish + 2)) = text :=
      (List.append_assoc _ _ _).symm.trans (searchIdx_split hsearch).symm
    have hlen : (text.take finish).length = finish :=
      List.length_take_of_le (searchIdx_bound hsearch).1.le
    have hbranch := headerBranch_line content (text.take finish) (text.drop (finish + 2))
      (text.drop (finish + 2)) hstate
    rw [hlen, hsplit] at hbranch
    exact hbranch

/-- Without a line end in the text, the loop body stops and consumes nothing. -/
theorem bytesIteration_unterminated {content : HttpContent} {text : Bytes} (hreads : content.ReadsLines)
    (hsearch : searchIdx crlf text = none) : content.bytesIteration text = .finished true content text := by
  rcases hreads with hstate | hstate
  · simp only [bytesIteration, hstate, hsearch]
  · simp only [bytesIteration, hstate, hsearch]

/-- A completed request stops the loop at once. -/
theorem bytesIteration_complete {content : HttpContent} (text : Bytes)
    (hstate : content.parseState = .kParseGotCompleteRequest) :
    content.bytesIteration text = .finished true content text := by
  simp only [bytesIteration, hstate]

/-- In the two remaining states the loop body does nothing and is repeated. -/
theorem bytesIteration_stuck {content : HttpContent} (text : Bytes) (hstuck : ¬ content.Live) :
    content.bytesIteration text = .again content text := by
  rw [Live, ReadsLines] at hstuck
  rw [bytesIteration]
  cases hstate : content.parseState with
  | kParseBody => rfl
  | kParseErrno => rfl
  | _ => simp [hstate] at hstuck

/-- After a consumed line that does not end the call, the parser waits for a header line. -/
theorem consumeLine_again {β : Type} {content content' : HttpContent} {line : Bytes} {rest rest' : β}
    (hreads : content.ReadsLines) (h : content.consumeLine line rest = .again content' rest') :
    content'.parseState = .kParseHeaders ∧ rest' = rest := by
  rw [consumeLine] at h
  split at h
  · rw [requestLineBranch] at h
    split at h
    · cases h
    · cases h
      exact ⟨rfl, rfl⟩
    · cases h
  · next hne =>
    split at h
    · cases h
      exact ⟨hreads.resolve_left hne, rfl⟩
    · cases h

/-- The rest of the buffer does not influence what becomes of a line. -/
theorem consumeLine_map {β γ : Type} (f : β → γ) (content : HttpContent) (line : Bytes) (rest : β) :
    (content.consumeLine line rest).map f = content.consumeLine line (f rest) := by
  rw [consumeLine, consumeLine]
  split
  · exact requestLineBranch_map f content line rest
  · split <;> rfl

/-- An execution of the loop body that continues makes the text shorter. -/
theorem bytesIteration_again {content content' : HttpContent} {text text' : Bytes} (hlive : content.Live)
    (h : content.bytesIteration text = .again content' text') :
    content'.parseState = .kParseHeaders ∧ text'.length < text.length := by
  rcases hlive with hreads | hcomplete
  · cases hsearch : searchIdx crlf text with
    | none =>
      rw [bytesIteration_unterminated hreads hsearch] at h
      cases h
    | some finish =>
      rw [bytesIteration_line hreads hsearch] at h
      obtain ⟨hstate, rfl⟩ := consumeLine_again hreads h
      have hbound := (searchIdx_bound hsearch).1
      rw [List.length_drop]
      exact ⟨hstate, by omega⟩
  · rw [bytesIteration_complete text hcomplete] at h
    cases h

/-- The bound of the loop does not matter once it exceeds the length of the text. -/
theorem bytesLoop_fuel {content : HttpContent} (hlive : content.Live) {text : Bytes} {fuel fuel' : ℕ}
    (h : text.length < fuel) (h' : text.length < fuel') :
    bytesLoop fuel content text = bytesLoop fuel' content text := by
  induction fuel generalizing content text fuel' with
  | zero => omega
  | succ fuel ih =>
    cases fuel' with
    | zero => omega
    | succ fuel' =>
      rw [bytesLoop, bytesLoop]
      cases hiteration : content.bytesIteration text with
      | again content' text' =>
        obtain ⟨hstate, hshorter⟩ := bytesIteration_again hlive hiteration
        exact ih (Or.inl (Or.inr hstate)) (by omega) (by omega)
      | finished parseok content' text' => rfl
      | threw => rfl

/-- One execution of the loop body, then the rest of the call. -/
theorem parseBytes_eq {content : HttpContent} (hlive : content.Live) (text : Bytes) :
    content.parseBytes text = match content.bytesIteration text with
      | .again content' text' => content'.parseBytes text'
      | .finished parseok content' text' => some (.returned parseok content' text')
      | .threw => some .threw := by
  rw [parseBytes, bytesLoop]
  cases hiteration : content.bytesIteration text with
  | again content' text' =>
    obtain ⟨hstate, hshorter⟩ := bytesIteration_again hlive hiteration
    exact bytesLoop_fuel (Or.inl (Or.inr hstate)) hshorter (Nat.lt_succ_self _)
  | finished parseok content' text' => rfl
  | threw => rfl

/-- The call consumes a terminated line and goes on behind it. -/
theorem parseBytes_line {content : HttpContent} (hreads : content.ReadsLines) {line : Bytes}
    (hline : ¬ crlf <:+: line) (rest : Bytes) :
    content.parseBytes (line ++ (crlf ++ rest)) = match content.consumeLine line rest with
      | .again content' text' => content'.parseBytes text'
      | .finished parseok content' text' => some (.returned parseok content' text')
      | .threw => some .threw := by
  have hsearch : searchIdx crlf (line ++ (crlf ++ rest)) = some line.length :=
    searchIdx_terminated (by decide) line rest hline
  have hrest : (line ++ (crlf ++ rest)).drop (line.length + 2) = rest := by
    rw [← List.drop_drop, List.drop_left]
    rfl
  rw [parseBytes_eq (Or.inl hreads), bytesIteration_line hreads hsearch, List.take_left, hrest]

/-- In the two remaining states the loop never ends. -/
theorem parseBytes_stuck {content : HttpContent} (hstuck : ¬ content.Live) (text : Bytes) :
    content.parseBytes text = none := by
  have hloop (fuel : ℕ) : bytesLoop fuel content text = none := by
    induction fuel with
    | zero => rfl
    | succ fuel ih =>
      rw [bytesLoop, bytesIteration_stuck text hstuck]
      exact ih
  exact hloop _

/-- A line that ends the call is consumed, and it either completes a request or is rejected. -/
theorem consumeLine_finished {β : Type} {content content' : HttpContent} {line : Bytes} {rest rest' : β}
    {parseok : Bool} (h : content.consumeLine line rest = .finished parseok content' rest') :
    content'.getCompleteRequest = parseok ∧ rest' = rest := by
  rw [consumeLine] at h
  split at h
  · next hstate =>
    rw [requestLineBranch] at h
    split at h
    · cases h
    · cases h
    · cases h
      simp [getCompleteRequest, hstate]
  · split at h
    · cases h
    · cases h
      simp [getCompleteRequest]

/-- An execution of the loop body that fails does not complete a request. -/
theorem bytesIteration_rejected {content content' : HttpContent} {text text' : Bytes}
    (h : content.bytesIteration text = .finished false content' text') : content'.getCompleteRequest = false := by
  by_cases hlive : content.Live
  · rcases hlive with hreads | hcomplete
    · cases hsearch : searchIdx crlf text with
      | none =>
        rw [bytesIteration_unterminated hreads hsearch] at h
        cases h
      | some finish =>
        rw [bytesIteration_line hreads hsearch] at h
        exact (consumeLine_finished h).1
    · rw [bytesIteration_complete text hcomplete] at h
      cases h
  · rw [bytesIteration_stuck text hlive] at h
    cases h

/-- A call that fails has not completed a request. -/
theorem parseContent_rejected {content content' : HttpContent} {buffer buffer' : Buffer}
    (h : content.parseContent buffer = some (.returned false content' buffer')) :
    content'.getCompleteRequest = false := by
  have hloop (fuel : ℕ) (content : HttpContent) (text : Bytes)
      (h : bytesLoop fuel content text = some (.returned false content' buffer'.bytes)) :
      content'.getCompleteRequest = false := by
    induction fuel generalizing content text with
    | zero => cases h
    | succ fuel ih =>
      rw [bytesLoop] at h
      split at h
      · exact ih _ _ h
      · next hiteration =>
        cases h
        exact bytesIteration_rejected hiteration
      · cases h
  have hbytes := content.parseContent_bytes buffer
  rw [h] at hbytes
  exact hloop _ _ _ hbytes.symm

/-- What a call in a state for lines leads to: an exception, a partial line that waits for more
input, or a line that settles the request. -/
inductive LineOutcome (content : HttpContent) (text : Bytes) : Prop where
  | threw (call : content.parseBytes text = some .threw)
  | waits (content' : HttpContent) (rest : Bytes) (call : content.parseBytes text =
    some (.returned true content' rest))
      (reads : content'.ReadsLines) (unterminated : searchIdx crlf rest = none)
      (length_le : rest.length ≤ text.length)
  | settles (parseok : Bool) (content' : HttpContent) (rest : Bytes) (finish : ℕ)
      (call : content.parseBytes text = some (.returned parseok content' rest))
      (complete : content'.getCompleteRequest = parseok) (terminated : searchIdx crlf text = some finish)
      (length_le : rest.length + (finish + 2) ≤ text.length)

/-- Every call in a state for lines has one of these outcomes. -/
theorem lineOutcome {content : HttpContent} (hreads : content.ReadsLines) (text : Bytes) :
    content.LineOutcome text := by
  induction hlength : text.length using Nat.strongRecOn generalizing content text with
  | ind length ih =>
    have hcall := parseBytes_eq (Or.inl hreads) text
    cases hsearch : searchIdx crlf text with
    | none =>
      rw [bytesIteration_unterminated hreads hsearch] at hcall
      exact .waits content text hcall hreads hsearch le_rfl
    | some finish =>
      have hbound : finish + 2 ≤ text.length := (searchIdx_bound hsearch).2
      have hdrop : (text.drop (finish + 2)).length + (finish + 2) = text.length := by
        rw [List.length_drop]
        omega
      rw [bytesIteration_line hreads hsearch] at hcall
      cases hline : content.consumeLine (text.take finish) (text.drop (finish + 2)) with
      | threw =>
        rw [hline] at hcall
        exact .threw hcall
      | finished parseok content' rest =>
        obtain ⟨hcomplete, rfl⟩ := consumeLine_finished hline
        rw [hline] at hcall
        exact .settles parseok content' _ finish hcall hcomplete hsearch hdrop.le
      | again content' rest =>
        obtain ⟨hstate, rfl⟩ := consumeLine_again hreads hline
        rw [hline] at hcall
        cases ih (text.drop (finish + 2)).length (by omega) (Or.inr hstate) (text.drop (finish + 2)) rfl with
        | threw hrest => exact .threw (hcall.trans hrest)
        | waits content'' rest hrest hreads' hnone hle =>
          exact .waits content'' rest (hcall.trans hrest) hreads' hnone (by omega)
        | settles parseok content'' rest finish' hrest hcomplete hsearch' hle =>
          exact .settles parseok content'' rest finish (hcall.trans hrest) hcomplete hsearch (by omega)

end HttpContent

end WebServer.Http
