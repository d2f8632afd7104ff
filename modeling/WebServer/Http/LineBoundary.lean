import WebServer.Http.ContentLines
import WebServer.Foundation.Run

/-!
# `ParseContent` ends on a line boundary

A content is driven by calls of `ParseContent` on any buffers and by resets. It is always in one
of the three states in which the loop ends: a line is consumed in every execution of the body
that continues, so what a call consumes are whole lines, and a call which neither fails nor
completes a request leaves no line end behind.
-/

namespace WebServer.Http

open WebServer.Foundation
open WebServer.Util (Bytes Buffer ascii crlf)

/-- A call on a content. When `ParseContent` throws, the request is left partly assigned. -/
inductive ContentCall where
  | parseContent (buffer : Buffer) (leftover : HttpRequest)
  | resetContentState (method : Method) (version : Version)

namespace HttpContent

/-- The content after a call; a call that never ends has none. -/
def contentStep (content : HttpContent) : ContentCall → Option HttpContent
  | .parseContent buffer leftover =>
    match content.parseContent buffer with
    | some (.returned _ content' _) => some content'
    | some .threw => some { content with request := leftover }
    | none => none
  | .resetContentState method version => some (content.resetContentState method version)

/-- `ParseRequestLine` returns on the line in front of the content, if it is called. -/
def RequestLineReturns (content : HttpContent) (text : Bytes) : Prop :=
  content.parseState = .kParseRequestLine → ∀ finish, searchIdx crlf text = some finish →
    ∃ result, content.request.parseRequestLine (text.take finish) = .ok result

/-- A call that returns, has consumed whole lines, and stops before the first line end only with a
completed request or a failure. -/
structure EndsOnLine (content : HttpContent) (text : Bytes) (parseok : Bool) (content' : HttpContent) (rest : Bytes)
    (lines : List Bytes) : Prop where
  call : content.parseBytes text = some (.returned parseok content' rest)
  live : content'.Live
  consumed : text = lines.flatMap (· ++ crlf) ++ rest
  whole : ∀ line ∈ lines, ¬ crlf <:+: line
  exhausted : parseok = true → content'.getCompleteRequest = false → ¬ crlf <:+: rest

/-- A rejected request line leaves the parser in its state, and a completed head is complete. -/
theorem live_of_consumeLine {β : Type} {content content' : HttpContent} {line : Bytes} {rest rest' : β}
    {parseok : Bool}
    (h : content.consumeLine line rest = .finished parseok content' rest') : content'.Live := by
  rw [consumeLine] at h
  split at h
  · next hstate =>
    rw [requestLineBranch] at h
    split at h <;> cases h
    exact Or.inl (Or.inl hstate)
  · split at h <;> cases h
    exact Or.inr rfl

/-- A content for lines on which the request line returns consumes whole lines. -/
theorem endsOnLine_of_readsLines {content : HttpContent} (hreads : content.ReadsLines) {text : Bytes}
    (hreturns : content.RequestLineReturns text) :
    ∃ parseok content' rest lines, EndsOnLine content text parseok content' rest lines := by
  induction hlength : text.length using Nat.strongRecOn generalizing content text with
  | ind length ih =>
    have hcall := parseBytes_eq (Or.inl hreads) text
    cases hsearch : searchIdx crlf text with
    | none =>
      rw [bytesIteration_unterminated hreads hsearch] at hcall
      have hnone : ¬ crlf <:+: text := (searchIdx_eq_none (by decide)).mp hsearch
      exact ⟨true, content, text, [], hcall, Or.inl hreads, rfl, by simp, fun _ _ => hnone⟩
    | some finish =>
      have hbound := (searchIdx_bound hsearch).1
      have hfirst : ¬ crlf <:+: text.take finish := searchIdx_take (by decide) hsearch
      have hsplit : text = (text.take finish ++ crlf) ++ text.drop (finish + 2) := searchIdx_split hsearch
      rw [bytesIteration_line hreads hsearch] at hcall
      cases hline : content.consumeLine (text.take finish) (text.drop (finish + 2)) with
      | threw =>
        -- only the request line throws, and it returns on this line
        rw [consumeLine] at hline
        split at hline
        · next hstate =>
          obtain ⟨result, hresult⟩ := hreturns hstate finish hsearch
          rw [requestLineBranch, hresult] at hline
          split at hline <;> cases hline
          contradiction
        · split at hline <;> cases hline
      | finished parseok content' rest =>
        obtain ⟨hcomplete, rfl⟩ := consumeLine_finished hline
        rw [hline] at hcall
        refine ⟨parseok, content', _, [text.take finish], hcall, live_of_consumeLine hline, by simpa using hsplit,
          by simpa using hfirst, fun hok hopen => ?_⟩
        rw [hcomplete, hok] at hopen
        cases hopen
      | again content' rest =>
        obtain ⟨hstate, rfl⟩ := consumeLine_again hreads hline
        rw [hline] at hcall
        have hshorter : (text.drop (finish + 2)).length < length := by
          rw [List.length_drop]
          omega
        have hlater : content'.RequestLineReturns (text.drop (finish + 2)) := by
          intro hrequest
          rw [hstate] at hrequest
          cases hrequest
        obtain ⟨parseok, content'', rest, lines, hends⟩ := ih _ hshorter (Or.inr hstate) hlater rfl
        refine ⟨parseok, content'', rest, text.take finish :: lines, hcall.trans hends.call, hends.live, ?_, ?_,
          hends.exhausted⟩
        · rw [List.flatMap_cons, List.append_assoc, ← hends.consumed]
          exact hsplit
        · exact List.forall_mem_cons.mpr ⟨hfirst, hends.whole⟩

/-- A content with a completed request consumes nothing. -/
theorem endsOnLine_of_complete {content : HttpContent} (hcomplete : content.parseState = .kParseGotCompleteRequest)
    (text : Bytes) : EndsOnLine content text true content text [] where
  call := by rw [parseBytes_eq (Or.inr hcomplete), bytesIteration_complete text hcomplete]
  live := Or.inr hcomplete
  consumed := rfl
  whole := by simp
  exhausted _ hopen := by simp [getCompleteRequest, hcomplete] at hopen

/-- In the three states every call on which the request line returns ends on a line boundary. -/
theorem endsOnLine_of_live {content : HttpContent} (hlive : content.Live) {text : Bytes}
    (hreturns : content.RequestLineReturns text) :
    ∃ parseok content' rest lines, EndsOnLine content text parseok content' rest lines := by
  rcases hlive with hreads | hcomplete
  · exact endsOnLine_of_readsLines hreads hreturns
  · exact ⟨true, content, text, [], endsOnLine_of_complete hcomplete text⟩

/-- A call of the parser which throws does so in the state for the request line, and otherwise the
three states are kept. -/
theorem live_step (content : HttpContent) (call : ContentCall) (content' : HttpContent) (hlive : content.Live)
    (hstep : content.contentStep call = some content') : content'.Live := by
  cases call with
  | resetContentState method version =>
    obtain rfl := Option.some.inj hstep
    exact Or.inl (Or.inl rfl)
  | parseContent buffer leftover =>
    rw [contentStep] at hstep
    split at hstep
    · next parseok returned buffer' hcall =>
      obtain rfl := Option.some.inj hstep
      by_cases hreturns : content.RequestLineReturns buffer.bytes
      · obtain ⟨parseok', content'', rest, lines, hends⟩ := endsOnLine_of_live hlive hreturns
        have hbytes := content.parseContent_bytes buffer
        rw [hcall, hends.call] at hbytes
        cases hbytes
        exact hends.live
      · -- the request line throws, so the call does not return
        rw [RequestLineReturns] at hreturns
        push Not at hreturns
        obtain ⟨hstate, finish, hsearch, hthrows⟩ := hreturns
        have hreads : content.ReadsLines := Or.inl hstate
        have hbytes := content.parseContent_bytes buffer
        rw [hcall, parseBytes_eq hlive, bytesIteration_line hreads hsearch, consumeLine, if_pos hstate,
          requestLineBranch] at hbytes
        cases hline : content.request.parseRequestLine (buffer.bytes.take finish) with
        | ok result => exact absurd hline (hthrows result)
        | error e =>
          rw [hline] at hbytes
          cases hbytes
    · obtain rfl := Option.some.inj hstep
      exact hlive
    · cases hstep

/-- In every run of calls the parser is in none of the states in which its loop would not end, and a
call on a buffer on which the request line returns ends, consumes whole lines, and leaves no
line end behind unless it fails or completes a request. -/
theorem endsOnLine_run {method : Method} {version : Version} {calls : List ContentCall} {content : HttpContent}
    (hrun : run contentStep (new method version) calls = some content) :
    (content.parseState ≠ .kParseBody ∧ content.parseState ≠ .kParseErrno) ∧
      ∀ buffer, content.RequestLineReturns buffer.bytes → ∃ parseok content' buffer', ∃ lines : List Bytes,
        content.parseContent buffer = some (.returned parseok content' buffer') ∧
          buffer.bytes = lines.flatMap (· ++ crlf) ++ buffer'.bytes ∧ (∀ line ∈ lines, ¬ crlf <:+: line) ∧
            (parseok = true → content'.getCompleteRequest = false → ¬ crlf <:+: buffer'.bytes) := by
  have hnew : (new method version).Live := Or.inl (Or.inl rfl)
  have hlive : content.Live := run_invariant live_step hnew hrun
  constructor
  · rcases hlive with (hstate | hstate) | hstate
    · simp [hstate]
    · simp [hstate]
    · simp [hstate]
  · intro buffer hreturns
    obtain ⟨parseok, content', rest, lines, hends⟩ := endsOnLine_of_live hlive hreturns
    obtain ⟨buffer', hcall, rfl⟩ := parseContent_of_parseBytes hends.call
    exact ⟨parseok, content', buffer', lines, hcall, hends.consumed, hends.whole, hends.exhausted⟩

/-- A head that is cut, a second call with its end, a reset, and a call with a partial header line. -/
theorem endsOnLine_cutHead : ∃ content,
    run contentStep (new .kPut .kUnknown) [.parseContent (Buffer.new.append (ascii "GET / HTTP/1.1\r\nA"))
      (.new .kPut .kUnknown),
      .parseContent (Buffer.new.append (ascii "A: b\r\n\r\nGET")) (.new .kPut .kUnknown),
      .resetContentState .kGet .kHttp10] = some content ∧
    ∃ parseok content' buffer', ∃ lines : List Bytes,
      content.parseContent (Buffer.new.append (ascii "GET / HTTP/1.1\r\nA: b")) =
        some (.returned parseok content' buffer') ∧
        ascii "GET / HTTP/1.1\r\nA: b" = lines.flatMap (· ++ crlf) ++ buffer'.bytes := by
  have hends : (run contentStep (new .kPut .kUnknown)
      [.parseContent (Buffer.new.append (ascii "GET / HTTP/1.1\r\nA")) (.new .kPut .kUnknown),
        .parseContent (Buffer.new.append (ascii "A: b\r\n\r\nGET")) (.new .kPut .kUnknown),
        .resetContentState .kGet .kHttp10]) = some (new .kGet .kHttp10) := by decide +kernel
  have hreturns : (new .kGet .kHttp10).RequestLineReturns (Buffer.new.append
    (ascii "GET / HTTP/1.1\r\nA: b")).bytes := by
    intro _ finish hsearch
    obtain rfl : 14 = finish := Option.some.inj ((by decide +kernel : searchIdx crlf
      (Buffer.new.append (ascii "GET / HTTP/1.1\r\nA: b")).bytes = some 14).symm.trans hsearch)
    exact ⟨(true, ⟨.kGet, ascii "/", [], .kHttp11, ∅⟩), by decide +kernel⟩
  obtain ⟨parseok, content', buffer', lines, hcall, hconsumed, -, -⟩ := (endsOnLine_run hends).2 _ hreturns
  rw [Buffer.bytes_append, Buffer.bytes_new, List.nil_append] at hconsumed
  exact ⟨_, hends, parseok, content', buffer', lines, hcall, hconsumed⟩

end HttpContent

end WebServer.Http
